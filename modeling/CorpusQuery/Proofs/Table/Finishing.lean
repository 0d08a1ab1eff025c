import CorpusQuery.Proofs.Lists
import CorpusQuery.Table.Finish

/-!
# Finishing row by row

Arranging the columns and inserting relative counts treat every row on its own: what becomes of a
row depends on the columns and on the row, never on the other rows. So these steps lose no row and
bring none in, and it does not matter whether a table is cut before them or after them. The other
two steps compare rows or count them.

No step makes a table ragged, whichever it is: from rows with a cell for every column come rows with
a cell for every column.
-/

namespace CorpusQuery.Table

/-! ## Row by row -/

/-- A function on tables that treats every row on its own, given the columns. -/
def RowByRow (F : Table → Table) : Prop :=
  ∀ columns, ∃ (names : List String) (cells : List Value → List Value),
    ∀ rows, F ⟨columns, rows⟩ = ⟨names, rows.map cells⟩

theorem RowByRow.id : RowByRow fun t ↦ t :=
  fun columns ↦ ⟨columns, fun row ↦ row, fun rows ↦ by rw [List.map_id']⟩

theorem RowByRow.comp {F G : Table → Table} (hG : RowByRow G) (hF : RowByRow F) :
    RowByRow fun t ↦ G (F t) := by
  intro columns
  obtain ⟨names, cells, hrows⟩ := hF columns
  obtain ⟨names', cells', hrows'⟩ := hG names
  refine ⟨names', fun row ↦ cells' (cells row), fun rows ↦ ?_⟩
  dsimp only
  rw [hrows, hrows', List.map_map]
  rfl

theorem RowByRow.foldl {α : Type} {F : Table → α → Table} {xs : List α}
    (h : ∀ x ∈ xs, RowByRow (F · x)) : RowByRow (xs.foldl F) := by
  induction xs with
  | nil => exact .id
  | cons x xs ih =>
    obtain ⟨hx, hxs⟩ := List.forall_mem_cons.mp h
    exact (ih hxs).comp hx

theorem rowByRow_arrange (names : List String → List String) :
    RowByRow fun t ↦ t.arrange (names t.columns) := by
  intro columns
  let positions := arrangement ⟨columns, []⟩ (names columns)
  exact ⟨positions.filterMap (columns[·]?), fun row ↦ positions.filterMap (row[·]?), fun _ ↦ rfl⟩

theorem rowByRow_anchorColumns : RowByRow anchorColumns :=
  rowByRow_arrange fun columns ↦
    (columns.filter (!(anchored ⟨columns, []⟩).contains ·)).flatMap (withDerived ⟨columns, []⟩)

theorem insertCells_map (i : Nat) (f : List Value → Value) (rows : List (List Value)) :
    insertCells i rows (rows.map f) = rows.map fun row ↦ row.insertIdx i (f row) := by
  induction rows with
  | nil => rfl
  | cons row rows ih => rw [List.map_cons, List.map_cons, insertCells, ih]

theorem rowByRow_insertRelative (totals : Totals) (relative absolute : String) (kind : TotalKind) :
    RowByRow fun t ↦ insertRelative totals t relative absolute kind := by
  intro columns
  by_cases hskip : (columns.idxOf? relative).isSome = true
  · refine ⟨columns, fun row ↦ row, fun rows ↦ ?_⟩
    simp [insertRelative, hasColumn, columnIndex?, hskip]
  cases hindex : columns.idxOf? absolute with
  | none =>
    refine ⟨columns, fun row ↦ row, fun rows ↦ ?_⟩
    simp [insertRelative, hasColumn, columnIndex?, hskip, hindex]
  | some i =>
    let place := min (i + 1) columns.length
    refine ⟨columns.insertIdx place relative,
      fun row ↦ row.insertIdx place (relativeCell totals kind (cellAt i row)), fun rows ↦ ?_⟩
    simp only [insertRelative, hasColumn, columnIndex?, hskip, hindex, insertColumn,
      insertCells_map, place]

theorem rowByRow_insertRelatives (totals : Totals) : RowByRow (insertRelatives · totals) :=
  RowByRow.foldl fun (relative, absolute, kind) _ ↦
    rowByRow_insertRelative totals relative absolute kind

/-- A step that does not look at several rows at once. -/
def FinishStep.Local : FinishStep → Prop
  | .distinct _ | .cap _ => False
  | .anchor | .relative _ => True

theorem local_of_mem_anchor_relative {totals : Totals} {relative : Bool} {s : FinishStep}
    (h : s ∈ [FinishStep.anchor] ++ if relative then [FinishStep.relative totals] else []) :
    s.Local := by
  simp only [List.mem_append, List.mem_singleton, List.mem_ite_nil_right] at h
  rcases h with rfl | ⟨-, rfl⟩
  · exact trivial
  · exact trivial

theorem rowByRow_finish {steps : List FinishStep} (h : ∀ s ∈ steps, s.Local) :
    RowByRow (finish · steps) := by
  apply RowByRow.foldl
  intro s hs
  cases s with
  | distinct | cap => exact absurd (h _ hs) id
  | anchor => exact rowByRow_anchorColumns
  | relative totals => exact rowByRow_insertRelatives totals

/-- What a row is finished to on its own. -/
def finishRow (columns : List String) (steps : List FinishStep) (row : List Value) : List Value :=
  ((finish ⟨columns, [row]⟩ steps).rows).headD []

/-- **Row by row.** Where no step looks at several rows, the rows of a finished table are those that
the rows are finished to. -/
theorem rows_finish {steps : List FinishStep} (h : ∀ s ∈ steps, s.Local) (columns : List String)
    (rows : List (List Value)) :
    (finish ⟨columns, rows⟩ steps).rows = rows.map (finishRow columns steps) := by
  obtain ⟨names, cells, hfinish⟩ := rowByRow_finish h columns
  have hcells : finishRow columns steps = cells := by
    funext row
    exact congrArg (fun t ↦ t.rows.headD []) (hfinish [row])
  rw [hcells]
  exact congrArg Table.rows (hfinish rows)

theorem columns_finish {steps : List FinishStep} (h : ∀ s ∈ steps, s.Local) (columns : List String)
    (rows rows' : List (List Value)) :
    (finish ⟨columns, rows⟩ steps).columns = (finish ⟨columns, rows'⟩ steps).columns := by
  obtain ⟨names, cells, hfinish⟩ := rowByRow_finish h columns
  exact (congrArg Table.columns (hfinish rows)).trans (congrArg Table.columns (hfinish rows')).symm

/-! ## Tables that are not ragged -/

/-- Every row has a cell for every column, and no further ones. -/
def Rectangular (t : Table) : Prop := ∀ row ∈ t.rows, row.length = t.columns.length

instance (t : Table) : Decidable t.Rectangular :=
  inferInstanceAs (Decidable (∀ row ∈ t.rows, row.length = t.columns.length))

theorem Rectangular.arrange {t : Table} (ht : t.Rectangular) (names : List String) :
    (t.arrange names).Rectangular := by
  intro row hrow
  obtain ⟨before, hbefore, rfl⟩ := List.mem_map.mp hrow
  exact length_filterMap_getElem? (ht before hbefore) _

theorem Rectangular.insertRelative {t : Table} (ht : t.Rectangular) (totals : Totals)
    (relative absolute : String) (kind : TotalKind) :
    (insertRelative totals t relative absolute kind).Rectangular := by
  rw [Table.insertRelative.eq_def]
  split
  · intro row hrow
    rw [insertColumn, insertCells_map] at hrow
    obtain ⟨before, hbefore, rfl⟩ := List.mem_map.mp hrow
    have hlength := ht before hbefore
    rw [insertColumn, List.length_insertIdx_of_le_length, List.length_insertIdx_of_le_length,
      hlength]
    · exact Nat.min_le_right _ _
    · rw [hlength]
      exact Nat.min_le_right _ _
  · exact ht

theorem Rectangular.insertRelatives {t : Table} (ht : t.Rectangular) (totals : Totals) :
    (t.insertRelatives totals).Rectangular := by
  rw [Table.insertRelatives]
  generalize relativeColumns = relatives
  induction relatives generalizing t with
  | nil => exact ht
  | cons r relatives ih => exact ih (ht.insertRelative totals r.1 r.2.1 r.2.2)

theorem lastOfEach_sublist (positions : List Nat) (rows : List (List Value)) :
    (lastOfEach positions rows).Sublist rows := by
  induction rows with
  | nil => exact .slnil
  | cons row rows ih =>
    rw [lastOfEach]
    split
    · exact ih.cons row
    · exact ih.cons_cons row

theorem Rectangular.apply {t : Table} (ht : t.Rectangular) (s : FinishStep) :
    (s.apply t).Rectangular := by
  cases s with
  | distinct keys =>
    rw [FinishStep.apply, distinctLast]
    split
    · exact ht
    · intro row hrow
      exact ht row ((lastOfEach_sublist _ _).mem hrow)
  | cap n =>
    intro row hrow
    exact ht row (List.mem_of_mem_take hrow)
  | anchor => exact ht.arrange _
  | relative totals => exact ht.insertRelatives totals

theorem Rectangular.finish {t : Table} (ht : t.Rectangular) (steps : List FinishStep) :
    (t.finish steps).Rectangular := by
  rw [Table.finish]
  induction steps generalizing t with
  | nil => exact ht
  | cons s steps ih => exact ih (ht.apply s)

end CorpusQuery.Table

import CorpusQuery.Proofs.Table.Columns
import CorpusQuery.Proofs.Table.Identity
import CorpusQuery.Table.Top
import Mathlib.Logic.Embedding.Basic
import Mathlib.Logic.Equiv.Fin.Basic

/-!
# Tables under processing

Rows are dropped and moved, columns are moved and come in between others, and all of it is done by
position. Whatever the operations are and in whichever order they come, a table that is not ragged
and whose columns have different names stays such a table, and what is left in it is drawn from what
was there: every row is one of the rows before, no two are the same one, and under the name of every
column stands the cell that stood there.

An operation on rows leaves a part of the rows in some order, and this is all that matters of it. An
operation on columns leaves every row where it is, and a cell is found under its name because names
are different: a relative count comes in only where its name is not taken.

## Main statements

* `Table.Tidy.apply`, `Table.drawnFrom_apply`: one operation.
* `Table.process_keeps_cells`: any sequence of operations.
-/

namespace CorpusQuery.Table

/-! ## Operations -/

/-- What is done to a table between its scan and the answer. -/
inductive Operation where
  /-- A step of finishing. -/
  | finish (s : FinishStep)
  /-- Keeps the most frequent rows of each form. -/
  | topPerForm (n : ℕ)
  /-- Sorts by a column, if there is such a column. -/
  | sort (column : String) (ascending : Bool)
  /-- Keeps the first rows. -/
  | take (n : ℕ)
  /-- Keeps rows by their positions. -/
  | keep (p : ℕ → Bool)

/-- The effect of an operation. -/
def Operation.apply : Operation → Table → Table
  | .finish s, t => s.apply t
  | .topPerForm n, t => t.topPerForm n
  | .sort column ascending, t => (t.sortBy? column ascending).getD t
  | .take n, t => t.take n
  | .keep p, t => t.keepRows p

/-- Carries out operations in turn. -/
def process (t : Table) (operations : List Operation) : Table :=
  operations.foldl (fun t o ↦ o.apply t) t

/-! ## What is kept -/

/-- Rows have a cell for every column, and columns have different names. -/
structure Tidy (t : Table) : Prop where
  rectangular : t.Rectangular
  nodup : t.columns.Nodup

/-- All columns are still there, and every row is another one of the rows there were, with the cells
under their names. -/
structure DrawnFrom (t' t : Table) : Prop where
  columns : t.columns ⊆ t'.columns
  rows : ∃ origin : Fin t'.rows.length ↪ Fin t.rows.length,
    ∀ k : Fin t'.rows.length, ∀ c ∈ t.columns, t'.cell? k c = t.cell? (origin k) c

variable {t t' t'' : Table}

theorem DrawnFrom.refl (t : Table) : t.DrawnFrom t :=
  ⟨List.Subset.refl _, .refl _, fun _ _ _ ↦ rfl⟩

theorem DrawnFrom.trans (h' : t''.DrawnFrom t') (h : t'.DrawnFrom t) : t''.DrawnFrom t := by
  obtain ⟨origin, hcells⟩ := h.rows
  obtain ⟨origin', hcells'⟩ := h'.rows
  refine ⟨List.Subset.trans h.columns h'.columns, origin'.trans origin, fun k c hc ↦ ?_⟩
  calc t''.cell? k c
      = t'.cell? (origin' k) c := hcells' k c (h.columns hc)
    _ = t.cell? (origin (origin' k)) c := hcells (origin' k) c hc

theorem Rectangular.exists_cell? (ht : t.Rectangular) (k : Fin t.rows.length) {c : String}
    (hc : c ∈ t.columns) : ∃ v, t.cell? k c = some v := by
  obtain ⟨i, hindex⟩ := Option.isSome_iff_exists.mp (List.isSome_idxOf?.mpr hc)
  have hlength : t.rows[k].length = t.columns.length := ht _ (List.getElem_mem k.isLt)
  have hi : i < t.rows[k].length := hlength ▸ (List.idxOf?_eq_some_iff.mp hindex).1
  refine ⟨t.rows[k][i], ?_⟩
  simp [cell?, columnIndex?, hindex]

/-! ## Operations on rows -/

section Rows

variable {rows : List (List Value)}

theorem Tidy.of_subperm (ht : t.Tidy) (h : rows.Subperm t.rows) : Tidy { t with rows := rows } :=
  ⟨fun row hrow ↦ ht.rectangular row (h.subset hrow), ht.nodup⟩

theorem DrawnFrom.of_subperm (h : rows.Subperm t.rows) : DrawnFrom { t with rows := rows } t := by
  refine ⟨List.Subset.refl _, ⟨h.idxInj, h.idxInj_injective⟩, fun k c _ ↦ ?_⟩
  have hrow : rows[(k : ℕ)]? = t.rows[(h.idxInj k : ℕ)]? := by
    rw [List.getElem?_eq_getElem k.isLt, List.getElem?_eq_getElem (h.idxInj k).isLt,
      h.getElem_idxInj_eq_getElem]
  simp only [cell?, columnIndex?, Function.Embedding.coeFn_mk, hrow]

theorem keepRows_sublist (t : Table) (p : ℕ → Bool) : (t.keepRows p).rows.Sublist t.rows := by
  have hsublist := (List.filter_sublist (p := fun x : List Value × ℕ ↦ p x.2)
    (l := t.rows.zipIdx)).map Prod.fst
  rwa [List.zipIdx_map_fst] at hsublist

end Rows

/-! ## Operations on columns -/

theorem DrawnFrom.of_cells (hcolumns : t.columns ⊆ t'.columns)
    (hlength : t'.rows.length = t.rows.length)
    (hcells : ∀ k : ℕ, ∀ c ∈ t.columns, t'.cell? k c = t.cell? k c) : t'.DrawnFrom t :=
  ⟨hcolumns, (finCongr hlength).toEmbedding, fun k c hc ↦ hcells k c hc⟩

theorem Tidy.anchorColumns (ht : t.Tidy) : t.anchorColumns.Tidy :=
  ⟨ht.rectangular.arrange _, nodup_columns_anchorColumns_iff.mpr ht.nodup⟩

theorem drawnFrom_anchorColumns (ht : t.Tidy) : t.anchorColumns.DrawnFrom t :=
  .of_cells (columns_subperm_arrange t _).subset (List.length_map _) fun k c _ ↦
    cell?_arrange ht.rectangular _ k c

section Relative

variable (totals : Totals) (relative absolute : String) (kind : TotalKind)

theorem insertRelative_eq_self_or (t : Table) :
    insertRelative totals t relative absolute kind = t ∨
      relative ∉ t.columns ∧
        (insertRelative totals t relative absolute kind).columns.Perm (relative :: t.columns) := by
  rw [insertRelative.eq_def]
  split
  case h_2 => exact .inl rfl
  case h_1 i hnew hindex =>
    have habsent : relative ∉ t.columns := fun hmem ↦ by
      rw [hasColumn_iff.mpr hmem] at hnew
      cases hnew
    exact .inr ⟨habsent, List.perm_insertIdx _ _ (Nat.min_le_right _ _)⟩

theorem Tidy.insertRelative (ht : t.Tidy) :
    (insertRelative totals t relative absolute kind).Tidy := by
  refine ⟨ht.rectangular.insertRelative totals relative absolute kind, ?_⟩
  rcases insertRelative_eq_self_or totals relative absolute kind t with hself | ⟨hnew, hperm⟩
  · rw [hself]
    exact ht.nodup
  · exact hperm.nodup_iff.mpr (List.nodup_cons.mpr ⟨hnew, ht.nodup⟩)

theorem drawnFrom_insertRelative (ht : t.Tidy) :
    (insertRelative totals t relative absolute kind).DrawnFrom t := by
  rcases insertRelative_eq_self_or totals relative absolute kind t with hself | ⟨hnew, hperm⟩
  · rw [hself]
    exact .refl t
  · refine .of_cells (fun c hc ↦ hperm.mem_iff.mpr (List.mem_cons_of_mem _ hc)) ?_ fun k c hc ↦ ?_
    · obtain ⟨names, cells, hrows⟩ :=
        rowByRow_insertRelative totals relative absolute kind t.columns
      exact (congrArg (·.rows.length) (hrows t.rows)).trans (List.length_map _)
    · have hne : relative ≠ c := fun h ↦ hnew (h ▸ hc)
      exact cell?_insertRelative ht.rectangular totals hne absolute kind k

end Relative

theorem tidy_and_drawnFrom_insertRelatives (ht : t.Tidy) (totals : Totals) :
    (t.insertRelatives totals).Tidy ∧ (t.insertRelatives totals).DrawnFrom t := by
  rw [insertRelatives]
  generalize relativeColumns = relatives
  induction relatives generalizing t with
  | nil => exact ⟨ht, .refl t⟩
  | cons r relatives ih =>
    obtain ⟨htidy, hdrawn⟩ := ih (ht.insertRelative totals r.1 r.2.1 r.2.2)
    exact ⟨htidy, hdrawn.trans (drawnFrom_insertRelative totals r.1 r.2.1 r.2.2 ht)⟩

/-! ## One operation -/

/-- What an operation is: it leaves a part of the rows, or it is one on columns. -/
theorem Operation.rows_or_columns (o : Operation) (t : Table) :
    (∃ rows : List (List Value), rows.Subperm t.rows ∧ o.apply t = { t with rows := rows }) ∨
      o.apply t = t.anchorColumns ∨ ∃ totals, o.apply t = t.insertRelatives totals := by
  have hself : ∃ rows : List (List Value), rows.Subperm t.rows ∧ t = { t with rows := rows } :=
    ⟨t.rows, .refl _, rfl⟩
  have htake (n : ℕ) : ∃ rows : List (List Value), rows.Subperm t.rows ∧
      t.take n = { t with rows := rows } :=
    ⟨_, (List.take_sublist n t.rows).subperm, rfl⟩
  have hkeep (p : ℕ → Bool) : ∃ rows : List (List Value), rows.Subperm t.rows ∧
      t.keepRows p = { t with rows := rows } :=
    ⟨_, (keepRows_sublist t p).subperm, rfl⟩
  cases o with
  | finish s =>
    cases s with
    | distinct keys =>
      refine .inl ?_
      rw [apply, FinishStep.apply, distinctLast]
      split
      · exact hself
      · exact ⟨_, (lastOfEach_sublist _ _).subperm, rfl⟩
    | cap n => exact .inl (htake n)
    | anchor => exact .inr (.inl rfl)
    | relative totals => exact .inr (.inr ⟨totals, rfl⟩)
  | topPerForm n =>
    refine .inl ?_
    rw [apply, Table.topPerForm]
    split
    · exact hkeep _
    · exact hself
  | sort column ascending =>
    refine .inl ?_
    rw [apply, sortBy?]
    cases t.columnIndex? column with
    | none => exact hself
    | some i => exact ⟨_, (List.mergeSort_perm _ _).subperm, rfl⟩
  | take n => exact .inl (htake n)
  | keep p => exact .inl (hkeep p)

theorem Tidy.apply (ht : t.Tidy) (o : Operation) : (o.apply t).Tidy := by
  rcases o.rows_or_columns t with ⟨rows, hrows, heq⟩ | heq | ⟨totals, heq⟩
  · rw [heq]
    exact ht.of_subperm hrows
  · rw [heq]
    exact ht.anchorColumns
  · rw [heq]
    exact (tidy_and_drawnFrom_insertRelatives ht totals).1

theorem drawnFrom_apply (ht : t.Tidy) (o : Operation) : (o.apply t).DrawnFrom t := by
  rcases o.rows_or_columns t with ⟨rows, hrows, heq⟩ | heq | ⟨totals, heq⟩
  · rw [heq]
    exact .of_subperm hrows
  · rw [heq]
    exact drawnFrom_anchorColumns ht
  · rw [heq]
    exact (tidy_and_drawnFrom_insertRelatives ht totals).2

/-! ## Any sequence -/

theorem Tidy.process (ht : t.Tidy) (operations : List Operation) :
    (t.process operations).Tidy ∧ (t.process operations).DrawnFrom t := by
  rw [Table.process]
  induction operations generalizing t with
  | nil => exact ⟨ht, .refl t⟩
  | cons o operations ih =>
    obtain ⟨htidy, hdrawn⟩ := ih (ht.apply o)
    exact ⟨htidy, hdrawn.trans (drawnFrom_apply ht o)⟩

/-- **Processing.** A table that is not ragged and whose columns have different names is still such
a table after any operations. Every column is there once. Every row is another one of the rows there
were, and under the name of every column it has the cell that stood there. -/
theorem process_keeps_cells (ht : t.Rectangular) (hnodup : t.columns.Nodup)
    (operations : List Operation) :
    (t.process operations).Rectangular ∧ (t.process operations).columns.Nodup ∧
      (∀ c ∈ t.columns, (t.process operations).columns.count c = 1) ∧
      ∃ origin : Fin (t.process operations).rows.length ↪ Fin t.rows.length,
        ∀ k : Fin (t.process operations).rows.length, ∀ c ∈ t.columns, ∃ v,
          t.cell? (origin k) c = some v ∧ (t.process operations).cell? k c = some v := by
  obtain ⟨htidy, hdrawn⟩ := Tidy.process ⟨ht, hnodup⟩ operations
  refine ⟨htidy.rectangular, htidy.nodup, fun c hc ↦ ?_, ?_⟩
  · exact List.count_eq_one_of_mem htidy.nodup (hdrawn.columns hc)
  · obtain ⟨origin, hcells⟩ := hdrawn.rows
    refine ⟨origin, fun k c hc ↦ ?_⟩
    obtain ⟨v, hv⟩ := ht.exists_cell? (origin k) hc
    exact ⟨v, hv, (hcells k c hc).trans hv⟩

/-- Three words, with derived columns away from their anchors. -/
def scatteredWords : Table where
  columns := ["hood", "lemma", "form", "bigramfreq", "frequency", "len", "amblemma"]
  rows := [[.int 2, .text "sana", .text "sanoja", .int 20, .int 50, .int 6, .int 1],
    [.int 7, .text "talo", .text "talo", .int 11, .int 90, .int 4, .int 1],
    [.int 3, .text "sana", .text "sana", .int 31, .int 70, .int 4, .null]]

theorem process_keeps_cells_scatteredWords :
    let operations : List Operation := [.finish .anchor, .sort "frequency" false,
      .finish (.relative {}), .finish (.distinct rowKey), .topPerForm 1, .take 2, .keep (· != 0)]
    scatteredWords.Rectangular ∧ scatteredWords.columns.Nodup ∧
      (scatteredWords.process operations).columns.count "hood" = 1 ∧
      ∃ origin : Fin (scatteredWords.process operations).rows.length ↪ Fin 3,
        ∀ k : Fin (scatteredWords.process operations).rows.length,
          ∀ c ∈ scatteredWords.columns, ∃ v, scatteredWords.cell? (origin k) c = some v ∧
            (scatteredWords.process operations).cell? k c = some v := by
  intro operations
  have hrectangular : scatteredWords.Rectangular := by decide
  have hnodup : scatteredWords.columns.Nodup := by decide
  obtain ⟨-, -, hcount, horigin⟩ := process_keeps_cells hrectangular hnodup operations
  exact ⟨hrectangular, hnodup, hcount "hood" (by decide), horigin⟩

end CorpusQuery.Table

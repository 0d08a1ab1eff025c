import CorpusQuery.Proofs.Number.Exact
import CorpusQuery.Proofs.Table.Processing
import CorpusQuery.Proofs.Table.Ranking
import CorpusQuery.Proofs.Table.Rows

/-!
# Sorted tables

Rows are compared by their cells in one column, and two rules meet there: cells with a value are
ordered up or down, and missing ones come last either way. A sort needs more of a comparison than
that it answers, since cells of different kinds do not compare and then count as equal. Where all
values of a column are whole numbers, or all are texts, each of them has a place in one linear
order, and the comparison is that of places with missing ones at the end.

Reversing the order of values does not reverse that of equal ones: rows with the same cell stay in
their order in both directions, and so do the rows without a value.

## Main statements

* `Table.cellOrder_eq_keyLE`: the comparison as one of keys.
* `Table.sortBy?_sorts_stably`: what sorting does to the rows of a table.
-/

namespace CorpusQuery

open Ranking (bne_gt_compare keyLE)

namespace Value

/-- A value of a kind, or none. -/
def FitsKind (v : Value) (k : Kind) : Prop := v = .null ∨ v.kind = k

/-- The place of a whole number or a text in the order of its kind. -/
def place? : Value → Option (ℤ ⊕ₗ String)
  | .int n => some (toLex (.inl n))
  | .text s => some (toLex (.inr s))
  | .real _ | .null => none

variable {u v : Value} {k : Kind}

theorem exists_place?_of_kind (hk : k = .int ∨ k = .text) (hv : v.kind = k) :
    ∃ x, v.place? = some x := by
  rcases v with n | x | s | _
  · exact ⟨_, rfl⟩
  · rcases hk with rfl | rfl <;> cases hv
  · exact ⟨_, rfl⟩
  · rcases hk with rfl | rfl <;> cases hv

theorem order?_of_place? {x y : ℤ ⊕ₗ String} (hkind : u.kind = v.kind) (hu : u.place? = some x)
    (hv : v.place? = some y) : u.order? v = some (compare x y) := by
  rcases u with n | _ | s | _
  · rcases v with m | _ | _ | _
    · obtain rfl := Option.some.inj hu
      obtain rfl := Option.some.inj hv
      exact congrArg some (Number.compare_map Sum.Lex.inl_strictMono n m).symm
    all_goals cases hkind
  · cases hu
  · rcases v with _ | _ | t | _
    · cases hkind
    · cases hkind
    · obtain rfl := Option.some.inj hu
      obtain rfl := Option.some.inj hv
      exact congrArg some (Number.compare_map Sum.Lex.inr_strictMono s t).symm
    · cases hkind
  · cases hu

end Value

namespace Table

/-! ## Comparing cells -/

variable {u v : Value} {k : Kind} {ascending : Bool}

/-- **The comparison of rows.** If values compare like their keys, and only missing cells have none,
then cells compare like their keys, up or down, and missing ones are last in both directions. -/
theorem cellOrder_eq_keyLE {κ : Type} [LinearOrder κ] {x? y? : Option κ}
    (hu : u.isNull = x?.isNone) (hv : v.isNull = y?.isNone)
    (horder : ∀ x y, x? = some x → y? = some y → u.order? v = some (compare x y))
    (ascending : Bool) : (cellOrder ascending u v != .gt) = keyLE ascending true x? y? := by
  rw [cellOrder, hu, hv]
  cases x? with
  | none => cases y? <;> rfl
  | some x =>
    cases y? with
    | none => rfl
    | some y =>
      rw [horder x y rfl rfl]
      exact bne_gt_compare ascending true x y

theorem cellOrder_eq_keyLE_place (hk : k = .int ∨ k = .text) (hu : u.FitsKind k)
    (hv : v.FitsKind k) (ascending : Bool) :
    (cellOrder ascending u v != .gt) = keyLE ascending true u.place? v.place? := by
  have hnull {w : Value} (hw : w.FitsKind k) : w.isNull = w.place?.isNone := by
    rcases hw with rfl | hw
    · rfl
    · rcases hk with rfl | rfl <;> cases w <;> first | rfl | cases hw
  refine cellOrder_eq_keyLE (hnull hu) (hnull hv) (fun x y hx hy ↦ ?_) ascending
  have hthere {w : Value} {z : ℤ ⊕ₗ String} (hw : w.FitsKind k) (hz : w.place? = some z) :
      w.kind = k := by
    refine hw.resolve_left ?_
    rintro rfl
    cases hz
  exact Value.order?_of_place? ((hthere hu hx).trans (hthere hv hy).symm) hx hy

/-! ## Sorting rows -/

variable {i : ℕ} {rows : List (List Value)}

theorem sortRows_eq_mergeSort (hk : k = .int ∨ k = .text)
    (hcells : ∀ row ∈ rows, (cellAt i row).FitsKind k) (ascending : Bool) :
    sortRows i ascending rows = rows.mergeSort fun r s ↦
      keyLE ascending true (cellAt i r).place? (cellAt i s).place? := by
  have hsorted : (sortRows i ascending rows).map id = (rows.map id).mergeSort fun r s ↦
      keyLE ascending true (cellAt i r).place? (cellAt i s).place? :=
    List.map_mergeSort fun r hr s hs ↦
      cellOrder_eq_keyLE_place hk (hcells r hr) (hcells s hs) ascending
  rwa [List.map_id, List.map_id] at hsorted

/-! ## What sorting does -/

/-- The rows of a table are in the order of a column: values go up or down and missing ones come
last. -/
structure SortedBy (t : Table) (column : String) (ascending : Bool) : Prop where
  /-- A row without a value is followed by such rows only. -/
  missing_last : t.rows.Pairwise fun r s ↦
    t.cellUnder column r = .null → t.cellUnder column s = .null
  /-- No value is followed by one that should have come first. -/
  ordered : t.rows.Pairwise fun r s ↦ (t.cellUnder column r).order? (t.cellUnder column s)
    ≠ some (if ascending then .gt else .lt)

/-- The values of a column are all whole numbers, or all texts. -/
def Uniform (t : Table) (column : String) : Prop :=
  ∃ k, (k = .int ∨ k = .text) ∧ ∀ row ∈ t.rows, (t.cellUnder column row).FitsKind k

theorem ordered_of_keyLE (hk : k = .int ∨ k = .text) (hu : u.FitsKind k) (hv : v.FitsKind k)
    (h : keyLE ascending true u.place? v.place? = true) :
    (u = .null → v = .null) ∧ u.order? v ≠ some (if ascending then .gt else .lt) := by
  rcases hu with rfl | hu
  · rcases hv with rfl | hv
    · exact ⟨fun h ↦ h, nofun⟩
    · obtain ⟨y, hy⟩ := Value.exists_place?_of_kind hk hv
      rw [hy] at h
      cases h
  · obtain ⟨x, hx⟩ := Value.exists_place?_of_kind hk hu
    have hthere : u ≠ .null := by
      rintro rfl
      cases hx
    refine ⟨fun hnull ↦ absurd hnull hthere, ?_⟩
    rcases hv with rfl | hv
    · cases u <;> nofun
    · obtain ⟨y, hy⟩ := Value.exists_place?_of_kind hk hv
      rw [hx, hy] at h
      rw [Value.order?_of_place? (hu.trans hv.symm) hx hy, Ne, Option.some_inj]
      cases ascending with
      | true => exact compare_le_iff_le.mpr (of_decide_eq_true h)
      | false => exact compare_ge_iff_ge.mpr (of_decide_eq_true h)

theorem sortBy?_eq {t : Table} {column : String} (hi : t.columnIndex? column = some i)
    (ascending : Bool) :
    t.sortBy? column ascending = some { t with rows := sortRows i ascending t.rows } := by
  rw [sortBy?, hi, Option.map_some]

/-- **Sorting.** Sorting by a column that a table does not have is refused and leaves the table as
it is. Sorting by a column of whole numbers or of texts permutes the rows. Those without a value
come last, the values of the others go up or down, and rows with the same cell stay in their order,
in both directions and also if the cell is missing. -/
theorem sortBy?_sorts_stably (t : Table) (column : String) (ascending : Bool) :
    (column ∉ t.columns → t.sortBy? column ascending = none ∧
      (Operation.sort column ascending).apply t = t) ∧
    (column ∈ t.columns → t.Uniform column → ∃ sorted,
      t.sortBy? column ascending = some sorted ∧
      (Operation.sort column ascending).apply t = sorted ∧
      sorted.columns = t.columns ∧ sorted.rows.Perm t.rows ∧
      sorted.SortedBy column ascending ∧
      ∀ v, sorted.rows.filter (t.cellUnder column · = v)
        = t.rows.filter (t.cellUnder column · = v)) := by
  refine ⟨fun hcolumn ↦ ?_, fun hcolumn huniform ↦ ?_⟩
  · have hnone : t.sortBy? column ascending = none := by
      rw [sortBy?, columnIndex?_eq_none_iff.mpr hcolumn, Option.map_none]
    exact ⟨hnone, congrArg (Option.getD · t) hnone⟩
  · obtain ⟨i, hi⟩ := exists_columnIndex?_of_mem hcolumn
    obtain ⟨k, hk, hcells⟩ := huniform
    have hsome := sortBy?_eq hi ascending
    have hunder (row : List Value) : t.cellUnder column row = cellAt i row :=
      cellUnder_eq_cellAt hi row
    simp only [hunder] at hcells ⊢
    have hperm : (sortRows i ascending t.rows).Perm t.rows := List.mergeSort_perm _ _
    have hsorted := sortRows_eq_mergeSort hk hcells ascending
    refine ⟨_, hsome, congrArg (Option.getD · t) hsome, rfl, hperm, ?_, fun v ↦ ?_⟩
    · have hpairs : (sortRows i ascending t.rows).Pairwise fun r s ↦
          (cellAt i r = .null → cellAt i s = .null) ∧
            (cellAt i r).order? (cellAt i s) ≠ some (if ascending then .gt else .lt) := by
        have hkeys := Ranking.pairwise_mergeSort ascending true
          (fun row ↦ (cellAt i row).place?) t.rows
        rw [← hsorted] at hkeys
        exact hkeys.imp_of_mem fun {r s} hr hs h ↦
          ordered_of_keyLE hk (hcells r (hperm.subset hr)) (hcells s (hperm.subset hs)) h
      have hunder' (row : List Value) :
          cellUnder { t with rows := sortRows i ascending t.rows } column row = cellAt i row :=
        hunder row
      constructor
      · simp only [hunder']
        exact hpairs.imp fun h ↦ h.1
      · simp only [hunder']
        exact hpairs.imp fun h ↦ h.2
    · dsimp only
      rw [hsorted]
      have hkey (r s : List Value) (hr : decide (cellAt i r = v) = true)
          (hs : decide (cellAt i s = v) = true) : (cellAt i r).place? = (cellAt i s).place? := by
        rw [of_decide_eq_true hr, of_decide_eq_true hs]
      exact Ranking.filter_mergeSort hkey ascending true t.rows

/-- Words with two counts that come twice and two that are missing. -/
def talliedWords : Table where
  columns := ["form", "frequency"]
  rows := [[.text "sana", .int 5], [.text "ja", .null], [.text "talo", .int 90],
    [.text "kuu", .int 5], [.text "on", .int 90], [.text "ei", .null]]

/-- Equal counts keep their order in descending order too. -/
theorem sortBy?_sorts_stably_talliedWords :
    "frequency" ∈ talliedWords.columns ∧ talliedWords.Uniform "frequency" ∧
      ∃ sorted, talliedWords.sortBy? "frequency" false = some sorted ∧
        sorted.rows = [[.text "talo", .int 90], [.text "on", .int 90], [.text "sana", .int 5],
          [.text "kuu", .int 5], [.text "ja", .null], [.text "ei", .null]] ∧
        sorted.rows.Perm talliedWords.rows ∧ sorted.SortedBy "frequency" false ∧
        sorted.rows.filter (talliedWords.cellUnder "frequency" · = .int 90)
          = [[.text "talo", .int 90], [.text "on", .int 90]] ∧
        sorted.rows.filter (talliedWords.cellUnder "frequency" · = .null)
          = [[.text "ja", .null], [.text "ei", .null]] := by
  have hcolumn : "frequency" ∈ talliedWords.columns := by decide
  have huniform : talliedWords.Uniform "frequency" := by
    refine ⟨.int, .inl rfl, ?_⟩
    unfold Value.FitsKind
    decide
  obtain ⟨sorted, hsorted, -, -, hperm, horder, hstable⟩ :=
    (sortBy?_sorts_stably talliedWords "frequency" false).2 hcolumn huniform
  have hrows : (talliedWords.sortBy? "frequency" false).map (·.rows)
      = some [[.text "talo", .int 90], [.text "on", .int 90], [.text "sana", .int 5],
        [.text "kuu", .int 5], [.text "ja", .null], [.text "ei", .null]] := by cbv
  rw [hsorted, Option.map_some] at hrows
  exact ⟨hcolumn, huniform, sorted, hsorted, Option.some.inj hrows, hperm, horder,
    (hstable _).trans (by decide), (hstable _).trans (by decide)⟩

end Table

end CorpusQuery

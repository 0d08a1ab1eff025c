import CorpusQuery.Proofs.Sql.StoredNumber
import CorpusQuery.Proofs.Table.Sorting

/-!
# Sorting by a column whose cells compare consistently

Cells that do not compare count as equal, so a comparison of rows need not be an order: next to
content that is not a number, or with numbers and texts in one column, of three rows in order the
first and the last may be the wrong way round. A sort gives no result that means anything then, and
may give none at all. Where the comparison is an order, sorting does what it is for.

Only the rows that are sorted have to be in order, while a sort is described for orders of all rows.
So it is followed on rows that come with their membership.

## Main statements

* `Table.sortRows_stablySorted`: a sort by cells that compare consistently.
* `Table.Consistent.of_fitsKind`: cells of one kind do, unless one of them is NaN.
-/

namespace CorpusQuery

namespace Number

theorem order_swap (x y : Float) : (order x y).map Ordering.swap = order y x := by
  rw [order_eq, order_eq]
  cases value? x with
  | none => cases value? y <;> rfl
  | some a =>
    cases value? y with
    | none => rfl
    | some b => exact congrArg some Std.OrientedOrd.eq_swap.symm

end Number

theorem Value.order?_swap (a b : Value) : (a.order? b).map Ordering.swap = b.order? a := by
  cases a with
  | int n =>
    cases b with
    | int m => exact congrArg some Std.OrientedOrd.eq_swap.symm
    | real y => exact Number.order_swap _ _
    | text | null => rfl
  | real x =>
    cases b with
    | int m => exact Number.order_swap _ _
    | real y => exact Number.order_swap _ _
    | text | null => rfl
  | text s =>
    cases b with
    | text t => exact congrArg some Std.OrientedOrd.eq_swap.symm
    | int | real | null => rfl
  | null => cases b <;> rfl

theorem Value.isNull_eq_isNone_size? {v : Value} (hv : v.FitsKind .real)
    (hnumber : ∀ x, v = .real x → x.isNaN = false) : v.isNull = v.size?.isNone := by
  rcases hv with rfl | hv
  · rfl
  · cases v with
    | real x =>
      have hvalue : Number.value? x ≠ none := by
        rw [Ne, ← Number.isNaN_iff, hnumber x rfl]
        exact Bool.false_ne_true
      rw [size?, Option.isNone_eq_false_iff.mpr (Option.isSome_iff_ne_none.mpr hvalue)]
      rfl
    | int | text | null => cases hv

theorem Value.FitsKind.kind_eq {v : Value} {k : Kind} (hv : v.FitsKind k)
    {a : WithBot (WithTop ℤ)} (ha : v.size? = some a) : v.kind = k := by
  refine hv.resolve_left ?_
  rintro rfl
  cases ha

namespace Table

theorem cellOrder_swap (ascending : Bool) (a b : Value) :
    (cellOrder ascending a b).swap = cellOrder ascending b a := by
  rw [cellOrder, cellOrder, ← Value.order?_swap a b]
  cases a.isNull <;> cases b.isNull <;> try rfl
  cases a.order? b with
  | none => cases ascending <;> rfl
  | some o => cases ascending <;> cases o <;> rfl

theorem cellOrder_total (ascending : Bool) (a b : Value) :
    (cellOrder ascending a b != .gt || cellOrder ascending b a != .gt) = true := by
  rw [← cellOrder_swap ascending a b]
  cases cellOrder ascending a b <;> rfl

/-- Rows compare consistently by the cells at a position: of three rows in order the first and the
last are in order as well. -/
def Consistent (ascending : Bool) (i : ℕ) (rows : List (List Value)) : Prop :=
  ∀ r ∈ rows, ∀ s ∈ rows, ∀ u ∈ rows,
    cellOrder ascending (cellAt i r) (cellAt i s) ≠ .gt →
    cellOrder ascending (cellAt i s) (cellAt i u) ≠ .gt →
      cellOrder ascending (cellAt i r) (cellAt i u) ≠ .gt

instance (ascending : Bool) (i : ℕ) (rows : List (List Value)) :
    Decidable (Consistent ascending i rows) :=
  inferInstanceAs (Decidable (∀ r ∈ rows, ∀ s ∈ rows, ∀ u ∈ rows, _ → _ → _))

/-- The rows in order, where those that are in order already keep theirs. -/
structure StablySorted (ascending : Bool) (i : ℕ) (rows sorted : List (List Value)) : Prop where
  perm : sorted.Perm rows
  ordered : sorted.Pairwise fun r s ↦ cellOrder ascending (cellAt i r) (cellAt i s) ≠ .gt
  stable : ∀ r s, cellOrder ascending (cellAt i r) (cellAt i s) ≠ .gt →
    [r, s].Sublist rows → [r, s].Sublist sorted

variable {ascending : Bool} {i : ℕ} {rows : List (List Value)}

theorem Consistent.of_keys {κ : Type} [LinearOrder κ] (key : Value → Option κ)
    (h : ∀ r ∈ rows, ∀ s ∈ rows, (cellOrder ascending (cellAt i r) (cellAt i s) != .gt)
      = Ranking.keyLE ascending true (key (cellAt i r)) (key (cellAt i s))) :
    Consistent ascending i rows := by
  intro r hr s hs u hu hrs hsu
  rw [← bne_iff_ne, h r hr s hs] at hrs
  rw [← bne_iff_ne, h s hs u hu] at hsu
  rw [← bne_iff_ne, h r hr u hu]
  exact Ranking.keyLE_trans _ _ _ hrs hsu

/-- Cells of one kind, some of them missing and none of them NaN, compare consistently. -/
theorem Consistent.of_fitsKind {k : Kind} (hcells : ∀ row ∈ rows, (cellAt i row).FitsKind k)
    (hnumbers : ∀ row ∈ rows, ∀ x, cellAt i row = .real x → x.isNaN = false) :
    Consistent ascending i rows := by
  cases k with
  | int => exact .of_keys Value.place? fun r hr s hs ↦
      cellOrder_eq_keyLE_place (.inl rfl) (hcells r hr) (hcells s hs) _
  | text => exact .of_keys Value.place? fun r hr s hs ↦
      cellOrder_eq_keyLE_place (.inr rfl) (hcells r hr) (hcells s hs) _
  | real =>
    refine .of_keys Value.size? fun r hr s hs ↦ cellOrder_eq_keyLE ?_ ?_ (fun x y hx hy ↦ ?_) _
    · exact Value.isNull_eq_isNone_size? (hcells r hr) (hnumbers r hr)
    · exact Value.isNull_eq_isNone_size? (hcells s hs) (hnumbers s hs)
    · have hkind := ((hcells r hr).kind_eq hx).trans ((hcells s hs).kind_eq hy).symm
      exact Value.order?_of_kind_eq hkind hx hy
  | null =>
    -- Cells that are all missing fit the other kinds as well.
    have hmissing {row : List Value} (hrow : row ∈ rows) : (cellAt i row).FitsKind .int := by
      refine .inl ((hcells row hrow).elim id fun hkind ↦ ?_)
      cases hcell : cellAt i row <;> rw [hcell] at hkind <;> first | rfl | cases hkind
    exact .of_keys Value.place? fun r hr s hs ↦
      cellOrder_eq_keyLE_place (.inl rfl) (hmissing hr) (hmissing hs) _

/-- **Sorting.** Rows that compare consistently are sorted stably. -/
theorem sortRows_stablySorted (h : Consistent ascending i rows) :
    StablySorted ascending i rows (sortRows i ascending rows) := by
  set le : {row // row ∈ rows} → {row // row ∈ rows} → Bool := fun r s ↦
    cellOrder ascending (cellAt i r.1) (cellAt i s.1) != .gt
  have htrans (r s u : {row // row ∈ rows}) (hrs : le r s = true) (hsu : le s u = true) :
      le r u = true :=
    bne_iff_ne.mpr (h r r.2 s s.2 u u.2 (bne_iff_ne.mp hrs) (bne_iff_ne.mp hsu))
  have htotal (r s : {row // row ∈ rows}) : (le r s || le s r) = true := cellOrder_total _ _ _
  have hsorted : (rows.attach.mergeSort le).map Subtype.val
      = (rows.attach.map Subtype.val).mergeSort fun r s ↦
        cellOrder ascending (cellAt i r) (cellAt i s) != .gt :=
    List.map_mergeSort fun _ _ _ _ ↦ rfl
  rw [List.attach_map_subtype_val, ← sortRows] at hsorted
  rw [← hsorted]
  constructor
  case perm =>
    have hperm := (List.mergeSort_perm rows.attach le).map Subtype.val
    rwa [List.attach_map_subtype_val] at hperm
  case ordered =>
    rw [List.pairwise_map]
    exact (List.pairwise_mergeSort htrans htotal rows.attach).imp bne_iff_ne.mp
  case stable =>
    intro r s hrs hsublist
    have hr : r ∈ rows := hsublist.subset (by simp)
    have hs : s ∈ rows := hsublist.subset (by simp)
    rw [← List.attach_map_subtype_val rows, List.sublist_map_iff] at hsublist
    obtain ⟨pair, hpair, hmap⟩ := hsublist
    obtain ⟨a, rest, rfl, rfl, hrest⟩ := List.map_eq_cons_iff.mp hmap.symm
    obtain ⟨b, rest, rfl, rfl, hnil⟩ := List.map_eq_cons_iff.mp hrest
    obtain rfl := List.map_eq_nil_iff.mp hnil
    exact (List.pair_sublist_mergeSort htrans htotal (bne_iff_ne.mpr hrs) hpair).map Subtype.val

end Table

end CorpusQuery

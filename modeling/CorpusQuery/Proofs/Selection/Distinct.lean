import CorpusQuery.Database.Selection

/-!
# Dropping copies

Rows that come from one row of the facts table are copies of each other. Dropping rows that are
alike undoes the copying and nothing else, as long as rows that are no copies are not alike. For
that a row has to be alike to itself, whatever it holds: two missing data count as alike here, and
so does a real number that is no number, if one were stored.
-/

namespace CorpusQuery

/-! ## Alikeness -/

theorem Number.not_lt_self (x : Float) : ¬x < x := by
  have hunpacked : ∀ u : Float.Model.UnpackedFloat, u.lt u = false := by
    intro u
    cases u with
    | infinity sign => cases sign <;> rfl
    | notANumber => rfl
    | zero sign => rfl
    | finite sign m e hm =>
      have hself : (compare e e).then (compare m m) = .eq := by
        have hexponent : compare e e = .eq := Std.ReflCmp.compare_self
        have hmantissa : compare m m = .eq := Std.ReflCmp.compare_self
        rw [hexponent, hmantissa]
        rfl
      cases sign with
      | positive => exact congrArg (fun o ↦ some o == some Ordering.lt) hself
      | negative => exact congrArg (fun o ↦ some o.swap == some Ordering.lt) hself
  intro h
  have hlt : x.toModel.unpack.lt x.toModel.unpack = true := of_decide_eq_true h
  rw [hunpacked] at hlt
  cases hlt

theorem Number.order_self (x : Float) : (Number.order x x).getD .eq = .eq := by
  rw [order, if_neg (not_lt_self x), if_neg (not_lt_self x)]
  split <;> rfl

theorem Sql.Datum.order_self (d : Datum) : d.order d = .eq := by
  cases d with
  | null => rfl
  | int n =>
    rw [order]
    exact Std.ReflCmp.compare_self
  | real x => exact Number.order_self x
  | text s =>
    rw [order]
    exact Std.ReflCmp.compare_self
  | bytes bs =>
    rw [order]
    exact Std.ReflCmp.compare_self

namespace Database

open Sql (Datum)

theorem alike_self (row : List Datum) : alike row row = true := by
  induction row with
  | nil => rfl
  | cons d row ih =>
    rw [alike, Datum.order_self, ih]
    rfl

theorem alike_map_iff {α : Type} (f g : α → Datum) (xs : List α) :
    alike (xs.map f) (xs.map g) = true ↔ ∀ x ∈ xs, (f x).order (g x) = .eq := by
  induction xs with
  | nil => exact iff_of_true rfl fun _ h ↦ absurd h List.not_mem_nil
  | cons x xs ih =>
    rw [List.map_cons, List.map_cons, alike, Bool.and_eq_true, beq_iff_eq, ih,
      List.forall_mem_cons]

/-! ## Copies -/

theorem mem_of_mem_distinctRows {rows : List OutputRow} {r : OutputRow}
    (h : r ∈ distinctRows rows) : r ∈ rows := by
  induction rows with
  | nil => cases h
  | cons first rows ih =>
    rcases List.mem_cons.mp h with rfl | h
    · exact List.mem_cons_self
    · exact List.mem_cons_of_mem _ (ih (List.mem_filter.mp h).1)

/-- A row before its copies stands for all of them. -/
theorem distinctRows_copies_append {β : Type} (copies : List β) (row : OutputRow)
    (rest : List OutputRow) (hrest : ∀ later ∈ rest, alike row.cells later.cells = false) :
    distinctRows ((copies.map fun _ ↦ row) ++ rest)
      = if copies.isEmpty then distinctRows rest else row :: distinctRows rest := by
  have hsub : ∀ later ∈ distinctRows rest, alike row.cells later.cells = false :=
    fun later h ↦ hrest later (mem_of_mem_distinctRows h)
  have hkeep : (distinctRows rest).filter (fun later ↦ !alike row.cells later.cells)
      = distinctRows rest :=
    List.filter_eq_self.mpr fun later h ↦ by rw [hsub later h]; rfl
  induction copies with
  | nil => rfl
  | cons copy copies ih =>
    rw [List.map_cons, List.cons_append, distinctRows, ih]
    -- Of the other copies one is left, and this one is dropped for the copy in front.
    cases copies with
    | nil =>
      rw [List.isEmpty_nil, if_pos rfl, hkeep]
      rfl
    | cons next copies =>
      rw [List.isEmpty_cons, if_neg Bool.false_ne_true, List.filter_cons, alike_self, hkeep]
      rfl

/-- **Dropping copies.** Each row is left once if it is there at all. -/
theorem distinctRows_flatMap_copies {α β : Type} (copies : α → List β) (row : α → OutputRow)
    (xs : List α) (h : (xs.filter fun x ↦ !(copies x).isEmpty).Pairwise fun x y ↦
      alike (row x).cells (row y).cells = false) :
    distinctRows (xs.flatMap fun x ↦ (copies x).map fun _ ↦ row x)
      = (xs.filter fun x ↦ !(copies x).isEmpty).map row := by
  induction xs with
  | nil => rfl
  | cons x xs ih =>
    rw [List.filter_cons] at h ⊢
    cases hcopies : (copies x).isEmpty with
    | true =>
      rw [hcopies] at h
      rw [List.flatMap_cons, List.isEmpty_iff.mp hcopies]
      exact ih h
    | false =>
      rw [hcopies] at h
      obtain ⟨hx, hxs⟩ := List.pairwise_cons.mp h
      have hrest : ∀ later ∈ xs.flatMap (fun y ↦ (copies y).map fun _ ↦ row y),
          alike (row x).cells later.cells = false := by
        intro later hlater
        obtain ⟨y, hy, hlater⟩ := List.mem_flatMap.mp hlater
        obtain ⟨copy, hcopy, rfl⟩ := List.mem_map.mp hlater
        have hthere : (copies y).isEmpty = false :=
          List.isEmpty_eq_false_iff.mpr (List.ne_nil_of_mem hcopy)
        exact hx y (List.mem_filter.mpr ⟨hy, by rw [hthere]; rfl⟩)
      rw [List.flatMap_cons, distinctRows_copies_append (copies x) (row x) _ hrest, ih hxs,
        hcopies]
      rfl

end Database

end CorpusQuery

import CorpusQuery.Proofs.Number.Bits
import CorpusQuery.Table.Distinct

/-!
# How many rows have different keys

Keeping the last row of every key leaves as many rows as there are keys. Keys are told apart by a
relation that need not be reflexive: a key with content that is not a number is the same as no key,
not even as itself, and so it counts each time. All that counting needs is that the relation is
symmetric and transitive.

## Main statements

* `classCount_cons`: the count is found by looking for a later value of the same class, as the table
  does, although it is defined by looking for an earlier one.
* `Table.length_lastOfEach`: how many rows are left.
-/

namespace CorpusQuery

/-! ## Counting classes -/

section Classes

variable {α : Type} {r : α → α → Bool}

/-- The number of values that are different from all values before them. -/
def classCount (r : α → α → Bool) (xs : List α) : ℕ := (xs.eraseDupsBy r).length

theorem classCount_cons_filter (x : α) (xs : List α) :
    classCount r (x :: xs) = classCount r (xs.filter fun y ↦ r y x = false) + 1 := by
  rw [classCount, List.eraseDupsBy_cons, List.length_cons, classCount]

theorem classCount_le_append (xs ys : List α) : classCount r xs ≤ classCount r (xs ++ ys) := by
  induction hn : xs.length using Nat.strong_induction_on generalizing xs ys with
  | h n ih =>
    cases xs with
    | nil => exact Nat.zero_le _
    | cons x xs =>
      have hlt : (xs.filter fun y ↦ r y x = false).length < n := by
        rw [← hn, List.length_cons]
        exact Nat.lt_succ_of_le (List.length_filter_le _ _)
      rw [List.cons_append, classCount_cons_filter, classCount_cons_filter, List.filter_append]
      exact Nat.succ_le_succ (ih _ hlt _ _ rfl)

theorem classCount_take_le (n : ℕ) (xs : List α) : classCount r (xs.take n) ≤ classCount r xs := by
  have happend := classCount_le_append (r := r) (xs.take n) (xs.drop n)
  rwa [List.take_append_drop] at happend

variable (hsymm : ∀ a b, r a b = r b a)
  (htrans : ∀ a b c, r a b = true → r b c = true → r a c = true)

include hsymm htrans

theorem classCount_eq_filter (a : α) (xs : List α) :
    classCount r xs
      = classCount r (xs.filter fun y ↦ r y a = false) + if xs.any (r a) then 1 else 0 := by
  induction hn : xs.length using Nat.strong_induction_on generalizing xs with
  | h n ih =>
    cases xs with
    | nil => rfl
    | cons b xs =>
      rw [classCount_cons_filter, List.any_cons]
      by_cases hab : r a b = true
      · -- The first value is of this class, so its class is the one that is left out.
        have hba : r b a = true := hsymm a b ▸ hab
        have hclass (c : α) : r c b = r c a := by
          rw [Bool.eq_iff_iff]
          exact ⟨fun h ↦ htrans c b a h hba, fun h ↦ htrans c a b h hab⟩
        rw [List.filter_cons_of_neg (by simp [hba]), hab, Bool.true_or, if_pos rfl]
        simp only [hclass]
      · have hba : r b a = false := by
          rw [← hsymm]
          simpa using hab
        have hlt : (xs.filter fun y ↦ r y b = false).length < n := by
          rw [← hn, List.length_cons]
          exact Nat.lt_succ_of_le (List.length_filter_le _ _)
        have hany : (xs.filter fun y ↦ r y b = false).any (r a) = xs.any (r a) := by
          rw [List.any_filter]
          congr 1
          funext c
          by_cases hac : r a c = true
          · have hcb : r c b = false := by
              rw [Bool.eq_false_iff]
              exact fun h ↦ hab (htrans a c b hac h)
            simp [hac, hcb]
          · simp [hac]
        rw [List.filter_cons_of_pos (by simp [hba]), classCount_cons_filter, ih _ hlt _ rfl, hany,
          List.filter_filter, List.filter_filter, Bool.eq_false_iff.mpr hab, Bool.false_or]
        simp only [Bool.and_comm]
        omega

/-- **Counting from behind.** A value counts unless a later one is of its class. -/
theorem classCount_cons (x : α) (xs : List α) :
    classCount r (x :: xs) = classCount r xs + if xs.any (r x) then 0 else 1 := by
  rw [classCount_cons_filter, classCount_eq_filter hsymm htrans x xs]
  split <;> rfl

/-- Where no class has more than `m` values, values are at most `m` times as many as classes. -/
theorem length_le_mul_classCount {m : ℕ} (hm : 0 < m) {xs : List α}
    (h : ∀ a ∈ xs, xs.countP (r a) ≤ m) : xs.length ≤ m * classCount r xs := by
  induction hn : xs.length using Nat.strong_induction_on generalizing xs with
  | h n ih =>
    subst hn
    cases xs with
    | nil => exact Nat.zero_le _
    | cons x xs =>
      have hfew : ∀ a ∈ xs.filter fun y ↦ r y x = false,
          (xs.filter fun y ↦ r y x = false).countP (r a) ≤ m := by
        intro a ha
        have hsub : (xs.filter fun y ↦ r y x = false).Sublist (x :: xs) :=
          List.filter_sublist.cons x
        exact le_trans hsub.countP_le (h a (hsub.subset ha))
      have hrest := ih _ (Nat.lt_succ_of_le (List.length_filter_le _ xs)) hfew rfl
      -- The values that are left out are those of the first class.
      have hsplit : xs.length
          = xs.countP (r x) + (xs.filter fun y ↦ r y x = false).length := by
        rw [List.length_eq_countP_add_countP (r x), List.countP_eq_length_filter,
          List.countP_eq_length_filter]
        simp only [hsymm x, Bool.not_eq_true]
      have hfirst : xs.countP (r x) + 1 ≤ m := by
        by_cases hself : r x x = true
        · have hcount := h x List.mem_cons_self
          rwa [List.countP_cons_of_pos hself] at hcount
        · have hnone : xs.countP (r x) = 0 := by
            rw [List.countP_eq_zero]
            intro y _ hxy
            exact hself (htrans x y x hxy (hsymm x y ▸ hxy))
          omega
      rw [classCount_cons_filter, Nat.mul_add, List.length_cons]
      omega

end Classes

/-! ## Keys -/

namespace Value

/-- Cells that are the same key are identical, and only content that is not a number is no key at
all. -/
theorem sameKey_iff {a b : Value} :
    a.sameKey b = true ↔ a = b ∧ ∀ x, a = .real x → x.isNaN = false := by
  cases a with
  | real x =>
    cases b with
    | real y =>
      rw [sameKey, Number.beq_and_toBits_iff, Value.real.injEq]
      refine and_congr_right fun _ ↦ ⟨fun h z hz ↦ Value.real.inj hz ▸ h, fun h ↦ h x rfl⟩
    | int | text | null => simp [sameKey, same]
  | int | text | null => cases b <;> simp [sameKey, same]

theorem sameKey_comm (a b : Value) : a.sameKey b = b.sameKey a := by
  rw [Bool.eq_iff_iff, sameKey_iff, sameKey_iff]
  constructor
  · rintro ⟨rfl, h⟩
    exact ⟨rfl, h⟩
  · rintro ⟨rfl, h⟩
    exact ⟨rfl, h⟩

theorem sameKey_trans {a b c : Value} (hab : a.sameKey b = true) (hbc : b.sameKey c = true) :
    a.sameKey c = true := by
  obtain ⟨rfl, -⟩ := sameKey_iff.mp hab
  exact hbc

/-- **Equal content.** Cells with equal content are the same key unless they are the two zeros. -/
theorem same_iff_sameKey_or_zeros {a b : Value} :
    a.same b = true
      ↔ a.sameKey b = true ∨ a = .real 0 ∧ b = .real (-0) ∨ a = .real (-0) ∧ b = .real 0 := by
  cases a with
  | real x =>
    cases b with
    | real y =>
      rw [same, sameKey, Number.beq_and_toBits_iff, Number.beq_iff_eq_or_zeros]
      simp only [Value.real.injEq]
    | int | text | null => simp [sameKey, same]
  | int | text | null => cases b <;> simp [sameKey, same]

end Value

namespace Table

theorem sameKey_comm : ∀ as bs : List Value, sameKey as bs = sameKey bs as
  | [], [] | [], _ :: _ | _ :: _, [] => rfl
  | a :: as, b :: bs => by rw [sameKey, sameKey, Value.sameKey_comm, sameKey_comm as bs]

theorem sameKey_trans : ∀ {as bs cs : List Value}, sameKey as bs = true → sameKey bs cs = true →
    sameKey as cs = true
  | [], [], _, _, hbc => hbc
  | a :: as, b :: bs, c :: cs, hab, hbc => by
    rw [sameKey, Bool.and_eq_true] at hab hbc ⊢
    exact ⟨Value.sameKey_trans hab.1 hbc.1, sameKey_trans hab.2 hbc.2⟩

/-- **Rows that are left.** As many rows are left as there are keys. -/
theorem length_lastOfEach (positions : List ℕ) (rows : List (List Value)) :
    (lastOfEach positions rows).length = classCount sameKey (rows.map (keyAt positions)) := by
  induction rows with
  | nil => rfl
  | cons row rows ih =>
    rw [lastOfEach, List.map_cons, classCount_cons sameKey_comm fun _ _ _ ↦ sameKey_trans, ← ih,
      List.any_map]
    by_cases h : (rows.any (sameKey (keyAt positions row) ∘ keyAt positions)) = true
    · have hlater : (rows.any fun later ↦
          sameKey (keyAt positions row) (keyAt positions later)) = true := h
      rw [if_pos h, if_pos hlater]
      rfl
    · have hlater : ¬(rows.any fun later ↦
          sameKey (keyAt positions row) (keyAt positions later)) = true := h
      rw [if_neg h, if_neg hlater]
      rfl

end Table

end CorpusQuery

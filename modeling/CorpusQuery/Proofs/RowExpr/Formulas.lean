import CorpusQuery.Proofs.RowExpr.Connectives

/-!
# Formulas over tests

A formula connects tests by conjunction, disjunction and negation, as deep as it likes. Its strong
Kleene value is computed from the truths of the tests on a scale on which the unknown stands between
false and true: a conjunction takes the lowest place among its parts, a disjunction the highest, and
a negation turns the scale around.

Evaluation goes from left to right and stops early, so it may never get to a test that would fail.
It stops only at an operand that decides alone, that is, at an end of the scale, and there nothing
that is said of the other operand can move the value away. So a truth that is found in spite of
failing tests is the Kleene value whatever these tests are taken to say. An error is never made up:
it is the one of the test where evaluation stopped.

## Main statements

* `Formula.rank_eq_kleene`: truths that are found.
* `Formula.exists_of_truth_eq_error`: errors.
* `formula_takes_kleene_value`: both.
-/

namespace CorpusQuery

/-! ## The scale of truths -/

namespace Truth

/-- The place of a truth on the scale from false over unknown to true. -/
def rank : Truth → Nat
  | some false => 0
  | none => 1
  | some true => 2

theorem rank_and (s t : Truth) : (s.and t).rank = min s.rank t.rank := by
  rcases s with _ | _ | _ <;> rcases t with _ | _ | _ <;> rfl

theorem rank_or (s t : Truth) : (s.or t).rank = max s.rank t.rank := by
  rcases s with _ | _ | _ <;> rcases t with _ | _ | _ <;> rfl

theorem rank_not (t : Truth) : t.not.rank = 2 - t.rank := by
  rcases t with _ | _ | _ <;> rfl

theorem rank_le_two (t : Truth) : t.rank ≤ 2 := by
  rcases t with _ | _ | _ <;> decide

end Truth

/-! ## Formulas -/

/-- Connectives over tests that are named by `α`. A test may stand under several names, so a formula
over its places says of every place which test stands there. -/
inductive Formula (α : Type) where
  | test (a : α)
  | and (left right : Formula α)
  | or (left right : Formula α)
  | not (f : Formula α)

namespace Formula

variable {α : Type}

/-- The names of the tests from left to right. -/
def names : Formula α → List α
  | test a => [a]
  | and l r | or l r => l.names ++ r.names
  | not f => f.names

/-- The expression that the formula is for given tests. -/
def expr (tests : α → RowExpr) : Formula α → RowExpr
  | test a => tests a
  | and l r => .and (l.expr tests) (r.expr tests)
  | or l r => .or (l.expr tests) (r.expr tests)
  | not f => .not (f.expr tests)

/-- The strong Kleene value for given truths of the tests, as a place on the scale. -/
def kleene (value : α → Truth) : Formula α → Nat
  | test a => (value a).rank
  | and l r => min (l.kleene value) (r.kleene value)
  | or l r => max (l.kleene value) (r.kleene value)
  | not f => 2 - f.kleene value

theorem kleene_le_two (value : α → Truth) (f : Formula α) : f.kleene value ≤ 2 := by
  induction f with
  | test a => exact Truth.rank_le_two _
  | and l r ihl ihr => exact Nat.le_trans (Nat.min_le_left _ _) ihl
  | or l r ihl ihr => exact Nat.max_le.mpr ⟨ihl, ihr⟩
  | not f ih => exact Nat.sub_le _ _

end Formula

/-! ## One connective -/

namespace RowExpr

variable {decisive : Truth} {op : Truth → Truth → Truth}
  {left right : Except RowError Truth} {t : Truth} {err : RowError}

theorem eq_of_connect_eq_ok (h : connect decisive op left right = .ok t) :
    left = .ok decisive ∧ t = decisive ∨ ∃ s u, left = .ok s ∧ right = .ok u ∧ t = op s u := by
  cases left with
  | error err => cases h
  | ok s =>
    change (if s = decisive then .ok decisive else right.map (op s)) = Except.ok t at h
    split at h
    · next hs => exact .inl ⟨congrArg Except.ok hs, (Except.ok.inj h).symm⟩
    · cases right with
      | error err => cases h
      | ok u => exact .inr ⟨s, u, rfl, rfl, (Except.ok.inj h).symm⟩

theorem eq_of_connect_eq_error (h : connect decisive op left right = .error err) :
    left = .error err ∨ right = .error err := by
  cases left with
  | error err' => exact .inl h
  | ok s =>
    change (if s = decisive then .ok decisive else right.map (op s)) = Except.error err at h
    split at h
    · cases h
    · cases right with
      | error err' => exact .inr h
      | ok u => cases h

end RowExpr

/-! ## Whole formulas -/

namespace Formula

variable {α : Type} {tests : α → RowExpr} {row : Row} {f : Formula α} {value : α → Truth}
  {t : Truth} {err : RowError}

/-- A truth that is found is the Kleene value for all truths of the tests that the tests found do
not contradict. -/
theorem rank_eq_kleene (h : (f.expr tests).truth row = .ok t)
    (hvalue : ∀ a ∈ f.names, ∀ s, (tests a).truth row = .ok s → value a = s) :
    t.rank = f.kleene value := by
  induction f generalizing t with
  | test a =>
    have ha : value a = t := hvalue a (List.mem_singleton_self a) t h
    rw [kleene, ha]
  | and l r ihl ihr =>
    obtain ⟨hl, hr⟩ := List.forall_mem_append.mp hvalue
    rw [expr, RowExpr.truth_and_eq] at h
    rw [kleene]
    rcases RowExpr.eq_of_connect_eq_ok h with ⟨hleft, rfl⟩ | ⟨s, u, hleft, hright, rfl⟩
    · -- False is the lowest place, whatever the right side would have been.
      rw [← ihl hleft hl]
      exact (Nat.zero_min _).symm
    · rw [Truth.rank_and, ihl hleft hl, ihr hright hr]
  | or l r ihl ihr =>
    obtain ⟨hl, hr⟩ := List.forall_mem_append.mp hvalue
    rw [expr, RowExpr.truth_or_eq] at h
    rw [kleene]
    rcases RowExpr.eq_of_connect_eq_ok h with ⟨hleft, rfl⟩ | ⟨s, u, hleft, hright, rfl⟩
    · rw [← ihl hleft hl]
      exact (Nat.max_eq_left (kleene_le_two value r)).symm
    · rw [Truth.rank_or, ihl hleft hl, ihr hright hr]
  | not f ih =>
    rw [expr, RowExpr.truth_not_eq] at h
    cases hf : (f.expr tests).truth row with
    | error err =>
      rw [hf] at h
      cases h
    | ok s =>
      rw [hf] at h
      obtain rfl : s.not = t := Except.ok.inj h
      rw [kleene, Truth.rank_not, ih hf hvalue]

theorem exists_of_truth_eq_error (h : (f.expr tests).truth row = .error err) :
    ∃ a ∈ f.names, (tests a).truth row = .error err := by
  induction f with
  | test a => exact ⟨a, List.mem_singleton_self a, h⟩
  | and l r ihl ihr =>
    rw [expr, RowExpr.truth_and_eq] at h
    simp only [names, List.mem_append, or_and_right, exists_or]
    exact (RowExpr.eq_of_connect_eq_error h).imp ihl ihr
  | or l r ihl ihr =>
    rw [expr, RowExpr.truth_or_eq] at h
    simp only [names, List.mem_append, or_and_right, exists_or]
    exact (RowExpr.eq_of_connect_eq_error h).imp ihl ihr
  | not f ih =>
    rw [expr, RowExpr.truth_not_eq] at h
    cases hf : (f.expr tests).truth row with
    | error err' =>
      rw [hf] at h
      exact ih (hf.trans h)
    | ok s =>
      rw [hf] at h
      cases h

end Formula

/-- **Formulas.** If all tests of a formula have a truth, the formula has their strong Kleene value.
If it has a truth although some tests fail, this is the Kleene value whatever truths are put in for
those that fail. If it fails, it does so with the error of one of its tests. -/
theorem formula_takes_kleene_value {α : Type} (f : Formula α) (tests : α → RowExpr) (row : Row) :
    (∀ value : α → Truth, (∀ a ∈ f.names, (tests a).truth row = .ok (value a)) →
      ∃ t, (f.expr tests).truth row = .ok t ∧ t.rank = f.kleene value) ∧
    (∀ t, (f.expr tests).truth row = .ok t → ∀ value : α → Truth,
      (∀ a ∈ f.names, ∀ s, (tests a).truth row = .ok s → value a = s) →
        t.rank = f.kleene value) ∧
    ∀ err, (f.expr tests).truth row = .error err →
      ∃ a ∈ f.names, (tests a).truth row = .error err := by
  refine ⟨fun value hvalue ↦ ?_, fun t h value hvalue ↦ Formula.rank_eq_kleene h hvalue,
    fun err h ↦ Formula.exists_of_truth_eq_error h⟩
  cases h : (f.expr tests).truth row with
  | error err =>
    obtain ⟨a, ha, herr⟩ := Formula.exists_of_truth_eq_error h
    cases (hvalue a ha).symm.trans herr
  | ok t =>
    refine ⟨t, rfl, Formula.rank_eq_kleene h fun a ha s hs ↦ ?_⟩
    exact Except.ok.inj ((hvalue a ha).symm.trans hs)

/-- Four tests on a word, of which the second asks for a column that is not there and the last takes
a text for a truth. -/
def unevenTests : Nat → RowExpr
  | 0 => .compare (.column "frequency") .greater (.literal (.int 10))
  | 1 => .test (.column "number") .startsWith "s"
  | 2 => .test (.column "clitic") .contains "kin"
  | _ => .column "form"

/-- An error that evaluation does not get to, and one that it does. -/
theorem formula_takes_kleene_value_unevenTests :
    let row := Row.ofCells ["form", "clitic", "frequency"] [.text "on", .null, .int 5]
    let quiet : Formula Nat := .not (.or (.and (.test 0) (.test 1)) (.test 2))
    let loud : Formula Nat := .not (.or (.and (.test 2) (.test 3)) (.test 0))
    (quiet.expr unevenTests).truth row = .ok none ∧
      (∀ s, Truth.rank none
        = quiet.kleene fun | 0 => some false | 1 => s | _ => none) ∧
      (loud.expr unevenTests).truth row = .error (.notBoolean .text) ∧
      ∃ a ∈ loud.names, (unevenTests a).truth row = .error (.notBoolean .text) := by
  intro row quiet loud
  have hquiet : (quiet.expr unevenTests).truth row = .ok none := rfl
  have hloud : (loud.expr unevenTests).truth row = .error (.notBoolean .text) := rfl
  refine ⟨hquiet, fun s ↦ ?_, hloud, (formula_takes_kleene_value loud unevenTests row).2.2 _ hloud⟩
  refine (formula_takes_kleene_value quiet unevenTests row).2.1 none hquiet _ ?_
  intro a ha u hu
  obtain rfl | rfl | rfl : a = 0 ∨ a = 1 ∨ a = 2 := by simpa [quiet, Formula.names] using ha
  · exact Except.ok.inj hu
  · cases hu
  · exact Except.ok.inj hu

end CorpusQuery

import CorpusQuery.Proofs.Number.Whole
import CorpusQuery.Proofs.RowExpr.Sorts

/-!
# When truth is unknown

An unknown truth and its negation both drop a row, so a condition and its negation leave no row out
between them only where the truth is known. Of all that can be asked about a cell nothing is known
if the cell is missing. If it is there, a test on its text is decided and so is membership in a
list, and a comparison is decided unless an undefined number is involved: two values of different
kinds are compared as numbers or as texts, whatever they are.

The connectives add nothing to this. As long as all parts of a condition are about one cell, they
are unknown together, and so is the condition.

## Main statements

* `Value.comparisonTruth_eq_none_iff`: when a comparison is unknown.
* `RowExpr.UnknownIff.any`: alternatives that are unknown together.
-/

namespace CorpusQuery

/-! ## Values -/

theorem Number.order_eq_none_iff {x y : Float} :
    order x y = none ↔ x.isNaN = true ∨ y.isNaN = true := by
  rw [isNaN_iff, isNaN_iff, order_eq]
  cases value? x <;> cases value? y <;> simp

namespace Value

variable {v w : Value}

/-- An undefined number, or a text that reads as one. -/
def ReadsAsNaN (v : Value) : Prop := ∃ x, v.toNumber? = some x ∧ x.isNaN = true

instance : Decidable v.ReadsAsNaN :=
  decidable_of_iff (v.toNumber?.any Float.isNaN = true) (Option.any_eq_true _ _)

theorem isSome_looseOrder? (hv : v ≠ .null) (hw : w ≠ .null) (hnan : ¬v.ReadsAsNaN)
    (hnan' : ¬w.ReadsAsNaN) : (looseOrder? v w).isSome = true := by
  obtain ⟨s, hs⟩ := Option.ne_none_iff_exists'.mp (mt asText?_eq_none.mp hv)
  obtain ⟨t, ht⟩ := Option.ne_none_iff_exists'.mp (mt asText?_eq_none.mp hw)
  rw [looseOrder?]
  split
  · next x y hx hy =>
    rw [Option.isSome_iff_ne_none, Ne, Number.order_eq_none_iff]
    rintro (h | h)
    · exact hnan ⟨x, hx, h⟩
    · exact hnan' ⟨y, hy, h⟩
  · rw [hs, ht]
    rfl

/-- **Comparisons.** A comparison with something is unknown for a missing value only, as long as
both are texts or both are no undefined numbers. -/
theorem comparisonTruth_eq_none_iff (hw : w ≠ .null)
    (h : v ≠ .null → (∃ s t, v = .text s ∧ w = .text t) ∨ ¬v.ReadsAsNaN ∧ ¬w.ReadsAsNaN)
    (op : Comparison) : v.comparisonTruth op w = none ↔ v = .null := by
  constructor
  · intro hnone
    by_contra hv
    have horder : ((v.order? w).orElse fun _ ↦ looseOrder? v w).isSome = true := by
      rcases h hv with ⟨s, t, rfl, rfl⟩ | ⟨hnan, hnan'⟩
      · rfl
      · cases v.order? w with
        | some o => rfl
        | none => exact isSome_looseOrder? hv hw hnan hnan'
    rw [comparisonTruth, if_neg (by simp [hv, hw]), Option.map_eq_none_iff] at hnone
    rw [hnone] at horder
    cases horder
  · rintro rfl
    rfl

theorem memberTruth_eq_none_iff (values : List Value) :
    v.memberTruth values = none ↔ v = .null := by
  rw [memberTruth]
  split
  · next hnull => exact ⟨fun _ ↦ isNull_iff.mp hnull, fun _ ↦ rfl⟩
  · next hnull =>
    refine ⟨fun h ↦ absurd h (Option.some_ne_none _), fun h ↦ absurd (isNull_iff.mpr h) hnull⟩

theorem testTruth_eq_none_iff (kind : TextTest) (pattern : String) :
    v.testTruth kind pattern = none ↔ v = .null := by
  rw [testTruth, Option.map_eq_none_iff, asText?_eq_none]

theorem without_eq_null_iff (c : Char) : v.without c = .null ↔ v = .null := by
  rw [without, ← @asText?_eq_none v]
  cases v.asText? with
  | none => simp
  | some s => simp

end Value

namespace Truth

variable {P : Prop} {s t : Truth}

theorem and_eq_none_iff (hs : s = none ↔ P) (ht : t = none ↔ P) : s.and t = none ↔ P := by
  rw [← hs]
  rcases s with _ | _ | _ <;> rcases t with _ | _ | _ <;> simp_all [and]

theorem or_eq_none_iff (hs : s = none ↔ P) (ht : t = none ↔ P) : s.or t = none ↔ P := by
  rw [← hs]
  rcases s with _ | _ | _ <;> rcases t with _ | _ | _ <;> simp_all [or]

theorem not_eq_none_iff : t.not = none ↔ t = none := by
  rcases t with _ | _ <;> simp [not]

/-- **Truth and its negation.** Exactly one of them holds if the truth is known. -/
theorem holds_not (ht : t ≠ none) : t.not.holds = !t.holds := by
  rcases t with _ | _ | _
  · exact absurd rfl ht
  · rfl
  · rfl

end Truth

/-! ## Expressions -/

namespace RowExpr

variable {row row' : Row} {P : Prop} {l r e : RowExpr}

/-- An expression has a truth on a row, and it is unknown in one case only. -/
def UnknownIff (row : Row) (P : Prop) (e : RowExpr) : Prop :=
  ∃ t, e.truth row = .ok t ∧ (t = none ↔ P)

namespace UnknownIff

theorem and (hl : UnknownIff row P l) (hr : UnknownIff row P r) : UnknownIff row P (.and l r) := by
  obtain ⟨s, hs, hnone⟩ := hl
  obtain ⟨t, ht, hnone'⟩ := hr
  exact ⟨_, truth_and hs ht, Truth.and_eq_none_iff hnone hnone'⟩

theorem or (hl : UnknownIff row P l) (hr : UnknownIff row P r) : UnknownIff row P (.or l r) := by
  obtain ⟨s, hs, hnone⟩ := hl
  obtain ⟨t, ht, hnone'⟩ := hr
  exact ⟨_, truth_or hs ht, Truth.or_eq_none_iff hnone hnone'⟩

theorem not (h : UnknownIff row P e) : UnknownIff row P (.not e) := by
  obtain ⟨t, ht, hnone⟩ := h
  exact ⟨_, truth_not ht, Truth.not_eq_none_iff.trans hnone⟩

/-- **Alternatives.** Alternatives that are unknown together are unknown as a whole. -/
theorem any {α : Type} {test : α → RowExpr} {xs : List α} (he : any? (xs.map test) = some e)
    (h : ∀ x ∈ xs, UnknownIff row P (test x)) : UnknownIff row P e :=
  any?_induction (fun _ _ ↦ or) (List.forall_mem_map.mpr h) he

theorem iff_of_truth {t : Truth} (h : UnknownIff row P e) (ht : e.truth row = .ok t) :
    t = none ↔ P := by
  obtain ⟨t', ht', hnone⟩ := h
  obtain rfl := Except.ok.inj (ht.symm.trans ht')
  exact hnone

end UnknownIff

theorem holds_of_truth {t : Truth} (h : e.truth row = .ok t) : e.holds row = .ok t.holds := by
  rw [holds, h]
  rfl

/-- **What an expression depends on.** Rows with the same cells in the columns that it names give it
the same value. -/
theorem eval_congr (h : ∀ c, e.Names c → row c = row' c) : e.eval row = e.eval row' := by
  induction e with
  | column name => rw [eval, eval, h name rfl]
  | literal v => rfl
  | strip e _ ih | test e _ _ ih | isIn e _ ih | not e ih => rw [eval, eval, ih h]
  | compare l _ r ihl ihr | and l r ihl ihr | or l r ihl ihr =>
    rw [eval, eval, ihl fun c hc ↦ h c (.inl hc), ihr fun c hc ↦ h c (.inr hc)]

theorem holds_congr (h : ∀ c, e.Names c → row c = row' c) : e.holds row = e.holds row' := by
  rw [holds, holds, truth, truth, eval_congr h]

end RowExpr

end CorpusQuery

import CorpusQuery.Proofs.RowExpr.Columns
import CorpusQuery.Proofs.RowExpr.Connectives

/-!
# Expressions that cannot go wrong

Evaluating an expression fails in two ways: a column is not in the row, or a text or a real number
stands where a truth is wanted. The second cannot happen if values and conditions are kept apart,
with values only where values are compared or tested and conditions only under connectives. So an
expression of that form has a truth on every row that has its columns, whatever the cells hold.

Nothing here depends on what a comparison or a test says of two values, since both are defined for
values of all kinds.
-/

namespace CorpusQuery.RowExpr

/-- An expression that stands for a value: a column, a literal, or the text of such an expression
without a character. -/
inductive Subject : RowExpr → Prop
  | column (name : String) : Subject (.column name)
  | literal (v : Value) : Subject (.literal v)
  | strip {e : RowExpr} (h : Subject e) (c : Char) : Subject (.strip e c)

/-- An expression that stands for a truth: a test on values, or such expressions connected. -/
inductive Condition : RowExpr → Prop
  | compare {l r : RowExpr} (hl : Subject l) (op : Comparison) (hr : Subject r) :
    Condition (.compare l op r)
  | test {e : RowExpr} (h : Subject e) (kind : TextTest) (pattern : String) :
    Condition (.test e kind pattern)
  | isIn {e : RowExpr} (h : Subject e) (values : List Value) : Condition (.isIn e values)
  | and {l r : RowExpr} (hl : Condition l) (hr : Condition r) : Condition (.and l r)
  | or {l r : RowExpr} (hl : Condition l) (hr : Condition r) : Condition (.or l r)
  | not {e : RowExpr} (h : Condition e) : Condition (.not e)

variable {row : Row} {e : RowExpr}

theorem Subject.exists_eval (h : Subject e) (hrow : ∀ c, e.Names c → ∃ v, row c = some v) :
    ∃ v, e.eval row = .ok v := by
  induction h with
  | column name =>
    obtain ⟨v, hv⟩ := hrow name rfl
    exact ⟨v, eval_column hv⟩
  | literal v => exact ⟨v, rfl⟩
  | strip h c ih =>
    obtain ⟨v, hv⟩ := ih hrow
    exact ⟨v.without c, eval_strip hv c⟩

/-- **Conditions do not fail.** A condition has a truth on every row that has its columns. -/
theorem Condition.exists_truth (h : Condition e) (hrow : ∀ c, e.Names c → ∃ v, row c = some v) :
    ∃ t, e.truth row = .ok t := by
  induction h with
  | compare hl op hr =>
    obtain ⟨v, hv⟩ := hl.exists_eval fun c hc ↦ hrow c (.inl hc)
    obtain ⟨w, hw⟩ := hr.exists_eval fun c hc ↦ hrow c (.inr hc)
    exact ⟨_, truth_compare hv op hw⟩
  | test h kind pattern =>
    obtain ⟨v, hv⟩ := h.exists_eval hrow
    exact ⟨_, truth_test hv kind pattern⟩
  | isIn h values =>
    obtain ⟨v, hv⟩ := h.exists_eval hrow
    exact ⟨_, truth_isIn hv values⟩
  | and hl hr ihl ihr =>
    obtain ⟨s, hs⟩ := ihl fun c hc ↦ hrow c (.inl hc)
    obtain ⟨t, ht⟩ := ihr fun c hc ↦ hrow c (.inr hc)
    exact ⟨_, truth_and hs ht⟩
  | or hl hr ihl ihr =>
    obtain ⟨s, hs⟩ := ihl fun c hc ↦ hrow c (.inl hc)
    obtain ⟨t, ht⟩ := ihr fun c hc ↦ hrow c (.inr hc)
    exact ⟨_, truth_or hs ht⟩
  | not h ih =>
    obtain ⟨t, ht⟩ := ih hrow
    exact ⟨_, truth_not ht⟩

theorem Condition.exists_holds (h : Condition e) (hrow : ∀ c, e.Names c → ∃ v, row c = some v) :
    ∃ kept, e.holds row = .ok kept := by
  obtain ⟨t, ht⟩ := h.exists_truth hrow
  refine ⟨t.holds, ?_⟩
  rw [holds, ht]
  rfl

/-- Where each condition is decided by itself, all of them are, and it does not matter where the
first one is that does not hold. -/
theorem allHold_eq_ok {es : List RowExpr} (h : ∀ e ∈ es, ∃ kept, e.holds row = .ok kept) :
    allHold row es = .ok (es.all fun e ↦ (e.holds row).toOption.getD false) := by
  induction es with
  | nil => rfl
  | cons e es ih =>
    obtain ⟨⟨kept, hkept⟩, hes⟩ := List.forall_mem_cons.mp h
    rw [allHold, hkept, ih hes, List.all_cons, hkept]
    cases kept with
    | true => rfl
    | false => rfl

theorem exists_allHold {es : List RowExpr} (hes : ∀ e ∈ es, Condition e)
    (hrow : ∀ e ∈ es, ∀ c, e.Names c → ∃ v, row c = some v) :
    ∃ kept, allHold row es = .ok kept :=
  ⟨_, allHold_eq_ok fun e he ↦ (hes e he).exists_holds (hrow e he)⟩

end CorpusQuery.RowExpr

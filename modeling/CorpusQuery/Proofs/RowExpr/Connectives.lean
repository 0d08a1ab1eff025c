import CorpusQuery.RowExpr.Eval

/-!
# The truth of row expressions

Evaluation stops at an operand that decides alone. When the operands have a truth at all this makes
no difference: the connectives are those of three-valued truth. A test has the truth that its kind
gives to the value of its subject.
-/

namespace CorpusQuery

theorem Truth.holds_or (s t : Truth) : (s.or t).holds = (s.holds || t.holds) := by
  rcases s with _ | _ | _ <;> rcases t with _ | _ | _ <;> rfl

/-- The text of a value without a character. -/
def Value.without (v : Value) (c : Char) : Value :=
  match v.asText? with
  | some s => .text (Text.without s c)
  | none => .null

namespace RowExpr

variable {row : Row} {l r e : RowExpr} {s t : Truth}

theorem truth_of_eval_ofTruth (h : e.eval row = .ok (.ofTruth t)) : e.truth row = .ok t := by
  rw [truth, h]
  exact Value.truth_ofTruth t

/-! ## Tests -/

theorem eval_strip {v : Value} (h : e.eval row = .ok v) (c : Char) :
    (RowExpr.strip e c).eval row = .ok (v.without c) := by
  change (e.eval row >>= fun v ↦ pure (v.without c)) = _
  rw [h]
  rfl

theorem truth_compare {v w : Value} (hl : l.eval row = .ok v) (op : Comparison)
    (hr : r.eval row = .ok w) :
    (RowExpr.compare l op r).truth row = .ok (v.comparisonTruth op w) := by
  refine truth_of_eval_ofTruth ?_
  change (do
    let a ← l.eval row
    let b ← r.eval row
    return Value.ofTruth (a.comparisonTruth op b)) = _
  rw [hl, hr]
  rfl

theorem truth_test {v : Value} (h : e.eval row = .ok v) (kind : TextTest) (pattern : String) :
    (RowExpr.test e kind pattern).truth row = .ok (v.testTruth kind pattern) := by
  refine truth_of_eval_ofTruth ?_
  change (e.eval row >>= fun v ↦ pure (Value.ofTruth (v.testTruth kind pattern))) = _
  rw [h]
  rfl

theorem truth_isIn {v : Value} (h : e.eval row = .ok v) (values : List Value) :
    (RowExpr.isIn e values).truth row = .ok (v.memberTruth values) := by
  refine truth_of_eval_ofTruth ?_
  change (e.eval row >>= fun v ↦ pure (Value.ofTruth (v.memberTruth values))) = _
  rw [h]
  rfl

/-! ## Connectives -/

theorem truth_not_eq (row : Row) (e : RowExpr) :
    (RowExpr.not e).truth row = (e.truth row).map Truth.not := by
  rw [truth, truth]
  change ((do
    let t ← (← e.eval row).truth
    return Value.ofTruth t.not) >>= Value.truth) = _
  cases e.eval row with
  | error err => rfl
  | ok v =>
    change (v.truth >>= fun t ↦ pure (Value.ofTruth t.not)) >>= Value.truth = v.truth.map Truth.not
    cases v.truth with
    | error err => rfl
    | ok t => exact Value.truth_ofTruth t.not

theorem truth_not (h : e.truth row = .ok t) : (RowExpr.not e).truth row = .ok t.not := by
  rw [truth_not_eq, h]
  rfl

theorem truth_not_eq_iff :
    (RowExpr.not l).truth row = (RowExpr.not r).truth row ↔ l.truth row = r.truth row := by
  have hnot (e : RowExpr) : ((RowExpr.not e).truth row).map Truth.not = e.truth row := by
    rw [truth_not_eq]
    cases e.truth row with
    | error err => rfl
    | ok t => exact congrArg Except.ok (Truth.not_not t)
  constructor
  · intro h
    rw [← hnot l, h, hnot]
  · intro h
    rw [truth_not_eq, h, truth_not_eq]

/-- A connective on what its operands come to: a decisive truth on the left is the result, and the
right operand is not looked at. -/
def connect (decisive : Truth) (op : Truth → Truth → Truth) (left right : Except RowError Truth) :
    Except RowError Truth :=
  left.bind fun s ↦ if s = decisive then .ok decisive else right.map (op s)

theorem truth_connect (decisive : Truth) (op : Truth → Truth → Truth)
    (left right : Except RowError Value) :
    ((do
      let s ← (← left).truth
      if s = decisive then return Value.ofTruth decisive
      let t ← (← right).truth
      return Value.ofTruth (op s t)) >>= Value.truth)
      = connect decisive op (left >>= Value.truth) (right >>= Value.truth) := by
  cases left with
  | error err => rfl
  | ok v =>
    dsimp only [bind, Except.bind, connect, pure, Except.pure]
    cases v.truth with
    | error err => rfl
    | ok s =>
      dsimp only
      by_cases hs : s = decisive
      · rw [if_pos hs, if_pos hs]
        exact Value.truth_ofTruth decisive
      · rw [if_neg hs, if_neg hs]
        cases right with
        | error err => rfl
        | ok w =>
          dsimp only
          cases w.truth with
          | error err => rfl
          | ok t => exact Value.truth_ofTruth (op s t)

theorem truth_and_eq (row : Row) (l r : RowExpr) :
    (RowExpr.and l r).truth row = connect (some false) Truth.and (l.truth row) (r.truth row) :=
  truth_connect (some false) Truth.and (l.eval row) (r.eval row)

theorem truth_or_eq (row : Row) (l r : RowExpr) :
    (RowExpr.or l r).truth row = connect (some true) Truth.or (l.truth row) (r.truth row) :=
  truth_connect (some true) Truth.or (l.eval row) (r.eval row)

/-- Where both operands have a truth it does not matter that the right one may be left out. -/
theorem connect_ok_ok {decisive : Truth} {op : Truth → Truth → Truth}
    (hop : op decisive t = decisive) (s : Truth) :
    connect decisive op (.ok s) (.ok t) = .ok (op s t) := by
  change (if s = decisive then .ok decisive else .ok (op s t)) = Except.ok (op s t)
  split
  · next hs => rw [hs, hop]
  · rfl

theorem truth_and (hl : l.truth row = .ok s) (hr : r.truth row = .ok t) :
    (RowExpr.and l r).truth row = .ok (s.and t) := by
  rw [truth_and_eq, hl, hr]
  exact connect_ok_ok rfl s

theorem truth_or (hl : l.truth row = .ok s) (hr : r.truth row = .ok t) :
    (RowExpr.or l r).truth row = .ok (s.or t) := by
  rw [truth_or_eq, hl, hr]
  exact connect_ok_ok rfl s

/-! ## Alternatives -/

/-- What alternatives have in common their disjunction has as well, if it goes through `or`. -/
theorem any?_induction {motive : RowExpr → Prop}
    (hor : ∀ l r, motive l → motive r → motive (.or l r)) {es : List RowExpr}
    (hes : ∀ e ∈ es, motive e) (h : any? es = some e) : motive e := by
  cases es with
  | nil => cases h
  | cons first es =>
    obtain rfl := Option.some.inj h
    obtain ⟨hfirst, hrest⟩ := List.forall_mem_cons.mp hes
    exact es.foldlRecOn RowExpr.or hfirst fun l hl r hr ↦ hor l r hl (hrest r hr)

theorem exists_truth_foldl {α : Type} {test : α → RowExpr} {xs : List α} {truthOf : α → Truth}
    (he : e.truth row = .ok t) (h : ∀ x ∈ xs, (test x).truth row = .ok (truthOf x)) :
    ∃ t', ((xs.map test).foldl .or e).truth row = .ok t' ∧
      (t'.holds = true ↔ t.holds = true ∨ ∃ x ∈ xs, (truthOf x).holds = true) := by
  induction xs generalizing e t with
  | nil => exact ⟨t, he, by simp⟩
  | cons x xs ih =>
    obtain ⟨hx, hxs⟩ := List.forall_mem_cons.mp h
    obtain ⟨t', ht', hholds⟩ := ih (truth_or he hx) hxs
    refine ⟨t', ht', hholds.trans ?_⟩
    rw [Truth.holds_or, Bool.or_eq_true, or_assoc]
    simp

/-- **Alternatives.** Several alternatives hold if one of them does. -/
theorem exists_truth_any {α : Type} {test : α → RowExpr} {xs : List α} {truthOf : α → Truth}
    (he : any? (xs.map test) = some e) (h : ∀ x ∈ xs, (test x).truth row = .ok (truthOf x)) :
    ∃ t, e.truth row = .ok t ∧ (t.holds = true ↔ ∃ x ∈ xs, (truthOf x).holds = true) := by
  cases xs with
  | nil => cases he
  | cons x xs =>
    obtain rfl := Option.some.inj he
    obtain ⟨hx, hxs⟩ := List.forall_mem_cons.mp h
    obtain ⟨t, ht, hholds⟩ := exists_truth_foldl hx hxs
    exact ⟨t, ht, hholds.trans (by simp)⟩

end RowExpr

end CorpusQuery

import CorpusQuery.Proofs.Sql.Canonical
import CorpusQuery.Proofs.Sql.Connectives

/-!
# What a condition reads as

Conditions are put together from tests of columns in any nesting of connectives, and the tree that
is put together need not be the tree that its text reads as. A conjunction on the right of another
is written without parentheses, so its parts become parts of the whole chain; a disjunction in a
conjunction and the operand of a negation get parentheses, and these are read as groups. What a
condition reads as is again a condition, and it has the same truth, because conjunction and
disjunction are associative in three-valued logic too.

## Main statements

* `Condition.readsAs_regroup`: regrouping changes neither the text nor the truth.
* `Condition.read?_eq`: a condition reads as what regrouping makes of it.
-/

namespace CorpusQuery.Sql

open Fragment (parens text)

/-! ## Conditions -/

/-- An operator that makes one condition of two. -/
inductive Connective : BinaryOp → Prop
  | and : Connective .and
  | or : Connective .or

/-- The conditions of statements. -/
inductive Condition : Expr → Prop
  | test {l r : Expr} {op : BinaryOp} (hop : negationLevel < op.level) (hl : Operand l)
      (hr : Operand r) : Condition (.binary l op r)
  | inList {e : Expr} {items : List Expr} (he : Operand e) (hitems : ∀ i ∈ items, Operand i)
      (negated : Bool) : Condition (.inList e items negated)
  | connective {l r : Expr} {op : BinaryOp} (hop : Connective op) (hl : Condition l)
      (hr : Condition r) : Condition (.binary l op r)
  | not {e : Expr} (h : Condition e) : Condition (.not e)
  | group {e : Expr} (h : Condition e) : Condition (.group e)

namespace Expr

/-- Hangs a chain of operands on from the left. -/
def graft (op : BinaryOp) (l : Expr) : Expr → Expr
  | .binary r₁ op' r₂ =>
    if op' = op then .binary (graft op l r₁) op r₂ else .binary l op (.binary r₁ op' r₂)
  | r => .binary l op r

/-- A disjunction among the operands of a conjunction becomes a group. -/
def guardUnder (op : BinaryOp) (e : Expr) : Expr :=
  if op.level ≤ e.level then e else .group e

/-- The operand of a negation becomes a group, unless it is one. -/
def guardNot : Expr → Expr
  | .group e => .group e
  | e => .group e

/-- What an expression reads as. -/
def regroup : Expr → Expr
  | .binary l .and r => graft .and (guardUnder .and l.regroup) (guardUnder .and r.regroup)
  | .binary l .or r => graft .or (guardUnder .or l.regroup) (guardUnder .or r.regroup)
  | .not e => .not (guardNot e.regroup)
  | .group e => .group e.regroup
  | e => e

end Expr

/-! ## Levels -/

theorem Connective.level_lt {op : BinaryOp} (h : Connective op) : op.level < negationLevel := by
  cases h <;> decide

theorem Connective.eq_of_level_eq {op op' : BinaryOp} (h : Connective op)
    (hlevel : op.level = op'.level) : op' = op := by
  cases h with
  | and => cases op' <;> first | rfl | cases hlevel
  | or => cases op' <;> first | rfl | cases hlevel

theorem one_le_level (e : Expr) : 1 ≤ e.level := by
  cases e with
  | binary l op r => cases op <;> exact Nat.le_of_ble_eq_true rfl
  | column | value | inList | call | not | group => exact Nat.le_of_ble_eq_true rfl

theorem exists_or_of_level_lt {e : Expr} (h : e.level < BinaryOp.level .and) :
    ∃ l r, e = .binary l .or r := by
  have hlevel : e.level = 1 := Nat.le_antisymm (Nat.le_of_lt_succ h) (one_le_level e)
  cases e with
  | binary l op r => exact ⟨l, r, by rw [Connective.or.eq_of_level_eq hlevel.symm]⟩
  | column | value | inList | call | not | group => cases hlevel

theorem Connective.underAnd_eq {op : BinaryOp} (h : Connective op) (e : Expr) (f : Fragment) :
    Expr.underAnd op e f = if op.level ≤ e.level then f else parens f := by
  split
  case isTrue hlevel => exact underAnd_of_level_le hlevel f
  case isFalse hlevel =>
    cases h with
    | and =>
      obtain ⟨l, r, rfl⟩ := exists_or_of_level_lt (Nat.lt_of_not_le hlevel)
      rfl
    | or => exact absurd (one_le_level e) hlevel

theorem underNot_of_level_ne {e : Expr} (h : e.level ≠ operandLevel) (f : Fragment) :
    Expr.underNot e f = parens f := by
  cases e with
  | group e => exact absurd rfl h
  | column | value | binary | inList | call | not => rfl

theorem guardNot_of_level_ne {e : Expr} (h : e.level ≠ operandLevel) :
    Expr.guardNot e = .group e := by
  cases e with
  | group e => exact absurd rfl h
  | column | value | binary | inList | call | not => rfl

/-! ## Chains -/

namespace Canonical

variable {l r : Expr} {op : BinaryOp}

theorem level_graft (op : BinaryOp) (l r : Expr) : (Expr.graft op l r).level = op.level := by
  cases r with
  | binary r₁ op' r₂ =>
    rw [Expr.graft]
    split <;> rfl
  | column | value | inList | call | not | group => rfl

theorem graft_chain (op : BinaryOp) (l r₁ r₂ : Expr) :
    Expr.graft op l (.binary r₁ op r₂) = .binary (Expr.graft op l r₁) op r₂ := by
  rw [Expr.graft, if_pos rfl]

/-- **Induction along a chain.** What is hung on binds more tightly than the operator, or it is a
chain of the same operator with one more operand. -/
theorem chain_induction (hop : Connective op) {motive : Expr → Prop}
    (tight : ∀ r, Canonical r → op.level < r.level →
      (∀ l, Expr.graft op l r = .binary l op r) → motive r)
    (chain : ∀ r₁ r₂, Canonical r₁ → Canonical r₂ → op.level ≤ r₁.level → op.level < r₂.level →
      motive r₁ → motive (.binary r₁ op r₂))
    (hr : Canonical r) (hlevel : op.level ≤ r.level) : motive r := by
  have hconnective : op.level < negationLevel := hop.level_lt
  have hoperand : op.level < operandLevel := Nat.lt_trans hconnective (by decide)
  induction hr with
  | operand h =>
    refine tight _ (.operand h) (h.level_eq ▸ hoperand) fun l ↦ ?_
    cases h <;> rfl
  | @binary r₁ r₂ op' hr₁ hr₂ hleft hright ih =>
    by_cases hsame : op' = op
    · rw [hsame] at hleft hright ⊢
      exact chain r₁ r₂ hr₁ hr₂ hleft hright (ih hleft)
    · refine tight _ (.binary hr₁ hr₂ hleft hright) ?_ fun l ↦ ?_
      · exact Nat.lt_of_le_of_ne hlevel fun heq ↦ hsame (hop.eq_of_level_eq heq)
      · rw [Expr.graft, if_neg hsame]
  | inList he hitems negated =>
    exact tight _ (.inList he hitems negated) (Nat.lt_trans hconnective (Nat.lt_succ_self 3))
      fun _ ↦ rfl
  | not h => exact tight _ (.not h) hconnective fun _ ↦ rfl
  | group h => exact tight _ (.group h) hoperand fun _ ↦ rfl

theorem graft (hop : Connective op) (hl : Canonical l) (hleft : op.level ≤ l.level)
    (hr : Canonical r) (hright : op.level ≤ r.level) : Canonical (Expr.graft op l r) := by
  refine chain_induction (motive := fun r ↦ Canonical (Expr.graft op l r)) hop ?_ ?_ hr hright
  · intro r hr hlt hgraft
    rw [hgraft]
    exact .binary hl hr hleft hlt
  · intro r₁ r₂ _ hr₂ _ hlt ih
    rw [graft_chain]
    exact .binary ih hr₂ (Nat.le_of_eq (level_graft op l r₁).symm) hlt

theorem fragment_graft (hop : Connective op) (hleft : op.level ≤ l.level) (hr : Canonical r)
    (hright : op.level ≤ r.level) :
    (Expr.graft op l r).fragment = l.fragment ++ text (" " ++ op.text ++ " ") ++ r.fragment := by
  refine chain_induction (motive := fun r ↦ (Expr.graft op l r).fragment
    = l.fragment ++ text (" " ++ op.text ++ " ") ++ r.fragment) hop ?_ ?_ hr hright
  · intro r _ hlt hgraft
    rw [hgraft, fragment_binary hleft (Nat.le_of_lt hlt)]
  · intro r₁ r₂ _ _ hle hlt ih
    have hlevel : op.level ≤ (Expr.graft op l r₁).level := Nat.le_of_eq (level_graft op l r₁).symm
    rw [graft_chain, fragment_binary hlevel (Nat.le_of_lt hlt), ih,
      fragment_binary hle (Nat.le_of_lt hlt)]
    simp only [List.append_assoc]

theorem truth_graft (hop : Connective op) (hr : Canonical r) (hright : op.level ≤ r.level)
    (scope : Scope) :
    (Expr.graft op l r).truth scope = (Expr.binary l op r).truth scope := by
  refine chain_induction (motive := fun r ↦ (Expr.graft op l r).truth scope
    = (Expr.binary l op r).truth scope) hop ?_ ?_ hr hright
  · intro r _ _ hgraft
    rw [hgraft]
  · intro r₁ r₂ _ _ _ _ ih
    rw [graft_chain]
    cases hop with
    | and =>
      rw [Expr.truth_and, ih, Expr.truth_and, Expr.truth_and, Expr.truth_and, Truth.and_assoc]
    | or => rw [Expr.truth_or, ih, Expr.truth_or, Expr.truth_or, Expr.truth_or, Truth.or_assoc]

end Canonical

/-! ## Regrouping -/

/-- One expression is written as the other is, means the same, and is what its text reads as. -/
structure ReadsAs (e c : Expr) : Prop where
  canonical : Canonical c
  level : c.level = e.level
  fragment : c.fragment = e.fragment
  truth : ∀ scope, c.truth scope = e.truth scope

namespace ReadsAs

variable {e c l r : Expr} {op : BinaryOp}

theorem refl (h : Canonical e) : ReadsAs e e := ⟨h, rfl, rfl, fun _ ↦ rfl⟩

theorem group (h : ReadsAs e c) : ReadsAs (.group e) (.group c) where
  canonical := .group h.canonical
  level := rfl
  fragment := by rw [Expr.fragment, Expr.fragment, h.fragment]
  truth scope := by rw [Expr.truth_group, Expr.truth_group, h.truth scope]

/-- An operand of a connective, in parentheses if it has to be. -/
theorem exists_guardUnder (hop : Connective op) (h : ReadsAs e c) :
    Canonical (Expr.guardUnder op c) ∧ op.level ≤ (Expr.guardUnder op c).level ∧
      (Expr.guardUnder op c).fragment = Expr.underAnd op e e.fragment ∧
      ∀ scope, (Expr.guardUnder op c).truth scope = e.truth scope := by
  rw [hop.underAnd_eq, Expr.guardUnder, h.level, ← h.fragment]
  split
  case isTrue hlevel => exact ⟨h.canonical, h.level ▸ hlevel, rfl, h.truth⟩
  case isFalse =>
    have hlevel : op.level ≤ operandLevel := Nat.le_of_lt (Nat.lt_trans hop.level_lt (by decide))
    exact ⟨.group h.canonical, hlevel, rfl, h.group.truth⟩

theorem not_group (h : ReadsAs (.group e) (.group c)) :
    ReadsAs (.not (.group e)) (.not (.group c)) where
  canonical := by
    cases h.canonical with
    | group h => exact .not h
    | operand h => cases h
  level := rfl
  fragment := congrArg (text "NOT " ++ ·) h.fragment
  truth scope := by rw [Expr.truth_not, Expr.truth_not, h.truth scope]

theorem not (h : ReadsAs e c) (hlevel : e.level ≠ operandLevel) :
    ReadsAs (.not e) (.not (.group c)) where
  canonical := .not h.canonical
  level := rfl
  fragment := by
    rw [Expr.fragment, Expr.fragment, underNot_of_level_ne hlevel, ← h.fragment]
    rfl
  truth scope := by rw [Expr.truth_not, Expr.truth_not, Expr.truth_group, h.truth scope]

theorem connective {c d : Expr} (hop : Connective op) (hl : ReadsAs l c) (hr : ReadsAs r d) :
    ReadsAs (.binary l op r)
      (Expr.graft op (Expr.guardUnder op c) (Expr.guardUnder op d)) := by
  obtain ⟨hcl, hlevell, hfragmentl, htruthl⟩ := hl.exists_guardUnder hop
  obtain ⟨hcr, hlevelr, hfragmentr, htruthr⟩ := hr.exists_guardUnder hop
  refine ⟨.graft hop hcl hlevell hcr hlevelr, Canonical.level_graft _ _ _, ?_, fun scope ↦ ?_⟩
  · rw [Canonical.fragment_graft hop hlevell hcr hlevelr, hfragmentl, hfragmentr, Expr.fragment]
  · rw [Canonical.truth_graft hop hcr hlevelr]
    cases hop with
    | and => rw [Expr.truth_and, Expr.truth_and, htruthl, htruthr]
    | or => rw [Expr.truth_or, Expr.truth_or, htruthl, htruthr]

end ReadsAs

namespace Condition

variable {e : Expr}

theorem exists_group (h : Condition e) (hlevel : e.level = operandLevel) : ∃ e', e = .group e' := by
  cases h with
  | @group e h => exact ⟨e, rfl⟩
  | @test l r op | @connective l r op => exact absurd hlevel (Nat.ne_of_lt op.level_lt)
  | inList | not => cases hlevel

/-- **Regrouping.** A condition reads as what regrouping makes of it. -/
theorem readsAs_regroup (h : Condition e) : ReadsAs e e.regroup := by
  induction h with
  | @test l r op hop hl hr =>
    have hsame : (Expr.binary l op r).regroup = .binary l op r := by
      cases op with
      | and | or => exact absurd hop (by decide)
      | eq | ne | lt | gt | le | ge | like | notLike | glob => rfl
    have hleft : op.level ≤ l.level := hl.level_eq ▸ Nat.le_of_lt op.level_lt
    have hright : op.level < r.level := hr.level_eq ▸ op.level_lt
    rw [hsame]
    exact .refl (.binary (.operand hl) (.operand hr) hleft hright)
  | inList he hitems negated => exact .refl (.inList he hitems negated)
  | connective hop _ _ ihl ihr =>
    cases hop with
    | and => exact .connective .and ihl ihr
    | or => exact .connective .or ihl ihr
  | @not e h ih =>
    by_cases hlevel : e.level = operandLevel
    · obtain ⟨e, rfl⟩ := h.exists_group hlevel
      exact ih.not_group
    · have hguard : Expr.guardNot e.regroup = .group e.regroup :=
        guardNot_of_level_ne (ih.level ▸ hlevel)
      have hregroup : (Expr.not e).regroup = .not (.group e.regroup) := by
        rw [Expr.regroup, hguard]
      rw [hregroup]
      exact ih.not hlevel
  | group h ih => exact ih.group

/-- **Reading back.** A condition is read back from its text and its values, up to regrouping. -/
theorem read?_eq (h : Condition e) :
    Expr.read? e.fragment.sql e.fragment.args = some e.regroup := by
  have hregroup := h.readsAs_regroup
  rw [← hregroup.fragment]
  exact hregroup.canonical.read?_eq

/-! ### How conditions are put together -/

theorem negate (h : Condition e) : Condition e.negate := by
  cases h with
  | @test l r op hop hl hr =>
    have htest {op : BinaryOp} (hop : negationLevel < op.level) :
        Condition (.binary l op r) := .test hop hl hr
    cases op with
    | eq | like => exact htest hop
    | ne | lt | gt | le | ge | and | or | notLike | glob => exact (htest hop).not
  | inList he hitems negated => exact .inList he hitems (!negated)
  | connective hop hl hr =>
    cases hop with
    | and => exact .not (.connective .and hl hr)
    | or => exact .not (.connective .or hl hr)
  | not h => exact .not (.not h)
  | group h => exact .not (.group h)

theorem andAll? {es : List Expr} (hes : ∀ e ∈ es, Condition e) (h : Expr.andAll? es = some e) :
    Condition e :=
  Expr.andAll?_induction (fun _ _ ↦ .connective .and) hes h

theorem orAll? {es : List Expr} (hes : ∀ e ∈ es, Condition e) (h : Expr.orAll? es = some e) :
    Condition e :=
  Expr.orAll?_induction (fun _ _ ↦ .connective .or) (fun _ ↦ .group) hes h

end Condition

end CorpusQuery.Sql

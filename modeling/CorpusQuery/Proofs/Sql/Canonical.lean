import CorpusQuery.Proofs.Sql.Precedence

/-!
# Canonical expressions are read back

An expression is canonical if its tree is the one that the precedence of operators gives its text:
an operand on the left binds at least as tightly as the operator, an operand on the right binds more
tightly, and a negation is that of a group. A canonical expression is written without any
parentheses but those of its groups and lists, and it is read back as it is.

The reader does not complete an operator before it has seen what follows, so after it has read an
expression a part of it may still lie on the stack. What the proof keeps is that completing the
stack gives the same as if the expression had been read as a whole, at all levels up to its own.

## Main statements

* `Canonical.tokenizes`: the text of a canonical expression has the tokens of its pieces.
* `Canonical.exists_run`: what reading a canonical expression does to the stack.
* `Canonical.read?_eq`: a canonical expression is read back from its text and its values.
-/

namespace CorpusQuery.Sql

open Fragment (Closed Tokenizes commas parens text)
open Reader (Blocks Frame Head reduce run_append run_membership run_operator)
open Reader.State (run)

/-! ## Operands -/

/-- Columns under an alias, values and calls of functions. -/
inductive Operand : Expr → Prop
  | column {qualifier : String} (name : String)
      (h : isPlain qualifier = true → keyword? qualifier = none) :
      Operand (.column (some qualifier) name)
  | value (v : Value) : Operand (.value v)
  | call {function : String} {args : List Expr} (hplain : isPlain function = true)
      (hkeyword : keyword? function = none) (hargs : ∀ e ∈ args, Operand e) :
      Operand (.call function args)

theorem mem_fragments {es : List Expr} {f : Fragment} :
    f ∈ Expr.fragments es ↔ ∃ e ∈ es, e.fragment = f := by
  induction es with
  | nil => simp [Expr.fragments]
  | cons e es ih => simp [Expr.fragments, ih, eq_comm]

namespace Operand

variable {e : Expr}

theorem level_eq (h : Operand e) : e.level = operandLevel := by
  cases h <;> rfl

theorem tokenizes (h : Operand e) : e.fragment.Tokenizes := by
  induction h with
  | column name h => exact Fragment.tokenizes_column _
  | value v => exact (Fragment.closed_bound v).tokenizes
  | @call function args hplain _ _ ih =>
    have hargs : (commas (Expr.fragments args)).Tokenizes := by
      refine Fragment.tokenizes_commas fun f hf ↦ ?_
      obtain ⟨e, he, rfl⟩ := mem_fragments.mp hf
      exact ih e he
    have hname := (Fragment.tokenizes_word hplain).separated Fragment.separates_opening
    have hclosed := Tokenizes.separated (hname.append hargs) Fragment.separates_closing
    rw [Expr.fragment, parens, ← List.append_assoc, ← List.append_assoc]
    exact hclosed.tokenizes

/-- The reader is done with an expression that it reads from the start, whatever is on the stack. -/
def IsRead (e : Expr) : Prop :=
  ∀ (fs : List Frame) (vs : List Value),
    run ⟨.start, fs, e.fragment.args ++ vs⟩ e.fragment.tokens = some ⟨.read e, fs, vs⟩

theorem run_items {es : List Expr} (h : ∀ e ∈ es, IsRead e) (hes : es ≠ []) (head : Head)
    (before : List Expr) (fs : List Frame) (vs : List Value) :
    run ⟨.start, .items head before :: fs, (commas (Expr.fragments es)).args ++ vs⟩
        ((commas (Expr.fragments es)).tokens ++ [.closing])
      = some ⟨.read (head.build (before.reverse ++ es)), fs, vs⟩ := by
  induction es generalizing before with
  | nil => exact absurd rfl hes
  | cons e es ih =>
    have he := h e List.mem_cons_self
    cases es with
    | nil =>
      rw [Expr.fragments, Expr.fragments, commas, run_append (he _ _)]
      rfl
    | cons next es =>
      have hcommas : commas (Expr.fragments (e :: next :: es))
          = e.fragment ++ (text ", " ++ commas (Expr.fragments (next :: es))) :=
        List.append_assoc _ _ _
      have hcomma : (text ", ").tokens = [.comma] := by decide
      have hrest := ih (fun e he ↦ h e (List.mem_cons_of_mem _ he)) (List.cons_ne_nil _ _)
        (e :: before)
      rw [List.reverse_cons, List.append_assoc] at hrest
      simp only [hcommas, Fragment.tokens_append, Fragment.args_append, Fragment.args_text, hcomma,
        List.append_assoc, List.nil_append]
      rw [run_append (he _ _)]
      exact hrest

theorem run_list {es : List Expr} (h : ∀ e ∈ es, IsRead e) (head : Head) (fs : List Frame)
    (vs : List Value) :
    run ⟨.start, .items head [] :: fs, (commas (Expr.fragments es)).args ++ vs⟩
        ((commas (Expr.fragments es)).tokens ++ [.closing])
      = some ⟨.read (head.build es), fs, vs⟩ := by
  by_cases hes : es = []
  · rw [hes]
    rfl
  · exact run_items h hes head [] fs vs

/-- **Operands** are read at once. -/
theorem isRead (h : Operand e) : IsRead e := by
  induction h with
  | @column qualifier name h =>
    intro fs vs
    have hname : run ⟨.qualified qualifier, fs, vs⟩ [.ofName name]
        = some ⟨.read (.column (some qualifier) name), fs, vs⟩ := by
      rw [Token.ofName]
      split <;> rfl
    have hqualifier : run ⟨.start, fs, vs⟩ [.ofName qualifier, .dot]
        = some ⟨.qualified qualifier, fs, vs⟩ := by
      rw [Token.ofName]
      split
      case isTrue hplain => simp [run, Reader.State.step, Reader.State.begin, h hplain]
      case isFalse => rfl
    exact (run_append hqualifier [.ofName name]).trans hname
  | value v => exact fun fs vs ↦ rfl
  | @call function args hplain hkeyword _ ih =>
    intro fs vs
    have hopen (vs : List Value) : run ⟨.start, fs, vs⟩ [.word function, .opening]
        = some ⟨.start, .items (.call function) [] :: fs, vs⟩ := by
      simp [run, Reader.State.step, Reader.State.begin, hkeyword]
    rw [Expr.fragment, Fragment.tokens_append, Fragment.tokens_word hplain, Fragment.tokens_parens,
      Fragment.args_append, Fragment.args_text, Fragment.args_parens]
    exact (run_append (hopen _) _).trans (run_list ih (.call function) fs vs)

end Operand

/-! ## Canonical expressions -/

/-- The tree of the expression is what the precedence of operators gives its text. -/
inductive Canonical : Expr → Prop
  | operand {e : Expr} (h : Operand e) : Canonical e
  | binary {l r : Expr} {op : BinaryOp} (hl : Canonical l) (hr : Canonical r)
      (hleft : op.level ≤ l.level) (hright : op.level < r.level) : Canonical (.binary l op r)
  | inList {e : Expr} {items : List Expr} (he : Operand e) (hitems : ∀ i ∈ items, Operand i)
      (negated : Bool) : Canonical (.inList e items negated)
  | not {e : Expr} (h : Canonical e) : Canonical (.not (.group e))
  | group {e : Expr} (h : Canonical e) : Canonical (.group e)

theorem underAnd_of_level_le {op : BinaryOp} {e : Expr} (h : op.level ≤ e.level) (f : Fragment) :
    Expr.underAnd op e f = f := by
  rw [Expr.underAnd.eq_def]
  split
  · exact absurd h (Nat.not_succ_le_self 1)
  · rfl

namespace Canonical

variable {e l r : Expr}

theorem fragment_binary {op : BinaryOp} (hleft : op.level ≤ l.level) (hright : op.level ≤ r.level) :
    (Expr.binary l op r).fragment
      = l.fragment ++ text (" " ++ op.text ++ " ") ++ r.fragment := by
  rw [Expr.fragment, underAnd_of_level_le hleft, underAnd_of_level_le hright]

theorem tokenizes (h : Canonical e) : e.fragment.Tokenizes := by
  induction h with
  | operand h => exact h.tokenizes
  | @binary l r op _ _ hleft hright ihl ihr =>
    rw [fragment_binary hleft (Nat.le_of_lt hright)]
    exact (ihl.separated (Fragment.separates_operator op)).append ihr
  | @inList e items he hitems negated =>
    have hlist : (commas (Expr.fragments items)).Tokenizes := by
      refine Fragment.tokenizes_commas fun f hf ↦ ?_
      obtain ⟨i, hi, rfl⟩ := mem_fragments.mp hf
      exact (hitems i hi).tokenizes
    have hopen := he.tokenizes.separated (Fragment.separates_membership negated)
    exact (Tokenizes.separated (hopen.append hlist) Fragment.separates_closing).tokenizes
  | not h ih =>
    have hnot : (text "NOT ").Closed := Fragment.closed_text fun _ ↦ rfl
    exact hnot.append (Fragment.closed_parens ih).tokenizes
  | group h ih => exact (Fragment.closed_parens ih).tokenizes

/-- A group is read at once, since the closing parenthesis completes it. -/
theorem run_parens {fs : List Frame} {vs : List Value}
    (h : ∃ x gs, run ⟨.start, .group :: fs, e.fragment.args ++ vs⟩ e.fragment.tokens
        = some ⟨.read x, gs, vs⟩ ∧ ∀ n ≤ e.level, reduce n x gs = reduce n e (.group :: fs)) :
    run ⟨.start, fs, (Expr.group e).fragment.args ++ vs⟩ (Expr.group e).fragment.tokens
      = some ⟨.read (.group e), fs, vs⟩ := by
  obtain ⟨x, gs, hrun, hreduce⟩ := h
  have hclosing : run ⟨.read x, gs, vs⟩ [.closing] = some ⟨.read (.group e), fs, vs⟩ := by
    simp [run, Reader.State.step, Reader.State.proceed, hreduce 0 (Nat.zero_le _), reduce]
  rw [Expr.fragment, Fragment.tokens_parens, Fragment.args_parens]
  exact (run_append hrun [.closing]).trans hclosing

/-- **Reading.** Behind a canonical expression the reader is where it would be if it had the
expression as a whole, up to what it has not completed yet. -/
theorem exists_run (h : Canonical e) {fs : List Frame} (hfs : Blocks e.level fs)
    (vs : List Value) :
    ∃ x gs, run ⟨.start, fs, e.fragment.args ++ vs⟩ e.fragment.tokens = some ⟨.read x, gs, vs⟩ ∧
      ∀ n ≤ e.level, reduce n x gs = reduce n e fs := by
  induction h generalizing fs vs with
  | operand h => exact ⟨_, fs, h.isRead fs vs, fun _ _ ↦ rfl⟩
  | @binary l r op _ _ hleft hright ihl ihr =>
    obtain ⟨x, gs, hrunl, hreducel⟩ := ihl (hfs.mono hleft) (r.fragment.args ++ vs)
    have hoperator : reduce op.level x gs = (l, fs) :=
      (hreducel op.level hleft).trans (Reader.reduce_of_blocks hfs l)
    have hblocks : Blocks r.level (.operator l op :: fs) := hright
    obtain ⟨y, hs, hrunr, hreducer⟩ := ihr hblocks vs
    refine ⟨y, hs, ?_, fun n hn ↦ ?_⟩
    · rw [fragment_binary hleft (Nat.le_of_lt hright)]
      simp only [Fragment.tokens_append, Fragment.args_append, Fragment.args_text,
        Fragment.tokens_operator, List.append_assoc, List.nil_append]
      rw [run_append hrunl, run_append (run_operator hoperator _), hrunr]
    · rw [hreducer n (Nat.le_trans hn (Nat.le_of_lt hright))]
      exact if_pos hn
  | @inList e items he hitems negated =>
    refine ⟨_, fs, ?_, fun _ _ ↦ rfl⟩
    have hmembership := Reader.reduce_of_blocks hfs e
    have hclosing : (text ")").tokens = [.closing] := by decide
    rw [Expr.fragment]
    simp only [Fragment.tokens_append, Fragment.args_append, Fragment.args_text,
      Fragment.tokens_membership, hclosing, List.append_assoc, List.nil_append]
    rw [run_append (he.isRead _ _)]
    rw [← List.append_assoc, run_append (run_membership hmembership negated _)]
    exact Operand.run_list (fun i hi ↦ (hitems i hi).isRead) _ fs vs
  | @not e _ ih =>
    have hblocks : Blocks e.level (.group :: .negation :: fs) := trivial
    have hgroup := run_parens (ih hblocks vs)
    -- The negation stays on the stack until something binds less tightly.
    exact ⟨.group e, .negation :: fs, hgroup, fun n hn ↦ if_pos hn⟩
  | @group e _ ih =>
    have hblocks : Blocks e.level (.group :: fs) := trivial
    exact ⟨_, fs, run_parens (ih hblocks vs), fun _ _ ↦ rfl⟩

/-- **Reading back.** A canonical expression is read back from its text and its values. -/
theorem read?_eq (h : Canonical e) : Expr.read? e.fragment.sql e.fragment.args = some e := by
  have hblocks : Blocks e.level [] := trivial
  obtain ⟨x, gs, hrun, hreduce⟩ := h.exists_run hblocks []
  rw [List.append_nil] at hrun
  rw [Expr.read?, h.tokenizes.ofText_sql, hrun]
  simp [Reader.State.finish, hreduce 0 (Nat.zero_le _), reduce]

-- Without any parentheses the connectives keep their ranks.
example : Expr.read? "w.pos = ? OR NOT w.len < ? AND w.form GLOB ?" [.text "X", .int 5, .text "k*"]
    = some (.binary (.binary (.of "w" "pos") .eq (.value (.text "X"))) .or
      (.binary (.not (.binary (.of "w" "len") .lt (.value (.int 5)))) .and
        (.binary (.of "w" "form") .glob (.value (.text "k*"))))) := rfl

end Canonical

end CorpusQuery.Sql

import CorpusQuery.Proofs.Sql.Tokens
import CorpusQuery.Text.Case

/-!
# Reading a condition back

A condition is read by the precedence of its operators: `OR` binds least, then `AND`, then `NOT` in
front of an operand, then equality, membership and patterns, then the order comparisons. Operators
of one level associate to the left, and parentheses group. The reader goes through the tokens once.
What it has begun and not finished lies on a stack: operators that wait for their right operand,
negations, groups, and lists with the items they have so far. An operator first completes everything
on the stack that binds at least as tightly as itself, and a closing parenthesis completes
everything up to the opening one. Placeholders take the bound values in their order, and all values
have to be taken.

A word behind a dot is a name, whatever it means elsewhere. Otherwise the letter case of keywords
does not matter.
-/

namespace CorpusQuery.Sql

/-! ## Levels -/

/-- How tightly an operator binds. -/
def BinaryOp.level : BinaryOp → Nat
  | or => 1
  | and => 2
  | eq | ne | like | notLike | glob => 4
  | lt | gt | le | ge => 5

/-- How tightly a negation binds. -/
def negationLevel : Nat := 3

/-- How tightly membership binds: like equality. -/
def membershipLevel : Nat := BinaryOp.level .eq

/-- How tightly operands and groups hold together. -/
def operandLevel : Nat := 6

theorem BinaryOp.level_lt (op : BinaryOp) : op.level < operandLevel := by
  cases op <;> decide

/-- How tightly the outermost operator of an expression binds. -/
def Expr.level : Expr → Nat
  | .binary _ op _ => op.level
  | .not _ => negationLevel
  | .inList _ _ _ => membershipLevel
  | .column _ _ | .value _ | .call _ _ | .group _ => operandLevel

/-! ## The reader -/

/-- The words that are no names. -/
inductive Keyword where
  | and
  | or
  | not
  | isIn
  | like
  | glob
deriving DecidableEq, Repr

/-- The keywords in small letters. -/
def keywords : List (String × Keyword) :=
  [("and", .and), ("or", .or), ("not", .not), ("in", .isIn), ("like", .like), ("glob", .glob)]

/-- The keyword that a word is. -/
def keyword? (word : String) : Option Keyword := keywords.lookup (Text.asciiLower word)

namespace Reader

/-- What a list in parentheses belongs to. -/
inductive Head where
  | member (e : Expr) (negated : Bool)
  | call (function : String)

/-- The expression that is complete with its list. -/
def Head.build : Head → List Expr → Expr
  | member e negated, items => .inList e items negated
  | call function, args => .call function args

/-- What has begun and waits for an expression. -/
inductive Frame where
  | operator (left : Expr) (op : BinaryOp)
  | negation
  | group
  /-- A list with the items before this one, the last one first. -/
  | items (head : Head) (before : List Expr)

/-- Where the reader stands. -/
inductive Stage where
  /-- An expression has to begin. -/
  | start
  /-- A name that may be a column, the alias of one, or a function. -/
  | named (name : String)
  /-- The alias of a column, and a dot. -/
  | qualified (qualifier : String)
  | read (e : Expr)
  /-- An expression and `NOT`. -/
  | denied (e : Expr)
  /-- An expression and `IN`. -/
  | listed (e : Expr) (negated : Bool)

/-- The state of the reader, with the values that are still to be bound. -/
structure State where
  stage : Stage := .start
  frames : List Frame := []
  values : List Value

/-- Completes what binds at least as tightly as a level. -/
def reduce (n : Nat) (e : Expr) : List Frame → Expr × List Frame
  | .operator left op :: fs =>
    if n ≤ op.level then reduce n (.binary left op e) fs else (e, .operator left op :: fs)
  | .negation :: fs => if n ≤ negationLevel then reduce n (.not e) fs else (e, .negation :: fs)
  | .group :: fs => (e, .group :: fs)
  | .items head before :: fs => (e, .items head before :: fs)
  | [] => (e, [])

namespace State

/-- A token where an expression has to begin. A list may end here if it is empty. -/
def begin (s : State) : Token → Option State
  | .placeholder =>
    match s.values with
    | v :: vs => some { s with stage := .read (.value v), values := vs }
    | [] => none
  | .quoted name => some { s with stage := .named name }
  | .word w =>
    match keyword? w with
    | some .not => some { s with frames := .negation :: s.frames }
    | some _ => none
    | none => some { s with stage := .named w }
  | .opening => some { s with frames := .group :: s.frames }
  | .closing =>
    match s.frames with
    | .items head [] :: fs => some { s with stage := .read (head.build []), frames := fs }
    | _ => none
  | _ => none

/-- An operator behind an expression, which becomes its left operand. -/
def operator (s : State) (e : Expr) (op : BinaryOp) : State :=
  let (left, fs) := reduce op.level e s.frames
  { s with stage := .start, frames := .operator left op :: fs }

/-- A token behind an expression. -/
def proceed (s : State) (e : Expr) : Token → Option State
  | .comparison op => some (s.operator e op)
  | .word w =>
    let (left, fs) := reduce membershipLevel e s.frames
    match keyword? w with
    | some .and => some (s.operator e .and)
    | some .or => some (s.operator e .or)
    | some .like => some (s.operator e .like)
    | some .glob => some (s.operator e .glob)
    | some .not => some { s with stage := .denied left, frames := fs }
    | some .isIn => some { s with stage := .listed left false, frames := fs }
    | none => none
  | .comma =>
    match reduce 0 e s.frames with
    | (item, .items head before :: fs) =>
      some { s with stage := .start, frames := .items head (item :: before) :: fs }
    | _ => none
  | .closing =>
    match reduce 0 e s.frames with
    | (inner, .group :: fs) => some { s with stage := .read (.group inner), frames := fs }
    | (item, .items head before :: fs) =>
      some { s with stage := .read (head.build (before.reverse ++ [item])), frames := fs }
    | _ => none
  | _ => none

/-- One token. -/
def step (s : State) (t : Token) : Option State :=
  match s.stage, t with
  | .start, t => s.begin t
  | .named name, .dot => some { s with stage := .qualified name }
  | .named name, .opening =>
    some { s with stage := .start, frames := .items (.call name) [] :: s.frames }
  | .named name, t => s.proceed (.column none name) t
  | .qualified qualifier, .word name | .qualified qualifier, .quoted name =>
    some { s with stage := .read (.column (some qualifier) name) }
  | .read e, t => s.proceed e t
  | .denied e, .word w =>
    match keyword? w with
    | some .isIn => some { s with stage := .listed e true }
    | some .like => some { s with stage := .start, frames := .operator e .notLike :: s.frames }
    | _ => none
  | .listed e negated, .opening =>
    some { s with stage := .start, frames := .items (.member e negated) [] :: s.frames }
  | _, _ => none

/-- All tokens. -/
def run (s : State) : List Token → Option State
  | [] => some s
  | t :: ts => (s.step t).bind fun s ↦ s.run ts

/-- The expression that has been read, if nothing is left unfinished or unbound. -/
def finish (s : State) : Option Expr :=
  let complete (e : Expr) : Option Expr :=
    match reduce 0 e s.frames, s.values with
    | (e, []), [] => some e
    | _, _ => none
  match s.stage with
  | .read e => complete e
  | .named name => complete (.column none name)
  | _ => none

end State

end Reader

/-- Reads an expression from its text and the values that are bound to its placeholders. -/
def Expr.read? (text : String) (values : List Value) : Option Expr :=
  (Reader.State.run { values } (Token.ofText text)).bind (·.finish)

/-! ## Steps of the reader -/

namespace Reader

open State (run)

theorem run_append {s s' : State} {xs : List Token} (h : s.run xs = some s') (ys : List Token) :
    s.run (xs ++ ys) = s'.run ys := by
  induction xs generalizing s with
  | nil =>
    obtain rfl := Option.some.inj h
    rfl
  | cons x xs ih =>
    rw [run] at h
    obtain ⟨next, hnext, h⟩ := Option.bind_eq_some_iff.mp h
    rw [List.cons_append, run, hnext]
    exact ih h

/-- The frame on top of the stack binds less tightly than a level, so it is not completed there. -/
def Blocks (n : Nat) : List Frame → Prop
  | .operator _ op :: _ => op.level < n
  | .negation :: _ => negationLevel < n
  | _ => True

theorem Blocks.mono {m n : Nat} {fs : List Frame} (h : Blocks m fs) (hmn : m ≤ n) :
    Blocks n fs := by
  rcases fs with _ | ⟨f, fs⟩
  · trivial
  · cases f with
    | operator left op => exact Nat.lt_of_lt_of_le h hmn
    | negation => exact Nat.lt_of_lt_of_le h hmn
    | group | items => trivial

theorem reduce_of_blocks {n : Nat} {fs : List Frame} (h : Blocks n fs) (e : Expr) :
    reduce n e fs = (e, fs) := by
  rcases fs with _ | ⟨f, fs⟩
  · rfl
  · cases f with
    | operator left op => exact if_neg (Nat.not_le.mpr h)
    | negation => exact if_neg (Nat.not_le.mpr h)
    | group | items => rfl

theorem run_operator {x left : Expr} {gs fs : List Frame} {op : BinaryOp}
    (h : reduce op.level x gs = (left, fs)) (vs : List Value) :
    run ⟨.read x, gs, vs⟩ op.tokens = some ⟨.start, .operator left op :: fs, vs⟩ := by
  have hop : State.operator ⟨.read x, gs, vs⟩ x op = ⟨.start, .operator left op :: fs, vs⟩ := by
    rw [State.operator, h]
  cases op with
  | eq | ne | lt | gt | le | ge | and | or | like | glob => exact congrArg some hop
  | notLike =>
    have hdenied : State.step ⟨.read x, gs, vs⟩ (.word "NOT") = some ⟨.denied left, fs, vs⟩ := by
      have hreduce : reduce membershipLevel x gs = (left, fs) := h
      have hword : keyword? "NOT" = some .not := by decide
      simp only [State.step, State.proceed, hreduce, hword]
    rw [BinaryOp.tokens, run, hdenied]
    rfl

theorem run_membership {x left : Expr} {gs fs : List Frame}
    (h : reduce membershipLevel x gs = (left, fs)) (negated : Bool) (vs : List Value) :
    run ⟨.read x, gs, vs⟩ ((if negated then [.word "NOT"] else []) ++ [.word "IN", .opening])
      = some ⟨.start, .items (.member left negated) [] :: fs, vs⟩ := by
  have hnot : keyword? "NOT" = some .not := by decide
  have hin : keyword? "IN" = some .isIn := by decide
  cases negated with
  | false => simp [run, State.step, State.proceed, h, hin]
  | true => simp [run, State.step, State.proceed, h, hnot, hin]

end Reader

end CorpusQuery.Sql

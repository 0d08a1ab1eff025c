import CorpusQuery.Sql.Eval

/-!
# Patterns that are too long

A pattern longer than a fixed number of bytes is a fault, but only once a row is matched against it.
The conditions that a row has to satisfy are taken from left to right, up to the first one that it
does not satisfy, and likewise the sides of a conjunction or disjunction.

A pattern that is fixed except for a `*` at its end needs no matching when there is an index on the
column: the index finds the rows, and no other row is looked at.
-/

namespace CorpusQuery.Sql

/-- Whether an operator takes its right operand for a pattern. -/
def BinaryOp.takesPattern : BinaryOp → Bool
  | like | notLike | glob => true
  | _ => false

/-- The greatest number of bytes in a pattern. -/
def maxPatternBytes : Nat := 50000

/-- Whether a pattern is too long. -/
def isLongPattern (pattern : Datum) : Bool :=
  match pattern.asText? with
  | some s => maxPatternBytes < s.utf8ByteSize
  | none => false

/-- Whether a pattern is a text without wildcards and a `*` behind it. -/
def hasFixedFront (pattern : List Char) : Bool :=
  match pattern.span fun c ↦ c != '*' && c != '?' && c != '[' with
  | (_ :: _, ['*']) => true
  | _ => false

namespace Expr

mutual

/-- Whether a row is matched against a pattern that is too long. -/
def getsToLongPattern (scope : Scope) : Expr → Bool
  | column _ _ | value _ => false
  | binary l op r =>
    let decided := match op with
      | .and => !(l.truth scope).holds
      | .or => (l.truth scope).holds
      | _ => false
    l.getsToLongPattern scope || (!decided && r.getsToLongPattern scope)
      || (op.takesPattern && isLongPattern (r.eval scope))
  | inList e items _ => e.getsToLongPattern scope || anyGetsToLongPattern scope items
  | call _ args => anyGetsToLongPattern scope args
  | not e | group e => e.getsToLongPattern scope

/-- Whether one of the expressions gets to a pattern that is too long. -/
def anyGetsToLongPattern (scope : Scope) : List Expr → Bool
  | [] => false
  | e :: es => e.getsToLongPattern scope || anyGetsToLongPattern scope es

end

/-- The conditions that a conjunction is made of. -/
def conjuncts : Expr → List Expr
  | binary l .and r => l.conjuncts ++ r.conjuncts
  | e => [e]

/-- Whether indexes find the rows that satisfy a condition; `indexed` says which columns have
one. -/
def isAnswered (indexed : ColumnName → Bool) : Expr → Bool
  | binary (.column qualifier name) .glob (.value (.text pattern)) =>
    indexed ⟨qualifier, name⟩ && hasFixedFront pattern.toList
  | binary l .or r => l.isAnswered indexed && r.isAnswered indexed
  | group e => e.isAnswered indexed
  | _ => false

/-- Whether a row gets to a pattern that is too long when it has to satisfy these conditions. -/
def conditionsGetToLongPattern (scope : Scope) : List Expr → Bool
  | [] => false
  | e :: es =>
    e.getsToLongPattern scope || ((e.truth scope).holds && conditionsGetToLongPattern scope es)

/-- Whether a row gets to a pattern that is too long in a condition, given the columns with an
index. -/
def reachesLongPattern (indexed : ColumnName → Bool) (scope : Scope) (e : Expr) : Bool :=
  let (answered, others) := e.conjuncts.partition (·.isAnswered indexed)
  answered.all (fun e ↦ (e.truth scope).holds) && conditionsGetToLongPattern scope others

end Expr

end CorpusQuery.Sql

import CorpusQuery.Sql.Affinity
import CorpusQuery.Sql.Expr
import CorpusQuery.Sql.Pattern

/-!
# The value of an expression

An expression is evaluated in a scope, which gives the datum and the affinity of every column. Only
columns have an affinity; what is computed from them has none. Conditions follow the three-valued
tables: a comparison with a missing datum is unknown.
-/

namespace CorpusQuery.Sql

/-- A column in a scope. -/
structure Bound where
  affinity : Affinity
  datum : Datum
deriving DecidableEq

/-- The columns that an expression can see. -/
abbrev Scope := ColumnName → Option Bound

/-! ## Functions -/

/-- The characters without every occurrence of a part, replaced by others; `skip` characters of an
occurrence are still to be dropped. -/
def replaceAll (part new : List Char) (skip : Nat) : List Char → List Char
  | [] => []
  | c :: cs =>
    match skip with
    | n + 1 => replaceAll part new n cs
    | 0 =>
      if part.isPrefixOf (c :: cs) then new ++ replaceAll part new (part.length - 1) cs
      else c :: replaceAll part new 0 cs

/-- The function `replace`. An empty part is found nowhere. -/
def replaceDatum (d part new : Datum) : Datum :=
  match d.asText?, part.asText?, new.asText? with
  | some s, some p, some n =>
    if p.isEmpty then d else .text (.ofList (replaceAll p.toList n.toList 0 s.toList))
  | _, _, _ => .null

/-- The items from a place on. Places count from one, negative ones from the end, and what would lie
before the first item counts but is not there. -/
def sliceFrom {α : Type} (start length : Int) (items : List α) : List α :=
  let first := if start < 0 then start + items.length else if start = 0 then -1 else start - 1
  let reach := if first < 0 then length + first else length
  (items.drop first.toNat).take reach.toNat

/-- The function `substr` for a length that is not negative. -/
def substrDatum (d start length : Datum) : Datum :=
  match d, start, length with
  | .bytes bs, .int i, .int n => .bytes (sliceFrom i n bs)
  | d, .int i, .int n =>
    match d.asText? with
    | some s => .text (.ofList (sliceFrom i n s.toList))
    | none => .null
  | _, _, _ => .null

/-- The value of a function. -/
def callFunction (function : String) (args : List Datum) : Datum :=
  match function, args with
  | "replace", [d, part, new] => replaceDatum d part new
  | "substr", [d, start, length] => substrDatum d start length
  | _, _ => .null

/-! ## Operators -/

/-- The truth of a comparison with a known outcome. -/
def BinaryOp.accepts : BinaryOp → Ordering → Bool
  | eq, o => o == .eq
  | ne, o => o != .eq
  | lt, o => o == .lt
  | gt, o => o == .gt
  | le, o => o != .gt
  | ge, o => o != .lt
  | and, _ | or, _ | like, _ | notLike, _ | glob, _ => false

/-- The truth of a pattern on a datum, both taken as texts. -/
def patternTruth (read : List Char → Pattern) (d pattern : Datum) : Truth :=
  match d.asText?, pattern.asText? with
  | some s, some p => some ((read p.toList).covers s.toList)
  | _, _ => none

/-- The truth of an operator on two data that are drawn towards `a` where they are compared. -/
def BinaryOp.truth (op : BinaryOp) (a : Affinity) (l r : Datum) : Truth :=
  match op with
  | and => l.truth.and r.truth
  | or => l.truth.or r.truth
  | like => patternTruth Pattern.ofLike l r
  | notLike => (patternTruth Pattern.ofLike l r).not
  | glob => patternTruth Pattern.ofGlob l r
  | op => (l.compareAs a r).map op.accepts

/-! ## Evaluation -/

namespace Expr

/-- The affinity of an expression, which only columns have. -/
def affinity? (scope : Scope) : Expr → Option Affinity
  | column qualifier name => (scope ⟨qualifier, name⟩).map (·.affinity)
  | group e => e.affinity? scope
  | _ => none

mutual

/-- The datum of an expression. A column that is not in scope is missing. -/
def eval (scope : Scope) : Expr → Datum
  | column qualifier name => ((scope ⟨qualifier, name⟩).map (·.datum)).getD .null
  | value v => .ofValue v
  | binary l op r =>
    .ofTruth (op.truth (Datum.commonAffinity (l.affinity? scope) (r.affinity? scope))
      (l.eval scope) (r.eval scope))
  | inList e items negated =>
    let t := (e.eval scope).memberTruth ((e.affinity? scope).getD .raw) (evalAll scope items)
    .ofTruth (if negated then t.not else t)
  | call function args => callFunction function (evalAll scope args)
  | not e => .ofTruth (e.eval scope).truth.not
  | group e => e.eval scope

/-- The data of expressions. -/
def evalAll (scope : Scope) : List Expr → List Datum
  | [] => []
  | e :: es => e.eval scope :: evalAll scope es

end

/-- The truth of a condition. -/
def truth (scope : Scope) (e : Expr) : Truth := (e.eval scope).truth

/-! ## Lemmas -/

@[simp] theorem truth_and (scope : Scope) (l r : Expr) :
    (binary l .and r).truth scope = (l.truth scope).and (r.truth scope) := by
  simp [truth, eval, BinaryOp.truth]

@[simp] theorem truth_or (scope : Scope) (l r : Expr) :
    (binary l .or r).truth scope = (l.truth scope).or (r.truth scope) := by
  simp [truth, eval, BinaryOp.truth]

@[simp] theorem truth_not (scope : Scope) (e : Expr) :
    (not e).truth scope = (e.truth scope).not := by
  simp [truth, eval]

@[simp] theorem truth_group (scope : Scope) (e : Expr) :
    (group e).truth scope = e.truth scope := by
  simp [truth, eval]

theorem evalAll_eq_map (scope : Scope) (es : List Expr) :
    evalAll scope es = es.map (·.eval scope) := by
  induction es with
  | nil => rfl
  | cons e es ih => rw [evalAll, ih, List.map_cons]

end Expr

end CorpusQuery.Sql

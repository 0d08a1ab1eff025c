import CorpusQuery.Kind
import CorpusQuery.RowExpr
import CorpusQuery.Table
import CorpusQuery.Truth
import CorpusQuery.Wildcard

/-!
# The value of a row expression

An expression is evaluated on a row, seen as a partial map from column names to values. Boolean
expressions take three-valued truth and have it as their value, with `1` and `0` for true and false
and a missing value for unknown; conversely a whole number can stand where a truth is wanted, while
a text or a real number there is an error. The right operand of a conjunction or disjunction is not
looked at when the left one decides alone, so an error in it can go unnoticed.
-/

namespace CorpusQuery

/-- The values of a row by column name. -/
abbrev Row := String → Option Value

/-- A row given by its cells. The first column of a name counts. -/
def Row.ofCells (columns : List String) (cells : List Value) : Row := fun name ↦
  (columns.idxOf? name).bind (cells[·]?)

/-- A row given by its record. The last column of a name counts. -/
def Row.ofRecord (columns : List String) (cells : List Value) : Row := fun name ↦
  (Table.record columns cells).lookup name

/-- Why an expression has no value. -/
inductive RowError where
  | columnNotFound (name : String)
  | notBoolean (actual : Kind)
deriving DecidableEq, Repr

def RowError.message : RowError → String
  | columnNotFound name => "Column not found: " ++ name
  | notBoolean actual => "Type mismatch: expected boolean, got " ++ actual.noun

/-! ## Comparing values -/

namespace Value

/-- How values of different kinds compare: as numbers if both are, and else as texts. -/
def looseOrder? (a b : Value) : Option Ordering :=
  match a.toNumber?, b.toNumber? with
  | some x, some y => Number.order x y
  | _, _ => do return compare (← a.asText?) (← b.asText?)

/-- The truth of a comparison. It is unknown for missing values and for what is not a number. -/
def comparisonTruth (a : Value) (op : Comparison) (b : Value) : Truth :=
  if a.isNull || b.isNull then none
  else ((a.order? b).orElse fun _ ↦ looseOrder? a b).map op.accepts

/-- The truth of membership. It is unknown for a missing value only. -/
def memberTruth (v : Value) (values : List Value) : Truth :=
  if v.isNull then none
  else some (values.any fun w ↦ (v.comparisonTruth .equal w).holds)

/-- The truth of a test on the text of a value. -/
def testTruth (v : Value) (test : TextTest) (pattern : String) : Truth :=
  v.asText?.map fun s ↦
    match test with
    | .startsWith => Text.startsWith s pattern
    | .endsWith => Text.endsWith s pattern
    | .contains => Text.contains s pattern
    | .like => wildcardMatch s pattern

/-- A truth as a value. -/
def ofTruth : Truth → Value
  | some true => .int 1
  | some false => .int 0
  | none => .null

/-- A value where a truth is wanted. -/
def truth : Value → Except RowError Truth
  | .null => .ok none
  | .int n => .ok (some (n != 0))
  | .real _ => .error (.notBoolean .real)
  | .text _ => .error (.notBoolean .text)

@[simp] theorem truth_ofTruth (t : Truth) : (ofTruth t).truth = .ok t := by
  rcases t with _ | _ | _ <;> rfl

end Value

/-! ## Evaluation -/

namespace RowExpr

/-- The value of an expression on a row. -/
def eval (row : Row) : RowExpr → Except RowError Value
  | .column name =>
    match row name with
    | some v => .ok v
    | none => .error (.columnNotFound name)
  | .literal v => .ok v
  | .strip e c => do
    let v ← e.eval row
    return match v.asText? with
      | some s => .text (Text.without s c)
      | none => .null
  | .compare l op r => do
    let a ← l.eval row
    let b ← r.eval row
    return .ofTruth (a.comparisonTruth op b)
  | .test e t pattern => do
    let v ← e.eval row
    return .ofTruth (v.testTruth t pattern)
  | .isIn e values => do
    let v ← e.eval row
    return .ofTruth (v.memberTruth values)
  | .and l r => do
    let s ← (← l.eval row).truth
    if s = some false then return .ofTruth (some false)
    let t ← (← r.eval row).truth
    return .ofTruth (s.and t)
  | .or l r => do
    let s ← (← l.eval row).truth
    if s = some true then return .ofTruth (some true)
    let t ← (← r.eval row).truth
    return .ofTruth (s.or t)
  | .not e => do
    let t ← (← e.eval row).truth
    return .ofTruth t.not

/-- A column that the row has gives its value. -/
theorem eval_column {row : Row} {name : String} {v : Value} (h : row name = some v) :
    (RowExpr.column name).eval row = .ok v := by
  rw [eval, h]

/-- The truth of an expression on a row. -/
def truth (row : Row) (e : RowExpr) : Except RowError Truth := do (← e.eval row).truth

/-- Whether an expression is true on a row. -/
def holds (row : Row) (e : RowExpr) : Except RowError Bool := do return (← e.truth row).holds

/-- Whether all expressions are true on a row. Those after the first that is not are not looked
at. -/
def allHold (row : Row) : List RowExpr → Except RowError Bool
  | [] => .ok true
  | e :: es => do
    if ← e.holds row then allHold row es else return false

end RowExpr

end CorpusQuery

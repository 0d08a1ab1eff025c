import CorpusQuery.Catalog
import CorpusQuery.CompileError
import CorpusQuery.Query
import CorpusQuery.RowExpr.Eval
import CorpusQuery.Table.Top

/-!
# Filtering rows of a flat table

Each predicate of a query becomes one row expression on the column that backs its field, and a row
passes when all of them hold. A feature with several values in one cell is met by looking for the
value inside the cell.
-/

namespace CorpusQuery

/-- An expression and the column it is about. -/
structure FilterStep where
  column : String
  expr : RowExpr
deriving DecidableEq

/-- A conjunction of expressions. -/
structure RowFilter where
  steps : List FilterStep := []
deriving DecidableEq

namespace RowFilter

/-! ## Compiling predicates -/

/-- The comparison that an operator stands for, if it stands for one. -/
def comparison? : Operator → Option Comparison
  | .equal => some .equal
  | .less => some .less
  | .greater => some .greater
  | .atMost => some .atMost
  | .atLeast => some .atLeast
  | .like | .isIn | .startsWith | .middle | .endsWith => none

/-- The text occurs, but not at either end. -/
def inMiddle (target : RowExpr) (s : String) : RowExpr :=
  .and (.and (.test target .contains s) (.not (.test target .startsWith s)))
    (.not (.test target .endsWith s))

/-- The backing column of a field, without the character that the field leaves out. -/
def target (f : Field) : RowExpr :=
  match f.strip with
  | some c => .strip (.column f.column) c
  | none => .column f.column

/-- One of the texts of a predicate passes a test. -/
def anyText (p : Predicate) (test : String → RowExpr) : Except CompileError RowExpr :=
  (CompileError.missingValue p.field).require (RowExpr.any? (p.operand.asTexts.map test))

/-- The comparison of a field with the first value of a predicate. -/
def comparedWith (f : Field) (p : Predicate) : Except CompileError RowExpr := do
  let op ← (CompileError.unsupportedOperator p.field p.operator.text).require
    (comparison? p.operator)
  let v ← (CompileError.missingValue p.field).require p.operand.values.head?
  return .compare (target f) op (.literal v)

/-- The expression for a predicate, apart from its negation. -/
def positiveExpr (f : Field) (p : Predicate) : Except CompileError RowExpr :=
  let tests (t : TextTest) : Except CompileError RowExpr := anyText p (.test (target f) t)
  match p.operator with
  | .startsWith => tests .startsWith
  | .endsWith => tests .endsWith
  | .middle => anyText p (inMiddle (target f))
  | .like => do
    let s ← (CompileError.missingValue p.field).require p.operand.asTexts.head?
    return .test (target f) .like s
  | .isIn =>
    if f.kind = .feature .anyOf then tests .contains
    else .ok (.isIn (target f) p.operand.values)
  | .equal => if f.kind = .feature .anyOf then tests .contains else comparedWith f p
  | _ => comparedWith f p

/-- The step for a predicate. -/
def compileStep (catalog : Catalog) (p : Predicate) : Except CompileError FilterStep :=
  match catalog.get? p.field with
  | none => .error (.unknownField p.field)
  | some f => do
    let e ← positiveExpr f p
    return ⟨f.column, if p.negated then .not e else e⟩

/-- The filter for the predicates of a query; the query may be empty. -/
def compileSteps (catalog : Catalog) (q : Query) : Except CompileError RowFilter :=
  (q.predicates.mapM (compileStep catalog)).map RowFilter.mk

/-- The filter for a query that has predicates. -/
def compile (catalog : Catalog) (q : Query) : Except CompileError RowFilter :=
  if q.isEmpty then .error .emptyQuery else compileSteps catalog q

/-! ## Filtering -/

/-- Whether a row passes the filter. -/
def holds (f : RowFilter) (row : Row) : Except RowError Bool :=
  RowExpr.allHold row (f.steps.map (·.expr))

/-- The rows that pass. -/
def keepRows (f : RowFilter) (columns : List String) :
    List (List Value) → Except RowError (List (List Value))
  | [] => .ok []
  | row :: rows => do
    let kept ← f.holds (.ofCells columns row)
    let rest ← f.keepRows columns rows
    return if kept then row :: rest else rest

/-- The table of the rows that pass. -/
def apply (f : RowFilter) (t : Table) : Except RowError Table :=
  (f.keepRows t.columns t.rows).map fun rows ↦ { t with rows }

end RowFilter

/-- A query applied to a table that is already there: first its predicates, then its `top`. -/
structure TableFilter where
  filter : RowFilter
  top : Option Nat := none

namespace TableFilter

def compile (catalog : Catalog) (q : Query) : Except CompileError TableFilter := do
  return { filter := ← RowFilter.compileSteps catalog q, top := q.top }

def apply (f : TableFilter) (t : Table) : Except RowError Table := do
  let kept ← f.filter.apply t
  return match f.top with
    | some n => kept.topPerForm n
    | none => kept

end TableFilter

end CorpusQuery

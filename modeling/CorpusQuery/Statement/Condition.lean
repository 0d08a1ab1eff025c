import CorpusQuery.Catalog
import CorpusQuery.CompileError
import CorpusQuery.Glob
import CorpusQuery.Query
import CorpusQuery.QuerySettings
import CorpusQuery.Schema
import CorpusQuery.Sql.Expr

/-!
# Conditions of a statement

Each predicate of a query is planned on its own. Most plans are a condition on the facts table or on
a table that is joined once. A feature with several values is looked up in its satellite instead,
whenever the predicate asks for real values; every such plan has a join of its own, since two values
of one feature stand in two rows, so its condition depends on the alias that the join is given.
-/

namespace CorpusQuery

/-- The backend that statements are made for. -/
structure Backend where
  catalog : Catalog
  schema : Schema
  settings : QuerySettings

namespace Backend

/-- Word forms are told apart by their part of speech if the settings say so and the corpus has the
columns for it. -/
def posx (b : Backend) : Bool :=
  b.settings.posx && b.schema.hasColumn Relation.facts.table "posx"
    && b.schema.hasColumn Relation.facts.table "frequencyx"

/-- The column that holds the values of a column in this mode. -/
def physicalColumn (b : Backend) (r : Relation) (column : String) : String :=
  if r = .facts ∧ b.posx then
    match column with
    | "pos" => "posx"
    | "frequency" => "frequencyx"
    | other => other
  else column

/-- The column of a field, without the character that the field leaves out. -/
def columnExpr (b : Backend) (f : Field) (r : Relation) : Sql.Expr :=
  let column := Sql.Expr.of r.aliasName (b.physicalColumn r f.column)
  match f.strip with
  | some c => .call "replace" [column, .value (.text c.toString), .value (.text "")]
  | none => column

end Backend

/-- What a predicate asks of a statement. -/
inductive ConditionPlan where
  /-- A condition on the facts table or on a table that is joined once. -/
  | shared (condition : Sql.Expr) (relation : Relation) (touched : Option String)
      (unanchored : Bool)
  /-- One of these values stands in a satellite. -/
  | satellite (relation : Relation) (column : String) (first : Value) (rest : List Value)

namespace ConditionPlan

/-- The condition, given the alias of the satellite's join. -/
def condition (aliasName : String) : ConditionPlan → Sql.Expr
  | .shared condition _ _ _ => condition
  | .satellite _ column first [] => .binary (.of aliasName column) .eq (.value first)
  | .satellite _ column first rest =>
    .inList (.of aliasName column) ((first :: rest).map .value) false

/-- Whether a row of the facts table can meet several rows of the join. -/
def fansOut : ConditionPlan → Bool
  | .satellite _ _ _ rest => !rest.isEmpty
  | .shared _ _ _ _ => false

end ConditionPlan

/-! ## Positional conditions -/

namespace Backend

/-- A pattern on a column of the facts table. -/
def matchesGlob (column pattern : String) : Sql.Expr :=
  .binary (.of Relation.facts.aliasName column) .glob (.value (.text pattern))

/-- Whether the facts table has the reversed word forms. -/
def hasReversed (b : Backend) : Bool := b.schema.hasColumn Relation.facts.table "revform"

/-- The word form starts with a text. -/
def startsCondition (s : String) : Sql.Expr := matchesGlob "form" (Glob.startingWith s)

/-- The word form ends with a text; an index can serve it on the reversed form. -/
def endsCondition (b : Backend) (s : String) : Sql.Expr :=
  if b.hasReversed then matchesGlob "revform" (Glob.startingWith (Glob.reversed s))
  else matchesGlob "form" (Glob.endingWith s)

/-- The word form contains a text, but not at either end. -/
def middleCondition (b : Backend) (s : String) : Sql.Expr :=
  .binary (.binary (matchesGlob "form" (Glob.containing s)) .and (startsCondition s).negate) .and
    (b.endsCondition s).negate

/-- The condition for one text of a positional predicate. -/
def positionalCondition (b : Backend) (op : Operator) (s : String) : Sql.Expr :=
  match op with
  | .startsWith => startsCondition s
  | .endsWith => b.endsCondition s
  | _ => b.middleCondition s

/-- The column whose index serves a positional predicate. -/
def positionalTouch (b : Backend) (p : Predicate) : Option String :=
  match p.operator, p.negated with
  | .startsWith, false => some "form"
  | .endsWith, false => if b.hasReversed then some "revform" else none
  | _, _ => none

/-- Plans a positional predicate. -/
def planPositional (b : Backend) (p : Predicate) : Except CompileError ConditionPlan :=
  match Sql.Expr.orAll? (p.operand.asTexts.map (b.positionalCondition p.operator)) with
  | none => .error (.missingValue p.field)
  | some e =>
    .ok (.shared (if p.negated then e.negate else e) .facts (b.positionalTouch p)
      (p.operator == .middle))

/-! ## Other conditions -/

/-- The operator of a condition with one value, if there is such a condition. -/
def conditionOp? : Operator → Option Sql.BinaryOp
  | .equal => some .eq
  | .less => some .lt
  | .greater => some .gt
  | .atMost => some .le
  | .atLeast => some .ge
  | .like => some .like
  | .isIn | .startsWith | .middle | .endsWith => none

/-- Plans a look-up in a satellite. -/
def planSatellite (p : Predicate) (f : Field) (r : Relation) :
    Except CompileError ConditionPlan :=
  match p.operand.values with
  | [] => .error (.missingValue p.field)
  | first :: rest => .ok (.satellite r f.column first rest)

/-- The condition on the column of a field, apart from negation. -/
def columnCondition (b : Backend) (p : Predicate) (f : Field) (r : Relation) :
    Except CompileError Sql.Expr :=
  match p.operator with
  | .isIn => .ok (.inList (b.columnExpr f r) (p.operand.values.map .value) false)
  | op => do
    let compare ← (CompileError.unsupportedOperator p.field op.text).require (conditionOp? op)
    let v ← (CompileError.missingValue p.field).require p.operand.values.head?
    return .binary (b.columnExpr f r) compare (.value v)

/-- Whether an index on the column of a field serves a predicate. -/
def touchesColumn (p : Predicate) (f : Field) (r : Relation) : Bool :=
  r == .facts && f.strip.isNone && !p.negated && !p.isUnanchoredLike

/-- Plans a condition on the column of a field. -/
def planColumn (b : Backend) (p : Predicate) (f : Field) (r : Relation) :
    Except CompileError ConditionPlan := do
  let e ← b.columnCondition p f r
  return .shared (if p.negated then e.negate else e) r
    (if touchesColumn p f r then some f.column else none) p.isUnanchoredLike

/-- Satellites hold real values only, one row per value: neither the absence of a value nor the
placeholder can be found there. -/
def satelliteFor? (p : Predicate) (f : Field) : Option Relation :=
  if !p.negated && (p.operator == .equal || p.operator == .isIn) && !p.operand.hasPlaceholder then
    f.satellite
  else none

/-- Plans a predicate. -/
def plan (b : Backend) (p : Predicate) : Except CompileError ConditionPlan :=
  match b.catalog.get? p.field with
  | none => .error (.unknownField p.field)
  | some f =>
    match f.relation with
    | none => .error (.noTable p.field)
    | some r =>
      if !b.schema.hasTable r.table then .error (.missingTable r.table)
      else if p.operator.isPositional then b.planPositional p
      else match satelliteFor? p f with
        | some s => planSatellite p f s
        | none => b.planColumn p f r

end Backend

end CorpusQuery

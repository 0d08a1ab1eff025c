import CorpusQuery.Catalog.Relational
import CorpusQuery.IndexUse
import CorpusQuery.Sql.Select
import CorpusQuery.Statement.Condition

/-!
# Statements over a relational corpus

A statement selects the columns of the facts table and of the tables that hang off it, from the
rows that satisfy the conditions of all plans. Features are joined strictly, since every word form
has them; lemmas and n-grams are joined loosely, since they may be missing. When a row can meet
several rows of a satellite, only distinct rows are asked for.

When forms are told apart by part of speech the statement fetches twice as many rows as wanted,
because rows that agree in all shown columns are merged afterwards.
-/

namespace CorpusQuery

/-- A statement, and what was decided on the way to it. -/
structure Statement where
  select : Sql.Select
  indexHint : Option String
  limit : Nat
  posx : Bool

namespace Statement

def sql (s : Statement) : String := s.select.fragment.sql

/-- The values bound to the placeholders, in order. -/
def args (s : Statement) : List Value := s.select.fragment.args

def whereClause (s : Statement) : String := s.select.conditionFragment.sql

def fromClause (s : Statement) : String := s.select.fromFragment.sql

def orderBy (s : Statement) : String := s.select.orderFragment.sql

def distinct (s : Statement) : Bool := s.select.distinct

end Statement

/-- The plans of a statement and what they need. -/
structure Assembly where
  conditions : List Sql.Expr
  relations : List Relation := []
  satellites : List (Relation × String) := []
  distinct : Bool := false
  index : IndexUse := {}

namespace Assembly

/-! ## From plans to an assembly -/

/-- The alias of the join number `n` of a satellite, counted from zero: `d`, `d2`, `d3`, … -/
def satelliteAlias (r : Relation) (n : Nat) : String :=
  if n == 0 then r.aliasName else r.aliasName ++ toString (n + 1)

/-- Gives every satellite plan its alias; `seen` are the satellites joined before. -/
def label (seen : List Relation) : List ConditionPlan → List (ConditionPlan × String)
  | [] => []
  | .satellite r column first rest :: plans =>
    (.satellite r column first rest, satelliteAlias r (seen.count r)) :: label (r :: seen) plans
  | plan :: plans => (plan, "") :: label seen plans

/-- Notes what a plan says about indexes. -/
def noteIndex (u : IndexUse) : ConditionPlan → IndexUse
  | .shared _ _ touched unanchored =>
    let u := if unanchored then u.markUnanchored else u
    match touched with
    | some column => u.touch column
    | none => u
  | .satellite _ _ _ _ => u

/-- What the plans of a query need. -/
def ofPlans (plans : List ConditionPlan) : Assembly :=
  let labelled := label [] plans
  { conditions := labelled.map fun (plan, aliasName) ↦ plan.condition aliasName
    relations := plans.filterMap fun
      | .shared _ r _ _ => if r = .facts then none else some r
      | .satellite _ _ _ _ => none
    satellites := labelled.filterMap fun
      | (.satellite r _ _ _, aliasName) => some (r, aliasName)
      | (.shared _ _ _ _, _) => none
    distinct := plans.any (·.fansOut)
    index := plans.foldl noteIndex {} }

/-- The assembly of a statement for the rows of the given word forms. -/
def ofWords (words : List String) : Assembly :=
  { conditions :=
      [.inList (.of Relation.facts.aliasName "form") (words.map fun w ↦ .value (.text w)) false]
    index := IndexUse.touch {} "form" }

def requires (a : Assembly) (r : Relation) : Bool := a.relations.contains r

/-- The assembly with one more table; the facts table is always there. -/
def require (a : Assembly) (r : Relation) : Assembly :=
  if r = .facts ∨ a.requires r then a else { a with relations := a.relations ++ [r] }

end Assembly

namespace Backend

/-! ## Order -/

/-- The field that the settings order by. -/
def orderField (b : Backend) : Except CompileError (Field × Relation) :=
  match (b.catalog.get? (Catalog.resolve b.settings.orderBy)).filter (·.isSortable) with
  | none => .error (.unknownOrder b.settings.orderBy)
  | some f =>
    match f.relation with
    | none => .error (.unknownOrder b.settings.orderBy)
    | some r =>
      if b.schema.hasTable r.table then .ok (f, r) else .error (.missingTable r.table)

/-- The column whose index gives the order. -/
def orderIndexColumn (f : Field) (r : Relation) : Option String :=
  if r == .facts && f.strip.isNone && indexedColumns.contains f.column then some f.column
  else none

/-! ## Output -/

/-- Columns of the facts table that are not shown. -/
def hiddenColumns : List String := ["featid", "revform", "lemmac", "posx", "frequencyx"]

/-- Columns of the lemmas table that are shown. -/
def lemmaStatistics : List String := ["lemmafreq", "lemmalen", "amblemma", "comparts"]

/-- The n-gram tables with the name that their frequency is shown under. -/
def gramColumns : List (Relation × String) :=
  [(.initGrams, "initgramfreq"), (.finGrams, "fingramfreq"), (.bigrams, "bigramfreq")]

/-- Tables that are joined only for what they show. -/
def outputRelations (b : Backend) : List Relation :=
  let features := if b.schema.hasTable Relation.features.table
      && b.schema.hasColumn Relation.features.table "featid" then [Relation.features] else []
  let lemmas := if b.settings.lemmas then [Relation.lemmas] else []
  let grams := if b.settings.grams then gramColumns.map (·.1) else []
  features ++ (lemmas ++ grams).filter fun r ↦ b.schema.hasTable r.table

/-- A shown column: what it shows and its name, which is written when it is not the column's own. -/
structure OutputColumn where
  expr : Sql.Expr
  name : String
  renamed : Bool := false

/-- Drops columns whose name was shown before. -/
def firstOfEachName (seen : List String) : List OutputColumn → List OutputColumn
  | [] => []
  | c :: cs =>
    if seen.contains c.name then firstOfEachName seen cs
    else c :: firstOfEachName (c.name :: seen) cs

/-- The columns of the facts table. -/
def factColumns (b : Backend) : List OutputColumn :=
  ((b.schema.columns Relation.facts.table).filter (!hiddenColumns.contains ·)).map fun column ↦
    let physical := b.physicalColumn .facts column
    ⟨.of Relation.facts.aliasName physical, column, physical != column⟩

/-- The columns of the features table. -/
def featureColumns (b : Backend) : List OutputColumn :=
  ((b.schema.columns Relation.features.table).filter (!Catalog.featureKeys.contains ·)).map
    fun column ↦ ⟨.of Relation.features.aliasName column, column, false⟩

/-- The columns of the lemmas table. -/
def lemmaColumns (b : Backend) : List OutputColumn :=
  (lemmaStatistics.filter (b.schema.hasColumn Relation.lemmas.table)).map fun column ↦
    ⟨.of Relation.lemmas.aliasName column, column, false⟩

/-- All shown columns. -/
def outputColumns (b : Backend) (a : Assembly) : List OutputColumn :=
  firstOfEachName [] (b.factColumns
    ++ (if a.requires .features then b.featureColumns else [])
    ++ (if b.settings.lemmas && a.requires .lemmas then b.lemmaColumns else [])
    ++ if b.settings.grams then
        (gramColumns.filter fun (r, _) ↦ a.requires r).map fun (r, name) ↦
          ⟨.of r.aliasName "frequency", name, true⟩
      else [])

def OutputColumn.item (c : OutputColumn) : Sql.SelectItem :=
  { expr := c.expr, aliasName := if c.renamed then some c.name else none }

/-! ## Joins -/

/-- A join of a table of the corpus. -/
def joinOf (kind : Sql.JoinKind) (r : Relation) (aliasName : String) (condition : Sql.Expr) :
    Sql.Join :=
  { kind, table := { table := r.table }, aliasName := some aliasName, condition }

/-- Two columns are equal. -/
def sameColumn (left right : Sql.Expr) : Sql.Expr := .binary left .eq right

/-- The rows with the features of a word form. -/
def sameFeatures (aliasName : String) : Sql.Expr :=
  sameColumn (.of aliasName "featid") (.of Relation.facts.aliasName "featid")

/-- The row of the lemma of a word form. -/
def sameLemma (b : Backend) : Sql.Expr :=
  let l := Relation.lemmas.aliasName
  let w := Relation.facts.aliasName
  .binary (sameColumn (.of l "lemma") (.of w "lemma")) .and
    (sameColumn (.of l "pos") (.of w (if b.posx then "posx" else "pos")))

/-- Three characters of an expression from a place on. -/
def trigram (e : Sql.Expr) (start : Int) : Sql.Expr :=
  .call "substr" [e, .value (.int start), .value (.int 3)]

/-- The part of the word form that an n-gram table is keyed by. -/
def gramKey : Relation → Sql.Expr
  | .initGrams => trigram (.of Relation.facts.aliasName "form") 1
  | .finGrams => trigram (.of Relation.facts.aliasName "form") (-3)
  | _ => .of Relation.facts.aliasName "form"

/-- All joins, strict ones and loose ones in the order of the tables. -/
def joins (b : Backend) (a : Assembly) : List Sql.Join :=
  let features := Relation.features.aliasName
  let lemmas := Relation.lemmas.aliasName
  (if a.requires .features then [joinOf .inner .features features (sameFeatures features)] else [])
    ++ (if a.requires .lemmas then [joinOf .left .lemmas lemmas b.sameLemma] else [])
    ++ (a.satellites.map fun (r, aliasName) ↦ joinOf .inner r aliasName (sameFeatures aliasName))
    ++ (Relation.ngrams.filter a.requires).map fun r ↦
      joinOf .left r r.aliasName (sameColumn (.of r.aliasName "form") (gramKey r))

/-! ## Assembling -/

/-- The number of rows to fetch. Doubling it stays within 64 bits. -/
def fetchLimit (b : Backend) : Nat :=
  if b.posx then min (2 * b.settings.rowLimit) (Nat.pow 2 64 - 1) else b.settings.rowLimit

/-- The statement for an assembly. -/
def assemble (b : Backend) (a : Assembly) : Except CompileError Statement := do
  let (f, r) ← b.orderField
  let a := (r :: b.outputRelations).foldl Assembly.require a
  let hint := a.index.choose b.settings.indexPolicy (orderIndexColumn f r) b.posx b.schema
  let direction : Sql.Direction := if b.settings.ascending then .ascending else .descending
  return {
    select := {
      distinct := a.distinct
      items := (b.outputColumns a).map (·.item)
      sources := [{ table := { table := Relation.facts.table },
                    aliasName := some Relation.facts.aliasName, index := hint }]
      joins := b.joins a
      condition := Sql.Expr.andAll? a.conditions
      order := [{ expr := b.columnExpr f r, direction := some direction }]
      limit := some b.fetchLimit }
    indexHint := hint
    limit := b.fetchLimit
    posx := b.posx }

/-- The statement for a query. -/
def compile (b : Backend) (q : Query) : Except CompileError Statement :=
  if q.isEmpty then .error .emptyQuery
  else do b.assemble (.ofPlans (← q.predicates.mapM b.plan))

/-- The statement for the rows of given word forms. -/
def compileWords (b : Backend) (words : List String) : Except CompileError Statement :=
  if words.isEmpty then .error .emptyQuery else b.assemble (.ofWords words)

end Backend

end CorpusQuery

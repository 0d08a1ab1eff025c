import CorpusQuery.Catalog.Columnar
import CorpusQuery.Catalog.Relational
import CorpusQuery.Database.Totals
import CorpusQuery.Outcome
import CorpusQuery.Query.Reading
import CorpusQuery.RowFilter
import CorpusQuery.Statement
import CorpusQuery.Table.Finish

/-!
# Relational corpora

A relational corpus is a database with a facts table. A query is compiled to a statement, the
statement selects rows, and the rows are finished to a table: forms that are told apart by part of
speech are merged where they agree in everything that is shown, and the columns are arranged.

A list of word forms can be queried too. Then the statement selects the rows of these forms, and the
query filters the finished table.
-/

namespace CorpusQuery

/-- What is found where a database should be. -/
inductive DatabaseFile where
  | missing
  /-- A file of these bytes, which is a database only if there are none. -/
  | raw (bytes : List UInt8)
  | stored (db : Database)

/-- The database in a file. -/
def DatabaseFile.read (f : DatabaseFile) (path : String) : Except DatabaseError Database :=
  match f with
  | missing => .error (.notFound path)
  | raw [] => .ok {}
  | raw _ => .error .notADatabase
  | stored db => .ok db

/-- A corpus in a database. -/
structure Corpus where
  database : Database
  schema : Schema
  catalog : Catalog
  totals : Totals

namespace Corpus

/-! ## Opening -/

/-- The corpus in a database. -/
def ofDatabase (db : Database) : Except DatabaseError Corpus := do
  let schema := db.schema
  if !schema.hasTable Relation.facts.table then throw (.missingTable Relation.facts.table)
  return { database := db, schema, catalog := .relational schema, totals := ← db.totals schema }

/-- Opens the corpus in a file. -/
def open? (path : String) (file : DatabaseFile) : Except DatabaseError Corpus := do
  ofDatabase (← file.read path)

/-- What is said when a corpus cannot be opened. -/
def openMessage (e : DatabaseError) : String := "Database error: " ++ e.message

/-! ## Running statements -/

/-- What makes statements for the corpus. -/
def backend (c : Corpus) (settings : QuerySettings) : Backend :=
  { catalog := c.catalog, schema := c.schema, settings }

/-- The steps that finish the rows of a statement. -/
def finishSteps (c : Corpus) (s : Statement) (settings : QuerySettings) :
    List Table.FinishStep :=
  (if s.posx then [.distinct Table.rowKey, .cap settings.rowLimit] else [])
    ++ [.anchor] ++ if settings.relative then [.relative c.totals] else []

/-- The rows of a statement as a table that is not finished. -/
def fetch (c : Corpus) (s : Statement) : Except DatabaseError Table := do
  let (columns, rows) ← c.database.select s.select
  return { columns, rows := rows.map (·.map (·.toValue)) }

/-- Runs a statement and finishes its table. -/
def run (c : Corpus) (s : Statement) (settings : QuerySettings) : Except DatabaseError Table :=
  (c.fetch s).map fun t ↦ t.finish (c.finishSteps s settings)

/-! ## Querying -/

/-- Reads, compiles and runs a query. -/
def query (c : Corpus) (input : String) (settings : QuerySettings) : Outcome :=
  match Query.read c.catalog c.totals input with
  | .error errors => .rejected (ClauseError.messages errors)
  | .ok q =>
    match (c.backend settings).compile q with
    | .error e => .rejected e.message
    | .ok s =>
      match c.run s settings with
      | .error e => .failed e.userMessage
      | .ok t =>
        .ok (match q.top with
          | some n => t.topPerForm n
          | none => t)

/-- Filters a table by a query about its columns. -/
def narrow (c : Corpus) (t : Table) (input : String) : Outcome :=
  let catalog := Catalog.columnar t.columns
  match Query.read catalog c.totals input with
  | .error errors => .rejected (ClauseError.messages errors)
  | .ok q =>
    match TableFilter.compile catalog q with
    | .error e => .rejected e.message
    | .ok filter =>
      match filter.apply t with
      | .error e => .failed e.message
      | .ok t => .ok t

/-- Runs a query on the rows of given word forms. -/
def queryWords (c : Corpus) (words : List String) (input : String) (settings : QuerySettings) :
    Outcome :=
  match (c.backend settings).compileWords words with
  | .error e => .rejected e.message
  | .ok s =>
    match c.run s settings with
    | .error e => .failed e.userMessage
    | .ok t => c.narrow t input

end Corpus

end CorpusQuery

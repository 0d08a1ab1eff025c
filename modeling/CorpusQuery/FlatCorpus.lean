import CorpusQuery.Catalog.Columnar
import CorpusQuery.Export.Totals
import CorpusQuery.Outcome
import CorpusQuery.Query.Reading
import CorpusQuery.QuerySettings
import CorpusQuery.RowFilter
import CorpusQuery.Table.Finish

/-!
# Corpora in flat exports

A flat corpus is an export that has word forms. A query is compiled to a filter, and the export is
scanned with it.
-/

namespace CorpusQuery

/-- A corpus in an export. -/
structure FlatCorpus where
  source : Export
  catalog : Catalog
  totals : Totals

/-- Why an export cannot be opened as a corpus. -/
inductive FlatCorpusError where
  | file (e : FileError)
  | noForms (path : String)
  | delimiter (c : Char)
deriving DecidableEq, Repr

def FlatCorpusError.message : FlatCorpusError → String
  | file e => "File error: " ++ e.message
  | noForms path => "Invalid corpus: " ++ path ++ " has no 'form' column"
  | delimiter c => "Invalid corpus: delimiter '" ++ c.toString ++ "' is not ASCII"

namespace FlatCorpus

/-! ## Opening -/

/-- The corpus of an export with known totals. -/
def ofExport (e : Export) (totals : Totals) : Except FlatCorpusError FlatCorpus :=
  if e.columnNamesOf.contains "form" then
    .ok { source := e, catalog := .columnar e.columnNamesOf, totals }
  else .error (.noForms e.path)

/-- Opens an export and adds up its totals. -/
def open? (path : String) (format : DelimitedFormat) (content : Option (List UInt8)) :
    Except FlatCorpusError FlatCorpus := do
  let e ← (Export.open? path format content).mapError .file
  ofExport e (← e.totals.mapError .file)

/-- Opens an export whose totals are known from elsewhere. -/
def openWith? (path : String) (format : DelimitedFormat) (content : Option (List UInt8))
    (totals : Totals) : Except FlatCorpusError FlatCorpus := do
  ofExport (← (Export.open? path format content).mapError .file) totals

/-- The format for a delimiter from the settings, which has to fit into a byte. -/
def formatFor (delimiter : Char) : Except FlatCorpusError DelimitedFormat :=
  if delimiter.toNat < 256 then .ok { delimiter := .ofNat delimiter.toNat }
  else .error (.delimiter delimiter)

/-! ## Querying -/

/-- The columns of a result in their final arrangement. -/
def finishSteps (totals : Totals) (settings : QuerySettings) : List Table.FinishStep :=
  [.anchor] ++ if settings.relative then [.relative totals] else []

/-- Runs a filter over the export. -/
def run (c : FlatCorpus) (filter : RowFilter) (top : Option Nat) (settings : QuerySettings) :
    Outcome :=
  let column := Catalog.resolve settings.orderBy
  if !c.source.columnNamesOf.contains column then
    .rejected (CompileError.unknownOrder settings.orderBy).message
  else
    let scan : Export.Scan := {
      filters := filter.steps.map (·.expr)
      sort := some (column, settings.ascending)
      limit := some settings.rowLimit }
    match c.source.collect scan with
    | .error e => .failed e.message
    | .ok table =>
      let table := match top with
        | some n => table.topPerForm n
        | none => table
      .ok (table.finish (finishSteps c.totals settings))

/-- Reads, compiles and runs a query. -/
def query (c : FlatCorpus) (input : String) (settings : QuerySettings) : Outcome :=
  match Query.read c.catalog c.totals input with
  | .error errors => .rejected (ClauseError.messages errors)
  | .ok q =>
    match RowFilter.compile c.catalog q with
    | .error e => .rejected e.message
    | .ok filter => c.run filter q.top settings

end FlatCorpus

end CorpusQuery

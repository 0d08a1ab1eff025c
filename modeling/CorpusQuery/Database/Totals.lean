import CorpusQuery.Database.Selection
import CorpusQuery.Number.Sum
import CorpusQuery.Relation
import CorpusQuery.Totals

/-!
# Totals of a relational corpus

A corpus can record its totals in a table of names and values; a later record of a name takes the
place of an earlier one, and a value that is no number records nothing. A total without a record is
added up from the table that has its counts.
-/

namespace CorpusQuery

open Sql (Datum)

/-! ## Records -/

/-- The table of records. -/
def recordTable : String := "metadata"

/-- The statement that reads the records. -/
def recordSelect : Sql.Select where
  items := [{ expr := .column none "key" }, { expr := .column none "value" }]
  sources := [{ table := { table := recordTable } }]

/-- The name of the type of a datum. -/
def Sql.Datum.typeName : Datum → String
  | null => "Null"
  | int _ => "Integer"
  | real _ => "Real"
  | text _ => "Text"
  | bytes _ => "Blob"

/-- A record. Its name has to be a text. -/
def recordOf (nameColumn : String) : List Datum → Except DatabaseError (String × Datum)
  | .text name :: d :: _ => .ok (name, d)
  | found :: _ => .error (.wrongType found.typeName 0 nameColumn)
  | [] => .error (.wrongType Datum.null.typeName 0 nameColumn)

namespace Database

/-- All records in the order of their insertion. -/
def totalRecords (db : Database) (schema : Schema) :
    Except DatabaseError (List (String × Datum)) := do
  if schema.hasTable recordTable then
    let (names, rows) ← db.select recordSelect
    rows.mapM (recordOf (names.head?.getD ""))
  else return []

/-- The last number recorded under a name. -/
def recorded? (records : List (String × Datum)) (name : String) : Option Float :=
  (records.filterMap fun (key, d) ↦ if key == name then d.toValue.toNumber? else none).getLast?

/-! ## Sums -/

/-- The table and column of the counts of a total. -/
def countColumn : TotalKind → Relation × String
  | .frequency => (.facts, "frequency")
  | .lemmaFrequency => (.lemmas, "lemmafreq")
  | .initGram => (.initGrams, "frequency")
  | .finGram => (.finGrams, "frequency")
  | .bigram => (.bigrams, "frequency")

/-- Adds a datum to a sum. A text that is no number counts as the number it starts with. -/
def addDatum (s : Number.RunningSum) (d : Datum) : Number.RunningSum :=
  match d.numbered with
  | .null => s
  | .int n => s.addWhole n
  | .real x => s.addReal x
  | .text t => s.addReal (Number.leadingFloat t.toList)
  | .bytes bs => s.addReal (Number.leadingFloat (Text.decodeLossy bs).toList)

/-- The sum of data. -/
def sumOf (ds : List Datum) : Float := (ds.foldl addDatum (.exact 0)).toFloat

/-- The sum of the counts of a total; a corpus without the column has none. A sum that is no number
is missing. -/
def countSum (db : Database) (schema : Schema) (kind : TotalKind) : Except DatabaseError Float :=
  let (relation, column) := countColumn kind
  if schema.hasColumn relation.table column then
    let sum := sumOf ((db.table relation.table).column column)
    if sum.isNaN then .error (.wrongType Datum.null.typeName 0 ("TOTAL(" ++ column ++ ")"))
    else .ok sum
  else .ok 0.0

/-- The totals of a corpus. -/
def totals (db : Database) (schema : Schema) : Except DatabaseError Totals := do
  let records ← db.totalRecords schema
  TotalKind.all.foldlM (fun t kind ↦ do
    match recorded? records kind.key with
    | some x => return t.set kind x
    | none => return t.set kind (← db.countSum schema kind)) {}

end Database

end CorpusQuery

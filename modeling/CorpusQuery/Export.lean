import CorpusQuery.Delimited
import CorpusQuery.Kind
import CorpusQuery.RowExpr.Eval
import CorpusQuery.Text.Case

/-!
# Flat exports

An export is a delimited file whose first record names the columns. The kinds of the columns are
found from a sample of the records, and a column without content there is read as text.

An export is scanned lazily: records are read, typed and filtered one by one, so a fault in a
record is noticed only when the scan gets there.
-/

namespace CorpusQuery

/-- How the file is to be read. -/
structure DelimitedFormat where
  delimiter : UInt8 := 44
  hasHeader : Bool := true
  /-- The number of records that the kinds of the columns are found from. -/
  sampleSize : Nat := 1000

/-- Why an export cannot be opened or scanned. -/
inductive FileError where
  | notFound (path : String)
  | noColumns (path : String)
  | record (e : RecordError)
  | columnNotFound (name : String)
  | filter (e : RowError)
deriving DecidableEq, Repr

def FileError.message : FileError → String
  | notFound path => "File not found: " ++ path
  | noColumns path => "Invalid file format: " ++ path ++ " has no columns"
  | record e => "CSV parsing error: " ++ e.message
  | columnNotFound name => "Column not found: " ++ name
  | filter e => "Filter evaluation error: " ++ e.message

/-- A column of an export. -/
structure ExportColumn where
  name : String
  kind : Kind
  ordinal : Nat
deriving DecidableEq, Repr

/-- An open export. -/
structure Export where
  path : String
  format : DelimitedFormat
  records : List RawRecord
  columns : List ExportColumn

namespace Export

/-! ## Reading records -/

/-- The number of cells that every record has to have. -/
def width (records : List RawRecord) : Nat := (records.head?.map (·.cells.length)).getD 0

/-- The first record as texts; a file without records has an empty one. -/
def firstRecord (records : List RawRecord) : Except RecordError (List String) :=
  match records with
  | [] => .ok []
  | r :: _ => r.decode r.cells.length r.mark

/-- The records behind the first one, decoded one by one. -/
def laterRecords (records : List RawRecord) : List (Except RecordError (List String)) :=
  records.tail.map fun r ↦ r.decode (width records) r.mark

/-- The records with data, decoded one by one. The header is read together with the record behind
it, so a bad cell in that one is reported where the header starts. -/
def dataRecords (format : DelimitedFormat) (records : List RawRecord) :
    List (Except RecordError (List String)) :=
  if format.hasHeader then
    match records with
    | header :: first :: rest =>
      first.decode header.cells.length header.mark :: laterRecords (header :: rest)
    | _ => []
  else records.map fun r ↦ r.decode (width records) r.mark

/-! ## Opening -/

/-- The name of a column as queries spell it. -/
def columnName (header : String) : String :=
  Text.lower (.ofList ((Text.trimChars header.toList).map fun c ↦
    if c == ' ' || c == '-' || c == '.' then '_' else c))

/-- The names of the columns; without a header they are numbered. -/
def columnNames (format : DelimitedFormat) (first : List String) : List String :=
  if format.hasHeader then first.map columnName
  else (List.range first.length).map fun i ↦ "column_" ++ toString i

/-- The kinds of all columns with the cells of one more record. -/
def mergeKinds : List Kind → List String → List Kind
  | k :: ks, cell :: cells => k.merge (.ofCell cell) :: mergeKinds ks cells
  | ks, _ => ks

/-- The records that kinds are found from. Without a header the first record is one of them. -/
def sample (format : DelimitedFormat) (first : List String) (records : List RawRecord) :
    List (Except RecordError (List String)) :=
  let later := laterRecords records
  (if format.hasHeader then later else .ok first :: later).take format.sampleSize

/-- A column without content is textual. -/
def settleKind (k : Kind) : Kind := if k = .null then .text else k

/-- Opens an export; `content` is missing when there is no such file. -/
def open? (path : String) (format : DelimitedFormat) (content : Option (List UInt8)) :
    Except FileError Export :=
  match content with
  | none => .error (.notFound path)
  | some bytes => do
    let records := RawRecord.ofBytes format.delimiter bytes
    let first ← (firstRecord records).mapError .record
    if first.isEmpty then throw (.noColumns path)
    let names := columnNames format first
    let sampled ← ((sample format first records).mapM id).mapError .record
    let kinds := sampled.foldl mergeKinds (names.map fun _ ↦ .null)
    let columns := (names.zip kinds).zipIdx.map fun ((name, kind), ordinal) ↦
      { name, kind := settleKind kind, ordinal }
    return { path, format, records, columns }

def columnNamesOf (e : Export) : List String := e.columns.map (·.name)

/-- The first column of a name. -/
def column? (e : Export) (name : String) : Option ExportColumn :=
  e.columns.find? (·.name == name)

/-- The name of the file without directory and extension. -/
def stem (path : String) : String :=
  let file := path.toList.reverse.takeWhile (· != '/')
  match file.dropWhile (· != '.') with
  | _ :: c :: cs => .ofList (c :: cs).reverse
  | _ => .ofList file.reverse

/-! ## Scanning -/

/-- A scan: the rows to keep, the column to sort by and the number of rows to return. -/
structure Scan where
  filters : List RowExpr := []
  sort : Option (String × Bool) := none
  limit : Option Nat := none

/-- The cells of a record as values. -/
def typedRow (e : Export) (cells : List String) : List Value :=
  e.columns.map fun c ↦ c.kind.readCell (cells[c.ordinal]?.getD "")

/-- The rows that pass all filters, up to the first fault. -/
def scanRows (e : Export) (filters : List RowExpr) :
    List (Except RecordError (List String)) → Except FileError (List (List Value))
  | [] => .ok []
  | .error fault :: _ => .error (.record fault)
  | .ok cells :: records => do
    let row := e.typedRow cells
    let kept ← (RowExpr.allHold (.ofCells e.columnNamesOf row) filters).mapError .filter
    let rows ← e.scanRows filters records
    return if kept then row :: rows else rows

/-- The first column that a scan mentions and the export does not have. -/
def unknownColumn? (e : Export) (s : Scan) : Option String :=
  (s.filters.flatMap (·.columns) ++ (s.sort.map (·.1)).toList).find? fun name ↦
    !e.columnNamesOf.contains name

/-- Runs a scan. -/
def collect (e : Export) (s : Scan) : Except FileError Table :=
  match e.unknownColumn? s with
  | some name => .error (.columnNotFound name)
  | none => do
    let rows ← e.scanRows s.filters (dataRecords e.format e.records)
    let table : Table := { columns := e.columnNamesOf, rows }
    let sorted := match s.sort with
      | some (column, ascending) => (table.sortBy? column ascending).getD table
      | none => table
    return match s.limit with
      | some n => sorted.take n
      | none => sorted

end Export

end CorpusQuery

import CorpusQuery.Text.Utf8

/-!
# Delimited records

A file is a sequence of records, a record a sequence of cells between delimiters. A cell may be
quoted; a quote inside is then doubled, and whatever follows the closing quote up to the next
delimiter belongs to the cell too. Quotes elsewhere stand for themselves. A record ends at a line
feed, at a carriage return or at both, and empty lines hold no record.

The file is read byte by byte by a machine whose state is the record so far. Every record carries
the mark where its reading began, which is right behind the end of the one before it.
-/

namespace CorpusQuery

/-- A place in a file: records before it, its line counted from one, and bytes before it. -/
structure Mark where
  record : Nat := 0
  line : Nat := 1
  byte : Nat := 0
deriving DecidableEq, Repr

/-- A record as bytes, and where its reading began. -/
structure RawRecord where
  mark : Mark
  cells : List (List UInt8)
deriving DecidableEq, Repr

namespace RawRecord

/-- What a reader expects of the next byte. -/
inductive Mode where
  /-- A new record; line ends are skipped. -/
  | recordStart
  /-- A carriage return has ended a record, and a line feed may follow. -/
  | afterReturn
  /-- A new cell of a record. -/
  | cellStart
  | inCell
  | inQuotes
  /-- A quote inside a quoted cell: it closes the cell unless another one follows. -/
  | afterQuote
deriving DecidableEq, Repr

/-- A reader in the middle of a file. The cell and the cells are collected backwards. -/
structure Reader where
  mode : Mode := .recordStart
  cell : List UInt8 := []
  cells : List (List UInt8) := []
  /-- Where the reading of this record began. -/
  start : Mark := {}
  here : Mark := {}

namespace Reader

/-- The cells read so far, if the cell ends here. -/
def cellsHere (r : Reader) : List (List UInt8) := (r.cell.reverse :: r.cells).reverse

/-- The byte belongs to the cell. -/
def take (r : Reader) (b : UInt8) (mode : Mode) : Reader := { r with mode, cell := b :: r.cell }

/-- The byte ends the cell. -/
def endCell (r : Reader) : Reader :=
  { r with mode := .cellStart, cell := [], cells := r.cell.reverse :: r.cells }

/-- The byte ends the record. -/
def endRecord (r : Reader) (b : UInt8) : Reader × Option RawRecord :=
  let here := { r.here with record := r.here.record + 1 }
  ({ mode := if b == 13 then .afterReturn else .recordStart, start := here, here },
    some ⟨r.start, r.cellsHere⟩)

/-- Whether a byte ends a line. -/
def isLineEnd (b : UInt8) : Bool := b == 10 || b == 13

/-- The byte is read inside a cell that is not quoted, or no longer. -/
def feedPlain (delimiter : UInt8) (r : Reader) (b : UInt8) : Reader × Option RawRecord :=
  if b == delimiter then (r.endCell, none)
  else if isLineEnd b then r.endRecord b
  else (r.take b .inCell, none)

/-- The byte is read at the start of a cell. -/
def feedCellStart (delimiter : UInt8) (r : Reader) (b : UInt8) : Reader × Option RawRecord :=
  if b == 34 then ({ r with mode := .inQuotes }, none) else feedPlain delimiter r b

/-- The byte is read at the start of a record. -/
def feedRecordStart (delimiter : UInt8) (r : Reader) (b : UInt8) : Reader × Option RawRecord :=
  if isLineEnd b then ({ r with mode := .recordStart }, none) else feedCellStart delimiter r b

/-- The place behind a byte. -/
def advance (r : Reader) (b : UInt8) : Reader :=
  { r with here := { r.here with byte := r.here.byte + 1
                                 line := if b == 10 then r.here.line + 1 else r.here.line } }

/-- Reads one byte, which may complete a record. -/
def feed (delimiter : UInt8) (r : Reader) (b : UInt8) : Reader × Option RawRecord :=
  let r := r.advance b
  match r.mode with
  | .recordStart => feedRecordStart delimiter r b
  | .afterReturn =>
    if b == 10 then ({ r with mode := .recordStart }, none) else feedRecordStart delimiter r b
  | .cellStart => feedCellStart delimiter r b
  | .inCell => feedPlain delimiter r b
  | .inQuotes =>
    if b == 34 then ({ r with mode := .afterQuote }, none) else (r.take b .inQuotes, none)
  | .afterQuote => if b == 34 then (r.take b .inQuotes, none) else feedPlain delimiter r b

/-- The record that the end of the file completes. -/
def finish (r : Reader) : List RawRecord :=
  match r.mode with
  | .recordStart | .afterReturn => []
  | .cellStart | .inCell | .inQuotes | .afterQuote => [⟨r.start, r.cellsHere⟩]

/-- The records of the rest of a file. -/
def records (delimiter : UInt8) (r : Reader) : List UInt8 → List RawRecord
  | [] => r.finish
  | b :: bs =>
    match r.feed delimiter b with
    | (r, some record) => record :: r.records delimiter bs
    | (r, none) => r.records delimiter bs

end Reader

/-- The records of a file. A byte order mark in front is skipped but counted. -/
def ofBytes (delimiter : UInt8) : List UInt8 → List RawRecord
  | 0xEF :: 0xBB :: 0xBF :: bytes => ({ here := { byte := 3 } } : Reader).records delimiter bytes
  | bytes => ({} : Reader).records delimiter bytes

end RawRecord

/-! ## Records as texts -/

/-- Why a record is refused. -/
inductive RecordError where
  /-- A record with another number of cells than the first one. -/
  | unequalLengths (mark : Mark) (found expected : Nat)
  /-- A cell that is not UTF-8 behind so many bytes. -/
  | invalidUtf8 (mark : Mark) (cell index : Nat)
deriving DecidableEq, Repr

def RecordError.message : RecordError → String
  | unequalLengths mark found expected =>
    "CSV error: record " ++ toString mark.record ++ " (line: " ++ toString mark.line ++ ", byte: "
      ++ toString mark.byte ++ "): found record with " ++ toString found
      ++ " fields, but the previous record has " ++ toString expected ++ " fields"
  | invalidUtf8 mark cell index =>
    "CSV parse error: record " ++ toString mark.record ++ " (line " ++ toString mark.line
      ++ ", field: " ++ toString cell ++ ", byte: " ++ toString mark.byte
      ++ "): invalid utf-8: invalid UTF-8 in field " ++ toString cell ++ " near byte index "
      ++ toString index

namespace RawRecord

/-- The cells as texts, counted from `i`. -/
def decodeCells (mark : Mark) (i : Nat) : List (List UInt8) → Except RecordError (List String)
  | [] => .ok []
  | cell :: cells =>
    match Text.decodeUtf8 cell with
    | .error index => .error (.invalidUtf8 mark i index)
    | .ok s => (decodeCells mark (i + 1) cells).map (s :: ·)

/-- The record as texts. Bad cells are reported at `mark`, which may differ from the record's own;
the wrong number of cells is noticed first. -/
def decode (r : RawRecord) (width : Nat) (mark : Mark) : Except RecordError (List String) :=
  if r.cells.length == width then decodeCells mark 0 r.cells
  else .error (.unequalLengths r.mark r.cells.length width)

end RawRecord

end CorpusQuery

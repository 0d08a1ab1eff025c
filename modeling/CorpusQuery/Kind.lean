import CorpusQuery.Value

/-!
# Kinds of columns

The kind of a column is found by looking at its cells one by one and merging what they say: a blank
cell says nothing, whole and real numbers together are real, and anything else beside a number makes
the column textual. A cell is then read according to the kind of its column.
-/

namespace CorpusQuery

/-- What a value, or all values of a column, look like. `null` is a column without content. -/
inductive Kind where
  | int
  | real
  | text
  | null
deriving DecidableEq, Repr

/-- The kind of a single value. -/
def Value.kind : Value → Kind
  | .int _ => .int
  | .real _ => .real
  | .text _ => .text
  | .null => .null

namespace Kind

/-- The kind of a raw cell. -/
def ofCell (cell : String) : Kind :=
  let cs := Text.trimChars cell.toList
  if cs.isEmpty then .null
  else if (Number.readInt64? cs).isSome then .int
  else if (Number.readFloat? cs).isSome then .real
  else .text

/-- The kind of a column that holds cells of both kinds. -/
def merge : Kind → Kind → Kind
  | .null, k => k
  | k, .null => k
  | .int, .int => .int
  | .int, .real => .real
  | .real, .int => .real
  | .real, .real => .real
  | _, _ => .text

/-- The kind of a column with these cells. -/
def ofCells (cells : List String) : Kind := (cells.map ofCell).foldl merge .null

def isNumeric : Kind → Bool
  | .int | .real => true
  | .text | .null => false

/-- Reads a cell of a numeric column: blank cells are missing, and a cell that is no number after
all keeps its text, blanks included. -/
def readNumber (read? : List Char → Option Value) (cell : String) : Value :=
  match Text.trimChars cell.toList with
  | [] => .null
  | cs => (read? cs).getD (.text cell)

/-- Reads a raw cell as a value of this kind. -/
def read (k : Kind) (cell : String) : Value :=
  match k with
  | .int => readNumber (fun cs ↦ (Number.readInt64? cs).map .int) cell
  | .real => readNumber (fun cs ↦ (Number.readFloat? cs).map .real) cell
  | .text | .null => .text cell

/-- Reads a cell of a column of this kind, where an empty cell is a missing value. -/
def readCell (k : Kind) (cell : String) : Value := if cell.isEmpty then .null else k.read cell

/-- The name of the type that a column of this kind has in a database. -/
def typeName : Kind → String
  | .int => "INTEGER"
  | .real => "REAL"
  | .text => "TEXT"
  | .null => "NULL"

/-- The name of the kind in messages about values. -/
def noun : Kind → String
  | .int => "Int"
  | .real => "Float"
  | .text => "String"
  | .null => "Null"

end Kind

end CorpusQuery

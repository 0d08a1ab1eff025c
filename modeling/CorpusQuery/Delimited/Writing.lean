/-!
# Writing delimited records

A cell is quoted only where it has to be: when it has a delimiter, a quote or a line end in it, or
when it is empty and alone in its record, which would otherwise be an empty line.
-/

namespace CorpusQuery.Delimited

/-- Whether a cell has to be quoted among others. -/
def needsQuotes (delimiter : Char) (cell : List Char) : Bool :=
  cell.any fun c ↦ c == delimiter || c == '"' || c == '\n' || c == '\r'

/-- A cell in quotes, with the quotes inside doubled. -/
def quoted (cell : List Char) : List Char :=
  '"' :: cell.flatMap (fun c ↦ if c == '"' then ['"', '"'] else [c]) ++ ['"']

/-- A cell as it is written. -/
def writeCell (delimiter : Char) (cell : List Char) : List Char :=
  if needsQuotes delimiter cell then quoted cell else cell

/-- A record without its line end. -/
def writeCells (delimiter : Char) : List (List Char) → List Char
  | [] => []
  | [[]] => quoted []
  | [cell] => writeCell delimiter cell
  | cell :: cells => writeCell delimiter cell ++ delimiter :: writeRest delimiter cells
where
  /-- The cells behind the first one. -/
  writeRest (delimiter : Char) : List (List Char) → List Char
    | [] => []
    | [cell] => writeCell delimiter cell
    | cell :: cells => writeCell delimiter cell ++ delimiter :: writeRest delimiter cells

/-- Records as a file. -/
def write (delimiter : Char) (records : List (List String)) : String :=
  .ofList (records.flatMap fun cells ↦ writeCells delimiter (cells.map (·.toList)) ++ ['\n'])

end CorpusQuery.Delimited

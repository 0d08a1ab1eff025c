import CorpusQuery.Toml
import CorpusQuery.Toml.Quoted
import CorpusQuery.Toml.Scalar

/-!
# TOML documents

A document is a sequence of lines, each of which opens a table or assigns a value to a key of the
table opened last. Keys are dotted paths of names. An array may span several lines, a table in
braces may not.

Arrays and tables in braces nest up to a fixed depth, which is also what the reading of a value
recurses on; loops over items, names and lines recurse on a bound on their number, the length of the
text.
-/

namespace CorpusQuery.Toml

/-! ## Blanks, line ends and comments -/

/-- Drops spaces and tabs. -/
def skipBlanks (cs : List Char) : List Char := cs.dropWhile fun c ↦ c == ' ' || c == '\t'

/-- Drops a comment. -/
def skipComment : List Char → List Char
  | '#' :: cs => cs.dropWhile isTextChar
  | cs => cs

/-- What stands behind the end of a line, before which only blanks and a comment may stand. -/
def endLine? (cs : List Char) : Option (List Char) :=
  match skipComment (skipBlanks cs) with
  | [] => some []
  | '\n' :: cs => some cs
  | '\r' :: '\n' :: cs => some cs
  | _ => none

/-- Drops blanks, comments and line ends, at most `bound` lines of them. -/
def skipLines : Nat → List Char → List Char
  | 0, cs => skipBlanks cs
  | bound + 1, cs =>
    match skipComment (skipBlanks cs) with
    | '\n' :: cs => skipLines bound cs
    | '\r' :: '\n' :: cs => skipLines bound cs
    | cs => cs

/-- Drops everything between two items of an array. -/
def skipLayout (cs : List Char) : List Char := skipLines cs.length cs

/-! ## Keys -/

/-- Whether a character may stand in a name without quotes. -/
def isNameChar (c : Char) : Bool := c.isAlphanum || c == '_' || c == '-'

/-- One name of a key. -/
def readName? (cs : List Char) : Option (String × List Char) :=
  match cs.takeWhile isNameChar with
  | [] => (readLine? cs).map fun (name, rest) ↦ (.ofList name, rest)
  | name => some (.ofList name, cs.dropWhile isNameChar)

/-- A dotted key of at most `bound` names, with blanks around each of them. -/
def readPath? : Nat → List Char → Option (List String × List Char)
  | 0, _ => none
  | bound + 1, cs => do
    let (name, rest) ← readName? (skipBlanks cs)
    match skipBlanks rest with
    | '.' :: rest =>
      let (names, rest) ← readPath? bound rest
      return (name :: names, rest)
    | rest => return ([name], rest)

/-- A dotted key as the path to a table and the last name. -/
def readKey? (cs : List Char) : Option ((List String × String) × List Char) := do
  let (path, rest) ← readPath? cs.length cs
  return ((path.dropLast, ← path.getLast?), rest)

/-! ## Values -/

/-- A reader of values. -/
abbrev ValueReader := List Char → Option (Toml × List Char)

/-- The rest of an array, with at most `bound` items. -/
def readItems (read : ValueReader) : Nat → List Char → Option (List Toml × List Char)
  | 0, _ => none
  | bound + 1, cs =>
    match skipLayout cs with
    | ']' :: rest => some ([], rest)
    | cs => do
      let (v, rest) ← read cs
      match skipLayout rest with
      | ']' :: rest => return ([v], rest)
      | ',' :: rest =>
        let (vs, rest) ← readItems read bound rest
        return (v :: vs, rest)
      | _ => none

/-- A key with its value. -/
def readAssignment (read : ValueReader) (cs : List Char) :
    Option (((List String × String) × Toml) × List Char) := do
  let (key, rest) ← readKey? cs
  match rest with
  | '=' :: rest =>
    let (v, rest) ← read (skipBlanks rest)
    return ((key, v), rest)
  | _ => none

/-- The assignments up to the closing brace, at most `bound` of them and at least one. -/
def readAssignments (read : ValueReader) :
    Nat → List Char → Option (List ((List String × String) × Toml) × List Char)
  | 0, _ => none
  | bound + 1, cs => do
    let (a, rest) ← readAssignment read cs
    match skipBlanks rest with
    | '}' :: rest => return ([a], rest)
    | ',' :: rest =>
      let (as, rest) ← readAssignments read bound rest
      return (a :: as, rest)
    | _ => none

/-- The rest of a table in braces. -/
def readBraces (read : ValueReader) (cs : List Char) : Option (Toml × List Char) :=
  match skipBlanks cs with
  | '}' :: rest => some (.table .braces [], rest)
  | cs => do
    let (assignments, rest) ← readAssignments read cs.length cs
    let entries ← assignments.foldlM (fun entries ((path, key), v) ↦
      assign path key v .braces entries) []
    return (.table .braces entries, rest)

/-- A value in which arrays and tables are nested at most `depth` deep. -/
def readValue : Nat → ValueReader
  | _, '"' :: cs => (readQuoted? ('"' :: cs)).map fun (s, rest) ↦ (.text (.ofList s), rest)
  | _, '\'' :: cs => (readQuoted? ('\'' :: cs)).map fun (s, rest) ↦ (.text (.ofList s), rest)
  | depth + 1, '[' :: cs =>
    (readItems (readValue depth) cs.length cs).map fun (items, rest) ↦ (.array false items, rest)
  | depth + 1, '{' :: cs => readBraces (readValue depth) cs
  | _, cs => readPlain? cs

/-- How deep arrays and tables in braces may be nested. -/
def maxDepth : Nat := 79

/-! ## Lines -/

/-- A document on the way: its tables, and the path of the table opened last. -/
structure Draft where
  entries : Entries := []
  opened : List String := []

/-- Opens the table at a path. -/
def Draft.open? (d : Draft) (openAs : String → Entries → Option Entries) (path : List String)
    (key : String) : Option Draft := do
  let entries ← editAt false (fun _ ↦ openAs key) path .header d.entries
  return { entries, opened := path ++ [key] }

/-- Assigns a value in the table opened last. -/
def Draft.assign? (d : Draft) (path : List String) (key : String) (v : Toml) : Option Draft := do
  let entries ← editAt false (assign path key v) d.opened .header d.entries
  return { d with entries }

/-- Reads a line that is not empty, apart from its end. -/
def Draft.readLine? (d : Draft) : List Char → Option (Draft × List Char)
  | '[' :: '[' :: cs => do
    let ((path, key), rest) ← readKey? cs
    match rest with
    | ']' :: ']' :: rest => return (← d.open? openItem path key, rest)
    | _ => none
  | '[' :: cs => do
    let ((path, key), rest) ← readKey? cs
    match rest with
    | ']' :: rest => return (← d.open? openTable path key, rest)
    | _ => none
  | cs => do
    let (((path, key), v), rest) ← readAssignment (readValue maxDepth) cs
    return (← d.assign? path key v, rest)

/-- Reads lines, at most `bound` of them. -/
def Draft.readLines (d : Draft) : Nat → List Char → Option Draft
  | 0, _ => none
  | bound + 1, cs =>
    match skipLayout cs with
    | [] => some d
    | cs => do
      let (d, rest) ← d.readLine? cs
      d.readLines bound (← endLine? rest)

/-- The entries of a document, in front of which a byte order mark may stand. -/
def read? (text : String) : Option Entries :=
  let cs := match text.toList with
    | '\uFEFF' :: cs => cs
    | cs => cs
  (({} : Draft).readLines (cs.length + 1) cs).map (·.entries)

end CorpusQuery.Toml

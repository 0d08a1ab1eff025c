import CorpusQuery.Sql.Expr
import CorpusQuery.Text.Blank
import CorpusQuery.Text.Split

/-!
# Why a database cannot be read or queried

The message of a fault can collect prefixes on its way, one for each layer that passes it on. The
person who wrote the query gets it without them.
-/

namespace CorpusQuery

/-- Why a database cannot be opened or a statement cannot be run. -/
inductive DatabaseError where
  | notFound (path : String)
  | missingTable (table : String)
  | notADatabase
  | noSuchTable (table : String)
  | noSuchIndex (index : String)
  /-- A column that is nowhere, with the statement and its place there if that is known. -/
  | noSuchColumn (column : Sql.ColumnName) (place : Option (String × Nat))
  | patternTooLong
  /-- A limit beyond the 64-bit range. -/
  | limitNotWhole
  /-- A datum of another type than was asked for. -/
  | wrongType (found : String) (index : Nat) (column : String)
deriving DecidableEq, Repr

namespace DatabaseError

/-- What the engine says, unless it is not asked at all. -/
def engineMessage? : DatabaseError → Option String
  | notFound _ | missingTable _ => none
  | notADatabase => some "file is not a database"
  | noSuchTable table => some ("no such table: " ++ table)
  | noSuchIndex index => some ("no such index: " ++ index)
  | noSuchColumn column none => some ("no such column: " ++ column.plain)
  | noSuchColumn column (some (sql, offset)) =>
    some ("no such column: " ++ column.plain ++ " in " ++ sql ++ " at offset " ++ toString offset)
  | patternTooLong => some "LIKE or GLOB pattern too complex"
  | limitNotWhole => some "datatype mismatch"
  | wrongType found index column =>
    some ("Invalid column type " ++ found ++ " at index: " ++ toString index
      ++ ", name: " ++ column)

def message (e : DatabaseError) : String :=
  match e with
  | notFound path => "Database not found: " ++ path
  | missingTable table => "Missing table: " ++ table
  | e => "SQL error: " ++ e.engineMessage?.getD ""

end DatabaseError

/-! ## Prefixes -/

/-- What layers put in front of messages. -/
def enginePrefixes : List String :=
  ["Database error: ", "SQL error: ", "sqlite3.OperationalError: ", "OperationalError: ",
    "SqliteFailure: ", "SQLite error: "]

/-- What stands behind the first prefix that a message starts with. -/
def dropEnginePrefix? (cs : List Char) : Option (List Char) :=
  enginePrefixes.findSome? fun part ↦ Text.dropPrefix? part.toList cs

theorem enginePrefixes_ne_empty {part : String} (h : part ∈ enginePrefixes) :
    0 < part.toList.length := by
  simp only [enginePrefixes, List.mem_cons, List.not_mem_nil, or_false] at h
  rcases h with rfl | rfl | rfl | rfl | rfl | rfl <;> decide

theorem length_dropEnginePrefix? {cs rest : List Char} (h : dropEnginePrefix? cs = some rest) :
    rest.length < cs.length := by
  obtain ⟨part, hp, hr⟩ := List.exists_of_findSome?_eq_some h
  obtain rfl := Text.dropPrefix?_eq_some_iff.1 hr
  have := enginePrefixes_ne_empty hp
  rw [List.length_append]
  omega

/-- Drops prefixes, and the white space behind each of them, as long as there are any. -/
def dropEnginePrefixes (cs : List Char) : List Char :=
  match h : dropEnginePrefix? cs with
  | none => cs
  | some rest =>
    have : (rest.dropWhile Text.isBlank).length < cs.length :=
      Nat.lt_of_le_of_lt (List.dropWhile_sublist _).length_le (length_dropEnginePrefix? h)
    dropEnginePrefixes (rest.dropWhile Text.isBlank)
termination_by cs.length

/-- A message without the prefixes and the white space around it. -/
def withoutEnginePrefixes (message : String) : String :=
  .ofList (dropEnginePrefixes (Text.trimChars message.toList))

/-- The message for the person who wrote the query. -/
def DatabaseError.userMessage (e : DatabaseError) : String :=
  withoutEnginePrefixes (e.engineMessage?.getD e.message)

end CorpusQuery

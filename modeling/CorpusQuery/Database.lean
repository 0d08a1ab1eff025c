import CorpusQuery.Schema
import CorpusQuery.Sql.Affinity
import CorpusQuery.Sql.Pattern

/-!
# Databases

A database holds tables of data and knows which indexes there are. A table draws whatever is
inserted to the affinities of its columns. The case of ASCII letters in the names of tables and
columns does not matter.
-/

namespace CorpusQuery

open Sql (Affinity Datum)

/-- A column of a stored table. -/
structure StoredColumn where
  name : String
  affinity : Affinity
deriving DecidableEq, Repr

/-- A stored table, with its rows in the order of their insertion. -/
structure StoredTable where
  name : String
  columns : List StoredColumn := []
  rows : List (List Datum) := []

/-- An index on columns of a table, in the order of their weight. -/
structure StoredIndex where
  name : String
  table : String
  columns : List String := []
deriving DecidableEq, Repr

/-- Stored tables and their indexes. -/
structure Database where
  tables : List StoredTable := []
  indexes : List StoredIndex := []

namespace StoredTable

/-- The position of a column. -/
def columnIndex? (t : StoredTable) (name : String) : Option Nat :=
  t.columns.findIdx? fun c ↦ Text.sameIgnoringCase c.name name

/-- The data of a row as the columns store them. -/
def storedRow : List StoredColumn → List Datum → List Datum
  | c :: cs, d :: ds => d.stored c.affinity :: storedRow cs ds
  | _, _ => []

/-- The table with one more row. -/
def insert (t : StoredTable) (row : List Datum) : StoredTable :=
  { t with rows := t.rows ++ [storedRow t.columns row] }

/-- The table with more rows. -/
def insertAll (t : StoredTable) (rows : List (List Datum)) : StoredTable := rows.foldl insert t

/-- The data of a column. -/
def column (t : StoredTable) (name : String) : List Datum :=
  match t.columnIndex? name with
  | some i => t.rows.filterMap (·[i]?)
  | none => []

end StoredTable

namespace Database

/-- The table of a name. -/
def table? (db : Database) (name : String) : Option StoredTable :=
  db.tables.find? fun t ↦ Text.sameIgnoringCase t.name name

/-- The table of a name, without columns and rows if there is none. -/
def table (db : Database) (name : String) : StoredTable := (db.table? name).getD { name }

/-- Whether a table has an index of this name. -/
def hasIndexOn (db : Database) (index table : String) : Bool :=
  db.indexes.any fun i ↦
    Text.sameIgnoringCase i.name index && Text.sameIgnoringCase i.table table

/-! ## Schema -/

/-- Whether a name belongs to the engine. The pattern takes any character for the underscore, so
more names than the engine's own are meant. -/
def isInternal (name : String) : Bool :=
  (Sql.Pattern.ofLike "sqlite_%".toList).covers name.toList

/-- What a corpus can know of the database. -/
def schema (db : Database) : Schema where
  tables := (db.tables.filter (!isInternal ·.name)).map fun t ↦ (t.name, t.columns.map (·.name))
  indexes := ((db.indexes.map (·.name)).filter (!isInternal ·)).mergeSort

end Database

end CorpusQuery

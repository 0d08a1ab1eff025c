import CorpusQuery.Database
import CorpusQuery.Database.Error
import CorpusQuery.Sql.PatternLimit
import CorpusQuery.Sql.Select

/-!
# What a statement selects

A statement takes every combination of rows of its tables that satisfies the conditions of the
joins and of the statement. A loose join completes a combination without a partner by missing data.
From each combination that is left the selected data and the data to order by are computed; then
rows that are alike are dropped if the statement says so, the rest is ordered, and the first ones
are taken.

Before that the statement is checked: its tables, the index it names, its columns and its limit.
-/

namespace CorpusQuery

open Sql (Bound ColumnName Datum Join OrderItem Scope Select Source)

/-! ## Combinations of rows -/

/-- A row of a table under an alias; no row is one of missing data. -/
structure Part where
  aliasName : String
  table : StoredTable
  row : Option (List Datum)

/-- A column of a part. -/
def Part.column? (p : Part) (name : String) : Option Bound := do
  let i ← p.table.columnIndex? name
  let column ← p.table.columns[i]?
  return ⟨column.affinity, (p.row.bind (·[i]?)).getD .null⟩

/-- Whether a column name can be about a part. -/
def Part.answers (p : Part) (c : ColumnName) : Bool :=
  match c.qualifier with
  | some qualifier => Text.sameIgnoringCase qualifier p.aliasName
  | none => true

/-- A combination of rows, one of each table. -/
abbrev Combination := List Part

/-- The columns of a combination. -/
def Combination.scope (parts : Combination) : Scope := fun c ↦
  parts.findSome? fun p ↦ if p.answers c then p.column? c.name else none

namespace Database

/-- The rows of a table under an alias. -/
def parts (db : Database) (table : String) (aliasName : Option String) : List Part :=
  let t := db.table table
  t.rows.map fun row ↦ ⟨aliasName.getD table, t, some row⟩

/-- The missing row of a table under an alias. -/
def missingPart (db : Database) (table : String) (aliasName : Option String) : Part :=
  ⟨aliasName.getD table, db.table table, none⟩

/-- All combinations of rows of the sources. -/
def combinations (db : Database) : List Source → List Combination
  | [] => [[]]
  | s :: ss =>
    (db.parts s.table.table s.aliasName).flatMap fun p ↦ (db.combinations ss).map (p :: ·)

/-- The combinations that a combination becomes in a join. -/
def extend (db : Database) (left : Combination) (j : Join) : List Combination :=
  let partners := (db.parts j.table.table j.aliasName).map fun p ↦ left ++ [p]
  let matching := partners.filter fun c ↦ (j.condition.truth c.scope).holds
  match j.kind, matching with
  | .left, [] => [left ++ [db.missingPart j.table.table j.aliasName]]
  | _, _ => matching

/-- The combinations of rows of all tables of a statement. -/
def joined (db : Database) (s : Select) : List Combination :=
  s.joins.foldl (fun rows j ↦ rows.flatMap (db.extend · j)) (db.combinations s.sources)

/-- Whether a combination satisfies the condition of a statement. -/
def satisfies (s : Select) (c : Combination) : Bool :=
  match s.condition with
  | some e => (e.truth c.scope).holds
  | none => true

/-! ## Selected rows -/

/-- The data selected from a combination, and those to order by. -/
structure OutputRow where
  keys : List Datum
  cells : List Datum

/-- The output of a combination. -/
def outputRow (s : Select) (c : Combination) : OutputRow where
  keys := s.order.map (·.expr.eval c.scope)
  cells := s.items.map (·.expr.eval c.scope)

/-- Whether two rows are alike. -/
def alike : List Datum → List Datum → Bool
  | [], [] => true
  | a :: as, b :: bs => a.order b == .eq && alike as bs
  | _, _ => false

/-- The first of all rows that are alike. -/
def distinctRows : List OutputRow → List OutputRow
  | [] => []
  | r :: rs => r :: (distinctRows rs).filter fun later ↦ !alike r.cells later.cells

/-- How rows are ordered by their keys. -/
def keyOrder : List OrderItem → List Datum → List Datum → Ordering
  | i :: is, a :: as, b :: bs =>
    let first := if i.direction = some .descending then (a.order b).swap else a.order b
    first.then (keyOrder is as bs)
  | _, _, _ => .eq

/-- The selected rows in their order, without regard to the limit. -/
def orderedRows (db : Database) (s : Select) : List OutputRow :=
  let rows := ((db.joined s).filter (satisfies s)).map (outputRow s)
  (if s.distinct then distinctRows rows else rows).mergeSort fun r t ↦
    keyOrder s.order r.keys t.keys != .gt

/-- The first rows. -/
def takeLimit {α : Type} (limit : Option Nat) (rows : List α) : List α :=
  match limit with
  | some n => rows.take n
  | none => rows

/-- The rows of a statement. -/
def selectRows (db : Database) (s : Select) : List (List Datum) :=
  (takeLimit s.limit (db.orderedRows s)).map (·.cells)

/-! ## Column names -/

/-- The tables of a statement without rows. -/
def tablesOf (db : Database) (s : Select) : Combination :=
  s.sources.map (fun t ↦ db.missingPart t.table.table t.aliasName)
    ++ s.joins.map fun j ↦ db.missingPart j.table.table j.aliasName

/-- The name of a column as its table spells it. -/
def spelling (parts : Combination) (c : ColumnName) : String :=
  let spelled := parts.findSome? fun p ↦
    if p.answers c then do return (← p.table.columns[← p.table.columnIndex? c.name]?).name else none
  spelled.getD c.name

/-- The name of a selected column. -/
def columnName (parts : Combination) (i : Sql.SelectItem) : String :=
  match i.aliasName, i.expr with
  | some aliasName, _ => aliasName
  | none, .column qualifier name => spelling parts ⟨qualifier, name⟩
  | none, e => e.fragment.sql

/-- The names of the selected columns. -/
def columnNames (db : Database) (s : Select) : List String :=
  s.items.map (columnName (db.tablesOf s))

/-! ## Checks -/

/-- A table that is missing, or an index that the table does not have. -/
def tableFault? (db : Database) (table : String) (index : Option String) : Option DatabaseError :=
  if (db.table? table).isNone then some (.noSuchTable table)
  else (index.filter (!db.hasIndexOn · table)).map .noSuchIndex

/-- The first table or index of a statement that is missing. -/
def sourceFault? (db : Database) (s : Select) : Option DatabaseError :=
  (s.sources.map (fun t ↦ db.tableFault? t.table.table t.index)
    ++ s.joins.map fun j ↦ db.tableFault? j.table.table none).findSome? id

/-- The first column of a statement that is missing. -/
def columnFault? (db : Database) (s : Select) : Option DatabaseError :=
  let scope := (db.tablesOf s).scope
  (s.lookups.find? fun (c, _) ↦ (scope c).isNone).map fun (c, place) ↦
    .noSuchColumn c (place.map (s.fragment.sql, ·))

/-- The greatest limit of a statement. -/
def maxLimit : Nat := Nat.pow 2 63 - 1

/-- A limit that is too large. -/
def limitFault? (s : Select) : Option DatabaseError :=
  if s.limit.any (maxLimit < ·) then some .limitNotWhole else none

/-- Whether an index that a source may use leads with a column. -/
def isIndexed (db : Database) (s : Source) (c : ColumnName) : Bool :=
  c.qualifier == s.aliasName && db.indexes.any fun i ↦
    Text.sameIgnoringCase i.table s.table.table && s.index.all (Text.sameIgnoringCase i.name)
      && i.columns.head?.any (Text.sameIgnoringCase c.name)

/-- A pattern that is too long and that some combination gets to. -/
def patternFault? (db : Database) (s : Select) : Option DatabaseError :=
  let indexed (c : ColumnName) : Bool := s.sources.any (db.isIndexed · c)
  let reaches (c : Combination) : Bool := s.condition.any (·.reachesLongPattern indexed c.scope)
  if s.limit != some 0 && (db.joined s).any reaches then some .patternTooLong else none

/-- The first fault of a statement. -/
def fault? (db : Database) (s : Select) : Option DatabaseError :=
  db.sourceFault? s <|> db.columnFault? s <|> limitFault? s <|> db.patternFault? s

/-- The names of the selected columns, and the rows. -/
def select (db : Database) (s : Select) :
    Except DatabaseError (List String × List (List Datum)) :=
  match db.fault? s with
  | some e => .error e
  | none => .ok (db.columnNames s, db.selectRows s)

end Database

end CorpusQuery

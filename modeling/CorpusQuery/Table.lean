import CorpusQuery.Value

/-!
# Tables

The result of a query is a table: named columns, and rows with one cell per column. Columns are
addressed by name, and a name that occurs twice means its first column.

Sorting keeps rows in their order when their cells are equal, and puts missing values last in both
directions: only the order of the other values is reversed.
-/

namespace CorpusQuery

/-- Named columns and rows of cells. -/
structure Table where
  columns : List String := []
  rows : List (List Value) := []
deriving DecidableEq

namespace Table

/-! ## Access -/

/-- The position of a column. -/
def columnIndex? (t : Table) (name : String) : Option Nat := t.columns.idxOf? name

def hasColumn (t : Table) (name : String) : Bool := (t.columnIndex? name).isSome

/-- The cell at a position of a row; a row that is too short has no value there. -/
def cellAt (i : Nat) (row : List Value) : Value := row[i]?.getD .null

/-- The cell of a row, counted from zero, in a column. -/
def cell? (t : Table) (row : Nat) (column : String) : Option Value := do
  let i ← t.columnIndex? column
  let cells ← t.rows[row]?
  cells[i]?

/-- The cells of a column from top to bottom. -/
def column? (t : Table) (name : String) : Option (List Value) :=
  (t.columnIndex? name).map fun i ↦ t.rows.filterMap (·[i]?)

def isEmpty (t : Table) : Bool := t.rows.isEmpty

/-! ## Rows -/

/-- How two cells of a column are ordered. Missing values come last in both directions, and values
that do not compare count as equal. -/
def cellOrder (ascending : Bool) (a b : Value) : Ordering :=
  match a.isNull, b.isNull with
  | true, true => .eq
  | true, false => .gt
  | false, true => .lt
  | false, false =>
    let order := (a.order? b).getD .eq
    if ascending then order else order.swap

/-- The rows sorted by the cells at a position. -/
def sortRows (i : Nat) (ascending : Bool) (rows : List (List Value)) : List (List Value) :=
  rows.mergeSort fun r s ↦ cellOrder ascending (cellAt i r) (cellAt i s) != .gt

/-- The table sorted by a column, if it has that column. -/
def sortBy? (t : Table) (column : String) (ascending : Bool) : Option Table :=
  (t.columnIndex? column).map fun i ↦ { t with rows := sortRows i ascending t.rows }

/-- The first `n` rows. -/
def take (t : Table) (n : Nat) : Table := { t with rows := t.rows.take n }

/-- The rows whose position, counted from zero, satisfies `p`. -/
def keepRows (t : Table) (p : Nat → Bool) : Table :=
  { t with rows := (t.rows.zipIdx.filter fun (_, i) ↦ p i).map (·.1) }

/-! ## Columns -/

/-- The positions of the listed columns, then those of the columns that are not listed. -/
def arrangement (t : Table) (names : List String) : List Nat :=
  let listed := names.filterMap t.columnIndex?
  listed ++ (List.range t.columns.length).filter (!listed.contains ·)

/-- The listed columns first, in the order of the list, and the rest behind them. -/
def arrange (t : Table) (names : List String) : Table :=
  let positions := t.arrangement names
  { columns := positions.filterMap (t.columns[·]?)
    rows := t.rows.map fun row ↦ positions.filterMap (row[·]?) }

/-- Puts one value into each row, as far as the values reach. -/
def insertCells (i : Nat) : List (List Value) → List Value → List (List Value)
  | row :: rows, v :: vs => row.insertIdx i v :: insertCells i rows vs
  | rows, _ => rows

/-- Inserts a column at a position, or behind all columns if there are fewer. -/
def insertColumn (t : Table) (position : Nat) (name : String) (values : List Value) : Table :=
  let i := min position t.columns.length
  { columns := t.columns.insertIdx i name, rows := insertCells i t.rows values }

/-! ## Records -/

/-- Named cells; of two cells with one name the later one counts. -/
def record : List String → List Value → List (String × Value)
  | column :: columns, cell :: cells =>
    let rest := record columns cells
    if rest.any (·.1 == column) then rest else (column, cell) :: rest
  | _, _ => []

/-- The rows as records. -/
def records (t : Table) : List (List (String × Value)) := t.rows.map (record t.columns)

end Table

end CorpusQuery

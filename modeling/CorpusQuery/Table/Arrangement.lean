import CorpusQuery.Table
import CorpusQuery.Totals

/-!
# The arrangement of result columns

Columns that are derived from another one stand right behind it, whatever order the backend
delivered them in. Relative counts are computed from the absolute ones and inserted behind them.
-/

namespace CorpusQuery.Table

/-- Columns with the columns that follow them. -/
def anchors : List (String × List String) :=
  [("lemma", ["amblemma", "ambform"]),
    ("frequency", ["initgramfreq", "fingramfreq", "bigramfreq"]),
    ("len", ["hood"])]

/-- A column followed by its derived columns, as far as the table has them. -/
def withDerived (t : Table) (column : String) : List String :=
  match anchors.find? (·.1 == column) with
  | some (_, derived) => column :: derived.filter t.hasColumn
  | none => [column]

/-- The derived columns whose anchor is in the table, which therefore move. -/
def anchored (t : Table) : List String :=
  (anchors.filter fun (anchor, _) ↦ t.hasColumn anchor).flatMap (·.2)

/-- The table with every derived column behind its anchor. -/
def anchorColumns (t : Table) : Table :=
  t.arrange ((t.columns.filter (!t.anchored.contains ·)).flatMap t.withDerived)

/-- Relative columns with the columns they are computed from. -/
def relativeColumns : List (String × String × TotalKind) :=
  [("relfrequency", "frequency", .frequency),
    ("rellemmafreq", "lemmafreq", .lemmaFrequency),
    ("relinitgramfreq", "initgramfreq", .initGram),
    ("relfingramfreq", "fingramfreq", .finGram),
    ("relbigramfreq", "bigramfreq", .bigram)]

/-- The relative count of an absolute cell; a cell that is no number has none. -/
def relativeCell (totals : Totals) (kind : TotalKind) (cell : Value) : Value :=
  match cell.toNumber? with
  | some x => .real (totals.toRelative kind x)
  | none => .null

/-- Inserts one relative column, unless the table has it or lacks the absolute one. -/
def insertRelative (totals : Totals) (t : Table) (relative absolute : String) (kind : TotalKind) :
    Table :=
  match t.hasColumn relative, t.columnIndex? absolute with
  | false, some i =>
    t.insertColumn (i + 1) relative (t.rows.map fun row ↦ relativeCell totals kind (cellAt i row))
  | _, _ => t

/-- Inserts all relative columns. -/
def insertRelatives (t : Table) (totals : Totals) : Table :=
  relativeColumns.foldl (fun t (relative, absolute, kind) ↦
    insertRelative totals t relative absolute kind) t

end CorpusQuery.Table

import CorpusQuery.Export
import CorpusQuery.Totals

/-!
# Totals of an export

An export repeats the frequency of a lemma in every row of that lemma, and likewise for n-grams, so
these are added up once for every key. A cell that is no number does not use its key up.
-/

namespace CorpusQuery.Export

/-- What a frequency is counted once for. -/
inductive CountedOnce where
  /-- Nothing: every row counts. -/
  | row
  /-- The texts in these columns. -/
  | columns (names : List String)
  /-- The first characters of the word form. -/
  | formFront
  /-- The last characters of the word form. -/
  | formBack

/-- The column of a total, and what its cells are counted once for. -/
def totalColumn : TotalKind → String × CountedOnce
  | .frequency => ("frequency", .row)
  | .lemmaFrequency => ("lemmafreq", .columns ["lemma", "pos"])
  | .initGram => ("initgramfreq", .formFront)
  | .finGram => ("fingramfreq", .formBack)
  | .bigram => ("bigramfreq", .columns ["form"])

/-- The number of characters in an n-gram. -/
def gramLength : Nat := 3

/-- The cell of a record in a column. -/
def recordCell? (e : Export) (cells : List String) (name : String) : Option String :=
  (e.column? name).bind fun c ↦ cells[c.ordinal]?

/-- The key of a record; a record without one always counts. -/
def totalKey? (e : Export) (cells : List String) : CountedOnce → Option String
  | .row => none
  | .columns names =>
    some ("\u001f".intercalate (names.map fun name ↦ (e.recordCell? cells name).getD ""))
  | .formFront => (e.recordCell? cells "form").map fun form ↦
    .ofList (form.toList.take gramLength)
  | .formBack => (e.recordCell? cells "form").map fun form ↦
    .ofList (form.toList.drop (form.toList.length - gramLength))

/-- A sum, and the keys that are used up. -/
structure KeyedSum where
  sum : Float := 0.0
  seen : List String := []

/-- Adds a number unless its key is used up. -/
def KeyedSum.add (s : KeyedSum) (key : Option String) (x : Float) : KeyedSum :=
  match key with
  | none => { s with sum := s.sum + x }
  | some k => if s.seen.contains k then s else { sum := s.sum + x, seen := k :: s.seen }

/-- The number in a cell. -/
def cellNumber? (cell : String) : Option Float :=
  Number.readFloat? (Text.trimChars cell.toList)

/-- The total of one kind over records. -/
def totalOf (e : Export) (kind : TotalKind) (records : List (List String)) : Float :=
  let (column, once) := totalColumn kind
  let add (s : KeyedSum) (cells : List String) : KeyedSum :=
    match (e.recordCell? cells column).bind cellNumber? with
    | some x => s.add (e.totalKey? cells once) x
    | none => s
  (records.foldl add {}).sum

/-- The totals of an export. -/
def totals (e : Export) : Except FileError Totals := do
  let records ← ((dataRecords e.format e.records).mapM id).mapError .record
  return TotalKind.all.foldl (fun t kind ↦ t.set kind (e.totalOf kind records)) {}

end CorpusQuery.Export

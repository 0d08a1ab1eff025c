import CorpusQuery.Table.Distinct

/-!
# Which rows a table has

Two tables with other columns can still be compared by what identifies their rows: lemma, form, part
of speech and features, all as texts.
-/

namespace CorpusQuery.Table

/-- What identifies a row of a corpus. -/
structure RowIdentity where
  headword : String
  form : String
  pos : String
  feats : String
deriving DecidableEq, Repr

/-- Whether an identity comes before another one or is the same. -/
def RowIdentity.le (a b : RowIdentity) : Bool :=
  ((compare a.headword b.headword).then ((compare a.form b.form).then
    ((compare a.pos b.pos).then (compare a.feats b.feats)))) != .gt

/-- The text of a cell; a missing one is empty. -/
def cellText (t : Table) (row : Nat) (column : String) : String :=
  ((t.cell? row column).bind (·.asText?)).getD ""

/-- The identity of a row. -/
def identity (t : Table) (row : Nat) : RowIdentity :=
  ⟨t.cellText row "lemma", t.cellText row "form", t.cellText row "pos", t.cellText row "feats"⟩

/-- The identities of all rows, in order and without repetition. -/
def identities (t : Table) : List RowIdentity :=
  (((List.range t.rows.length).map t.identity).eraseDups).mergeSort RowIdentity.le

/-- The word forms of all rows, in order and without repetition. -/
def forms (t : Table) : List String := ((t.identities.map (·.form)).eraseDups).mergeSort

end CorpusQuery.Table

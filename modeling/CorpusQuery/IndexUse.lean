import CorpusQuery.QuerySettings
import CorpusQuery.Schema

/-!
# Choosing an index

A statement may name the index of the facts table that it is to use. The columns that positive
conditions touch are the candidates, in a fixed order of preference; if there are none, the column
that the result is ordered by is. Only indexes that exist are named. A pattern that may start with
any text defeats them all, unless the settings insist.
-/

namespace CorpusQuery

/-- The columns with an index, the most selective ones first. -/
def indexedColumns : List String := ["form", "revform", "lemma", "frequency", "len", "pos"]

/-- The name of the index on a column. -/
def indexName (column : String) (posx : Bool) : String :=
  let x := if posx then "x" else ""
  if column == "frequency" then "idx_wordfreqs_freq" ++ x
  else if column == "pos" && posx then "idx_wordfreqs_posx_freqx"
  else "idx_wordfreqs_" ++ column ++ "_freq" ++ x

/-- What the conditions of a statement say about indexes. -/
structure IndexUse where
  touched : List String := []
  unanchored : Bool := false
deriving DecidableEq, Repr

namespace IndexUse

/-- Notes a column that a condition narrows; columns without an index do not matter. -/
def touch (u : IndexUse) (column : String) : IndexUse :=
  if indexedColumns.contains column && !u.touched.contains column then
    { u with touched := u.touched ++ [column] }
  else u

/-- Notes a pattern that may start with any text. -/
def markUnanchored (u : IndexUse) : IndexUse := { u with unanchored := true }

/-- The columns whose index would serve, best first. -/
def candidates (u : IndexUse) (orderColumn : Option String) : List String :=
  match indexedColumns.filter u.touched.contains with
  | [] => orderColumn.toList.filter indexedColumns.contains
  | columns => columns

/-- The index to name in the statement. -/
def choose (u : IndexUse) (policy : IndexPolicy) (orderColumn : Option String) (posx : Bool)
    (schema : Schema) : Option String :=
  if policy = .never ∨ policy = .auto ∧ u.unanchored then none
  else ((u.candidates orderColumn).map (indexName · posx)).find? schema.hasIndex

end IndexUse

end CorpusQuery

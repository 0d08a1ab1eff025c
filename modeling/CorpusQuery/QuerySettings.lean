/-!
# Settings of a query

How much of the corpus a result shows, in which order, and how the statement is to be run.
-/

namespace CorpusQuery

/-- Whether a statement names the index to use. -/
inductive IndexPolicy where
  /-- Unless a pattern defeats every index. -/
  | auto
  | never
  | always
deriving DecidableEq, Repr

/-- The settings of a query. -/
structure QuerySettings where
  rowLimit : Nat := 10000
  orderBy : String := "frequency"
  ascending : Bool := false
  /-- Show n-gram frequencies. -/
  grams : Bool := true
  /-- Show lemma statistics. -/
  lemmas : Bool := true
  /-- Tell word forms apart by their part of speech, in corpora that can. -/
  posx : Bool := true
  /-- Show relative frequencies. -/
  relative : Bool := false
  indexPolicy : IndexPolicy := .auto
deriving DecidableEq, Repr

end CorpusQuery

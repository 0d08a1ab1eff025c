import CorpusQuery.Corpus
import CorpusQuery.Sample.Words

/-!
# The sample corpus as a database
-/

namespace CorpusQuery.Sample

open Sql (Datum)

/-! ## Rows -/

def whole (n : Nat) : Datum := .int n

/-- The row of a word form in the facts table. -/
def factRow (w : Word) : List Datum :=
  let (posx, frequencyx) := w.merged.getD (w.pos, w.frequency)
  [.text w.headword, .text w.form, .text w.pos, .text posx, whole w.frequency, whole frequencyx,
    whole w.length, .text (.ofList w.form.toList.reverse), .text w.features.feats, whole w.featid,
    whole (words.countP (·.headword == w.headword)), .real 0.0]

/-- The row of a set of features. -/
def featureRow (f : FeatureSet) : List Datum :=
  [whole f.featid, .text f.feats, .text f.pos, .text f.nouncase, .text f.nnumber,
    .text f.derivation, .text f.clitic]

/-- The rows of the single values of a feature. -/
def satelliteRows (value : FeatureSet → String) : List (List Datum) :=
  featureSets.flatMap fun f ↦
    ((Text.splitOn ',' (value f).toList).filter (· != ['_'])).map fun v ↦
      [whole f.featid, .text (.ofList v)]

/-- The row of a lemma. -/
def lemmaRow (headword pos : String) : List Datum :=
  let plain := Text.without headword '#'
  [.text headword, .text plain, .text pos, whole (lemmaFrequency headword pos),
    whole plain.toList.length, .real 0.0, whole (headword.toList.count '#' + 1)]

/-- The rows of the parts of word forms. -/
def gramRows (part : Word → String) : List (List Datum) :=
  ((words.map part).eraseDups).map fun gram ↦ [.text gram, whole (gramFrequency part gram)]

/-! ## Tables -/

/-- A table with its columns by affinity. -/
def tableOf (name : String) (columns : List (String × Sql.Affinity)) (rows : List (List Datum)) :
    StoredTable :=
  let columns := columns.map fun (name, affinity) ↦ { name, affinity }
  StoredTable.insertAll { name, columns } rows

/-- A table of the frequencies of parts of word forms. -/
def gramTable (name : String) (part : Word → String) : StoredTable :=
  tableOf name [("form", .text), ("frequency", .numeric)] (gramRows part)

/-- A table of the single values of a feature. -/
def satelliteTable (name column : String) (value : FeatureSet → String) : StoredTable :=
  tableOf name [("featid", .numeric), (column, .text)] (satelliteRows value)

def tables : List StoredTable :=
  [tableOf "wordfreqs"
      [("lemma", .text), ("form", .text), ("pos", .text), ("posx", .text), ("frequency", .numeric),
        ("frequencyx", .numeric), ("len", .numeric), ("revform", .text), ("feats", .text),
        ("featid", .numeric), ("hood", .numeric), ("ambform", .real)]
      (words.map factRow),
    tableOf "features"
      [("featid", .numeric), ("feats", .text), ("pos", .text), ("nouncase", .text),
        ("nnumber", .text), ("derivation", .text), ("clitic", .text)]
      (featureSets.map featureRow),
    tableOf "lemmas"
      [("lemma", .text), ("lemmac", .text), ("pos", .text), ("lemmafreq", .numeric),
        ("lemmalen", .numeric), ("amblemma", .real), ("comparts", .numeric)]
      (lemmas.map fun (headword, pos) ↦ lemmaRow headword pos),
    satelliteTable "derivations" "derivation" (·.derivation),
    satelliteTable "clitics" "clitic" (·.clitic),
    satelliteTable "nouncases" "nouncase" (·.nouncase),
    gramTable "initgramfreqs" (·.front),
    gramTable "fingramfreqs" (·.back),
    gramTable "wordbigramfreqs" (·.form),
    tableOf "metadata" [("key", .text), ("value", .text)]
      [[.text "frequency", .text (toString tokenCount)]]]

/-- The index on a column, and behind it on the frequency. -/
def indexOn (posx : Bool) (column : String) : StoredIndex :=
  let frequency := if posx then "frequencyx" else "frequency"
  let leading :=
    if column == "frequency" then frequency
    else if column == "pos" && posx then "posx"
    else column
  { name := indexName column posx, table := "wordfreqs", columns := [leading, frequency].eraseDups }

/-- The indexes, one on each indexed column with either frequency. -/
def indexes : List StoredIndex :=
  [false, true].flatMap fun posx ↦ indexedColumns.map (indexOn posx)

/-- The sample as a database. -/
def database : Database := { tables, indexes }

/-- The sample as a relational corpus. -/
def corpus : Except DatabaseError Corpus := Corpus.ofDatabase database

end CorpusQuery.Sample

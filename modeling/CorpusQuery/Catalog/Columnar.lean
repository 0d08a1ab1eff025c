import CorpusQuery.Catalog

/-!
# The catalog of a flat table

A flat export, or the table of an earlier result, has exactly the fields that its columns can back.
Features may live under another column name than in a relational corpus.
-/

namespace CorpusQuery.Catalog

/-- Features with the columns that may hold them, in order of preference. -/
def exportFeatures : List (String × List String) :=
  [("nnumber", ["nnumber", "number"]), ("nouncase", ["nouncase", "case"])]
    ++ ["gender", "definite", "mood", "tense", "aspect", "voice", "person", "verbform", "partform",
      "degree", "posspers", "possnum", "clitic", "derivation", "style", "typo"].map
        fun name ↦ (name, [name])

/-- A field of a flat table that lives in the column of its own name. -/
def flatField (kind : FieldKind) (name : String) : Field :=
  { name, kind, relation := none, column := name }

/-- The lemma without compound markers, from its own column or from the lemma column. -/
def flatPlainLemma (columns : List String) : List Field :=
  if columns.contains "lemmac" then [flatField .text "lemmac"]
  else if columns.contains "lemma" then
    [{ name := "lemmac", kind := .text, relation := none, column := "lemma"
       strip := some compoundMarker }]
  else []

/-- The field of a feature, in the first of its columns that the table has. -/
def flatFeature? (columns : List String) (name : String) (candidates : List String) :
    Option Field :=
  (candidates.find? columns.contains).map fun column ↦
    { name, kind := .feature (featureMatch name), relation := none, column }

/-- The catalog of a table with these columns. -/
def columnar (columns : List String) : Catalog :=
  let texts := (["lemma", "form", "pos", "feats"].filter columns.contains).map (flatField .text)
  let positional := if columns.contains "form" then positionalFields none else []
  let compound := if columns.contains "lemma" then
      [{ name := "compound", kind := .boolean, relation := none, column := "lemma" }]
    else []
  let counts := ((factCounts ++ aggregateCounts.map (·.1)).filter columns.contains).map
    (flatField .numeric)
  let features := exportFeatures.filterMap fun (name, candidates) ↦
    flatFeature? columns name candidates
  (insertAll {} (texts ++ flatPlainLemma columns ++ positional ++ compound ++ counts
    ++ features)).withRelatives

end CorpusQuery.Catalog

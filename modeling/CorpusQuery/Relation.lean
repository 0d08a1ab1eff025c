/-!
# The tables of a corpus

A relational corpus keeps one row per word form in its facts table. Features, lemmas and n-grams
hang off it one row each; satellites hold the single values of features that may have several, one
row per value.
-/

namespace CorpusQuery

/-- The tables a field can live in. -/
inductive Relation where
  | facts
  | features
  | lemmas
  | derivations
  | clitics
  | nounCases
  | initGrams
  | finGrams
  | bigrams
deriving DecidableEq, Repr

namespace Relation

/-- The tables with the frequencies of parts and pairs of word forms. -/
def ngrams : List Relation := [.initGrams, .finGrams, .bigrams]

/-- The name of the table in the database. -/
def table : Relation → String
  | .facts => "wordfreqs"
  | .features => "features"
  | .lemmas => "lemmas"
  | .derivations => "derivations"
  | .clitics => "clitics"
  | .nounCases => "nouncases"
  | .initGrams => "initgramfreqs"
  | .finGrams => "fingramfreqs"
  | .bigrams => "wordbigramfreqs"

/-- The alias of the table in statements. -/
def aliasName : Relation → String
  | .facts => "w"
  | .features => "ft"
  | .lemmas => "l"
  | .derivations => "d"
  | .clitics => "c"
  | .nounCases => "nc"
  | .initGrams => "i"
  | .finGrams => "e"
  | .bigrams => "b"

def isSatellite : Relation → Bool
  | .derivations | .clitics | .nounCases => true
  | _ => false

/-- The satellite with the single values of a feature column. -/
def satelliteOf? : String → Option Relation
  | "derivation" => some .derivations
  | "clitic" => some .clitics
  | "nouncase" => some .nounCases
  | _ => none

end Relation

end CorpusQuery

import CorpusQuery.Delimited.Writing
import CorpusQuery.FlatCorpus
import CorpusQuery.Sample.Words

/-!
# The sample corpus as an export
-/

namespace CorpusQuery.Sample

/-- The columns of the export. -/
def exportColumns : List String :=
  ["lemma", "form", "pos", "feats", "frequency", "len", "case", "number", "derivation", "clitic",
    "lemmafreq", "amblemma", "initgramfreq", "fingramfreq", "bigramfreq"]

/-- The record of a word form. -/
def exportRecord (w : Word) : List String :=
  let f := w.features
  [w.headword, w.form, w.pos, f.feats, toString w.frequency, toString w.length, f.nouncase,
    f.nnumber, f.derivation, f.clitic, toString (lemmaFrequency w.headword w.pos), "0.0",
    toString (gramFrequency (·.front) w.front), toString (gramFrequency (·.back) w.back),
    toString (gramFrequency (·.form) w.form)]

/-- The content of the export. -/
def exportText : String := Delimited.write ',' (exportColumns :: words.map exportRecord)

/-- The sample as a flat corpus with known totals. -/
def flatCorpus (path : String) (totals : Totals) : Except FlatCorpusError FlatCorpus :=
  FlatCorpus.openWith? path {} (some exportText.toUTF8.toList) totals

end CorpusQuery.Sample

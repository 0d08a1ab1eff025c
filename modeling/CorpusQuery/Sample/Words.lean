import CorpusQuery.Text.Split

/-!
# The words of the sample corpus

A small corpus that shows what corpora have: compounds, several forms of one lemma, a form with two
parts of speech, and features with none, one or two values. Everything that a corpus counts is
counted here from the words, so that the two forms the sample comes in agree.
-/

namespace CorpusQuery.Sample

/-- A word form of the sample. -/
structure Word where
  headword : String
  form : String
  pos : String
  frequency : Nat
  featid : Nat
  /-- The part of speech and the frequency that forms are merged under, where they differ. -/
  merged : Option (String × Nat) := none

/-- The features of word forms. `_` stands for no value, and commas separate several values. -/
structure FeatureSet where
  featid : Nat
  feats : String
  pos : String
  nouncase : String := "_"
  nnumber : String := "_"
  derivation : String := "_"
  clitic : String := "_"

def featureSets : List FeatureSet :=
  [{ featid := 1, feats := "Case=Nom|Number=Sing", pos := "NOUN", nouncase := "Nom"
     nnumber := "Sing" },
    { featid := 2, feats := "Case=Ine|Number=Sing", pos := "NOUN", nouncase := "Ine"
      nnumber := "Sing" },
    { featid := 3, feats := "Case=Ade|Number=Sing", pos := "NOUN", nouncase := "Ade"
      nnumber := "Sing" },
    { featid := 4, feats := "Mood=Ind|Number=Sing|Person=3|VerbForm=Fin", pos := "AUX"
      nnumber := "Sing" },
    { featid := 5, feats := "Mood=Ind|Number=Sing|Person=3|VerbForm=Fin", pos := "VERB"
      nnumber := "Sing" },
    { featid := 6, feats := "Case=Ine|Clitic=Kin|Number=Sing", pos := "NOUN", nouncase := "Ine"
      nnumber := "Sing", clitic := "Kin" },
    { featid := 7, feats := "Case=Nom|Derivation=Minen|Number=Sing", pos := "NOUN"
      nouncase := "Nom", nnumber := "Sing", derivation := "Minen" },
    { featid := 8, feats := "Clitic=Han,Kin|PronType=Ind", pos := "PRON", clitic := "Han,Kin" }]

def words : List Word :=
  [⟨"auto", "auto", "NOUN", 500, 1, none⟩, ⟨"auto#talli", "autotalli", "NOUN", 40, 1, none⟩,
    ⟨"talli", "talli", "NOUN", 60, 1, none⟩, ⟨"talli", "tallissa", "NOUN", 30, 2, none⟩,
    ⟨"auto", "autossa", "NOUN", 80, 2, none⟩, ⟨"kata", "katalla", "NOUN", 3, 3, none⟩,
    ⟨"olla", "on", "AUX", 900, 4, some ("VERB", 1000)⟩,
    ⟨"olla", "on", "VERB", 100, 5, some ("VERB", 1000)⟩,
    ⟨"talo", "talossakin", "NOUN", 12, 6, none⟩, ⟨"tekeminen", "tekeminen", "NOUN", 25, 7, none⟩,
    ⟨"tapa", "tapa", "NOUN", 70, 1, none⟩, ⟨"pata", "pata", "NOUN", 15, 1, none⟩,
    ⟨"kuka", "kukahankin", "PRON", 4, 8, none⟩]

/-- The recorded number of tokens. -/
def tokenCount : Nat := 1000000

/-! ## Counts -/

namespace Word

/-- The features of a word form. -/
def features (w : Word) : FeatureSet :=
  (featureSets.find? (·.featid == w.featid)).getD { featid := w.featid, feats := "_", pos := w.pos }

/-- The number of characters of the form. -/
def length (w : Word) : Nat := w.form.toList.length

/-- The first three characters of the form. -/
def front (w : Word) : String := .ofList (w.form.toList.take 3)

/-- The last three characters of the form. -/
def back (w : Word) : String := .ofList (w.form.toList.drop (w.length - 3))

end Word

/-- The frequency of all words that satisfy `p`. -/
def frequencyOf (p : Word → Bool) : Nat := (words.filter p).foldr (·.frequency + ·) 0

/-- The lemmas with their parts of speech. -/
def lemmas : List (String × String) := (words.map fun w ↦ (w.headword, w.pos)).eraseDups

/-- The frequency of a lemma. -/
def lemmaFrequency (headword pos : String) : Nat :=
  frequencyOf fun w ↦ w.headword == headword && w.pos == pos

/-- The frequency of all words that share a part of the form. -/
def gramFrequency (part : Word → String) (gram : String) : Nat :=
  frequencyOf fun w ↦ part w == gram

end CorpusQuery.Sample

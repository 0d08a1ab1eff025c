import CorpusQuery.Field

/-!
# Catalogs of fields

A catalog holds the fields that a corpus has, in the order of their names. Adding a field under a
name that is taken replaces the old one. A field is looked up by any accepted spelling: letter case
does not matter and a few names have a short form.
-/

namespace CorpusQuery

/-- The fields of a corpus, by name. -/
structure Catalog where
  fields : List Field := []

namespace Catalog

/-! ## Access -/

/-- The field stored under exactly this name. -/
def get? (c : Catalog) (name : String) : Option Field := c.fields.find? (·.name == name)

def contains (c : Catalog) (name : String) : Bool := (c.get? name).isSome

/-- The names of all fields, in order. -/
def names (c : Catalog) : List String := c.fields.map (·.name)

/-- The fields for morphological features. -/
def features (c : Catalog) : List Field := c.fields.filter (·.kind.isFeature)

/-- Short forms and the names they stand for. -/
def shortForms : List (String × String) :=
  [("freq", "frequency"), ("relfreq", "relfrequency"), ("case", "nouncase"),
    ("number", "nnumber"), ("length", "len")]

/-- The field name that a spelling stands for. -/
def resolve (spelling : String) : String :=
  let name := Text.asciiLower spelling
  (shortForms.lookup name).getD name

/-- The field that a spelling stands for. -/
def lookup? (c : Catalog) (spelling : String) : Option Field := c.get? (resolve spelling)

/-! ## Building -/

/-- Puts a field at its place among fields ordered by name. -/
def place (f : Field) : List Field → List Field
  | [] => [f]
  | g :: gs =>
    if f.name == g.name then f :: gs
    else if f.name < g.name then f :: g :: gs
    else g :: place f gs

/-- Adds a field, replacing one of the same name. -/
def insert (c : Catalog) (f : Field) : Catalog := ⟨place f c.fields⟩

/-- Adds fields in turn. -/
def insertAll (c : Catalog) (fs : List Field) : Catalog := fs.foldl insert c

/-- Fields of relative counts with their absolute fields and totals. -/
def relatives : List (String × Relative) :=
  [("relfrequency", ⟨"frequency", .frequency⟩),
    ("rellemmafreq", ⟨"lemmafreq", .lemmaFrequency⟩),
    ("relinitgramfreq", ⟨"initgramfreq", .initGram⟩),
    ("relfingramfreq", ⟨"fingramfreq", .finGram⟩),
    ("relbigramfreq", ⟨"bigramfreq", .bigram⟩)]

/-- Adds the relative field of an absolute field, if the catalog has that one. -/
def insertRelative (c : Catalog) (name : String) (relative : Relative) : Catalog :=
  match c.get? relative.field with
  | some base => c.insert { base with name := name, relative := some relative }
  | none => c

/-- Adds a relative field for every absolute one. -/
def withRelatives (c : Catalog) : Catalog :=
  relatives.foldl (fun c (name, relative) ↦ c.insertRelative name relative) c

/-! ## The parts that all catalogs share -/

/-- The character between the parts of a compound lemma. -/
def compoundMarker : Char := '#'

/-- Numeric fields of the facts table. -/
def factCounts : List String := ["frequency", "len", "hood", "ambform"]

/-- Numeric fields of other tables, with the column they live in. -/
def aggregateCounts : List (String × Relation × String) :=
  [("lemmafreq", .lemmas, "lemmafreq"), ("lemmalen", .lemmas, "lemmalen"),
    ("amblemma", .lemmas, "amblemma"), ("comparts", .lemmas, "comparts"),
    ("initgramfreq", .initGrams, "frequency"), ("fingramfreq", .finGrams, "frequency"),
    ("bigramfreq", .bigrams, "frequency")]

/-- The fields that ask about a place in the word form. -/
def positionalFields (relation : Option Relation) : List Field :=
  [("start", .front), ("middle", .middle), ("end", .back)].map fun (name, position) ↦
    { name, kind := .positional position, relation, column := "form" }

/-- How a feature meets its column. -/
def featureMatch (feature : String) : FeatureMatch :=
  if feature == "derivation" || feature == "clitic" then .anyOf else .exact

/-! ## Lemmas -/

theorem find?_place (f : Field) (fs : List Field) (name : String) :
    (place f fs).find? (·.name == name)
      = if f.name == name then some f else fs.find? (·.name == name) := by
  induction fs with
  | nil => simp [place, List.find?_cons]; split <;> simp_all
  | cons g gs ih =>
    rw [place]
    by_cases hfg : f.name = g.name
    · by_cases hn : f.name = name
      · simp_all
      · have : g.name ≠ name := hfg ▸ hn
        simp_all
    · rw [if_neg (by simpa using hfg)]
      split
      · by_cases hn : f.name = name <;> simp [hn]
      · rw [List.find?_cons, ih]
        by_cases hn : f.name = name
        · have hg : (g.name == name) = false := by simpa using fun h ↦ hfg (hn.trans h.symm)
          simp [hn, hg]
        · simp [hn, List.find?_cons]

/-- A catalog answers with the field that was added last under a name. -/
theorem get?_insert (c : Catalog) (f : Field) (name : String) :
    (c.insert f).get? name = if f.name == name then some f else c.get? name :=
  find?_place f c.fields name

theorem name_of_get? {c : Catalog} {name : String} {f : Field} (h : c.get? name = some f) :
    f.name = name := by
  simpa using List.find?_some h

end Catalog

end CorpusQuery

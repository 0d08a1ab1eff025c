import CorpusQuery.Catalog
import CorpusQuery.Schema

/-!
# The catalog of a relational corpus

The core fields are always there. Others depend on the columns that the schema shows, and every
column of the features table that is not a key becomes a feature, even under the name of a core
field, which it then replaces.
-/

namespace CorpusQuery.Catalog

/-- Columns of the features table that are keys and not features. -/
def featureKeys : List String := ["featid", "feats", "pos"]

/-- A field of the facts table that lives in the column of its own name. -/
def factField (kind : FieldKind) (name : String) : Field :=
  { name, kind, relation := some .facts, column := name }

/-- The lemma without compound markers: a column of the lemmas or the facts table, or else the
lemma column with the markers left out. -/
def plainLemmaField (s : Schema) : Field :=
  if s.hasColumn Relation.lemmas.table "lemmac" then
    { name := "lemmac", kind := .text, relation := some .lemmas, column := "lemmac" }
  else if s.hasColumn Relation.facts.table "lemmac" then factField .text "lemmac"
  else
    { name := "lemmac", kind := .text, relation := some .facts, column := "lemma"
      strip := some compoundMarker }

/-- The fields of the facts table. -/
def factFields (s : Schema) : List Field :=
  let optional := ["feats"].filter (s.hasColumn Relation.facts.table)
  let counts := factCounts.filter fun name ↦
    name == "frequency" || name == "len" || s.hasColumn Relation.facts.table name
  (["lemma", "form", "pos"] ++ optional).map (factField .text)
    ++ [plainLemmaField s] ++ positionalFields (some .facts)
    ++ [{ name := "compound", kind := .boolean, relation := some .facts, column := "lemma" }]
    ++ counts.map (factField .numeric)

/-- The numeric fields of the other tables. -/
def aggregateFields (s : Schema) : List Field :=
  (aggregateCounts.filter fun (_, relation, column) ↦ s.hasColumn relation.table column).map
    fun (name, relation, column) ↦ { name, kind := .numeric, relation := some relation, column }

/-- The feature that a column of the features table holds. Its satellite counts only when it has
the column too. -/
def featureField (s : Schema) (column : String) : Field :=
  { name := column, kind := .feature (featureMatch column), relation := some .features, column
    satellite := (Relation.satelliteOf? column).filter fun r ↦ s.hasColumn r.table column }

/-- The fields of the features table. -/
def featureFields (s : Schema) : List Field :=
  (((s.columns Relation.features.table).map Text.asciiLower).filter
    (!featureKeys.contains ·)).map (featureField s)

/-- The catalog of a corpus with this schema. -/
def relational (s : Schema) : Catalog :=
  (insertAll {} (factFields s ++ aggregateFields s ++ featureFields s)).withRelatives

end CorpusQuery.Catalog

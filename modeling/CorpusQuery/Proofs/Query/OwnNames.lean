import CorpusQuery.Proofs.Catalog.Layout
import CorpusQuery.Proofs.Query.Spellings

/-!
# Fields under their own names

A catalog lists its fields under their names, and a clause names a field by a spelling, which is
turned into a name before the field is looked up. So a listed name reaches its own field exactly
when it is turned into itself. A name with capital letters is not, and neither is a short form.

All names are in small letters, and the names of a flat table are never short forms, since a column
with such a name backs the field that the short form stands for. The features table of a relational
corpus lends its column names to fields as they are. A feature that lives in a column with the name
of a short form is listed, but no clause can ask about it.

## Main statements

* `Catalog.reaches_iff`: the listed names that reach their own fields.
* `names_reach_own_fields`: what this comes to for the catalogs of both kinds of corpora.
-/

namespace CorpusQuery

/-! ## Clauses with a known field -/

/-- If this is an error, then it is not that there is no such field. -/
def KnowsField {α : Type} (x : Except ClauseError α) : Prop :=
  ∀ e, x = .error e → e.kind ≠ .unknownField

namespace KnowsField

variable {α β : Type}

theorem ok (a : α) : KnowsField (.ok a) := fun _ h ↦ nomatch h

theorem error {e : ClauseError} (h : e.kind ≠ .unknownField) :
    KnowsField (.error e : Except ClauseError α) := by
  rintro e' ⟨⟩
  exact h

theorem bind {x : Except ClauseError α} {f : α → Except ClauseError β} (hx : KnowsField x)
    (hf : ∀ a, KnowsField (f a)) : KnowsField (x >>= f) := by
  cases x with
  | error e => exact error (hx e rfl)
  | ok a => exact hf a

end KnowsField

namespace Query

variable {catalog : Catalog} {totals : Totals} {f : Field} {c : Comparator} {word raw : String}

theorem knowsField_readText : KnowsField (readText word c raw) := by
  rw [readText]
  split
  · split
    · exact .error (by rintro ⟨⟩)
    · exact .ok _
  · exact .ok _

theorem knowsField_readNumber : KnowsField (readNumber word raw) := by
  rw [readNumber]
  split
  · exact .ok _
  · exact .error (by rintro ⟨⟩)

theorem knowsField_readPredicate : KnowsField (readPredicate totals word f c raw) := by
  rw [readPredicate.eq_def]
  cases f.kind with
  | numeric => exact knowsField_readNumber.bind fun _ ↦ .ok _
  | positional position => exact knowsField_readText.bind fun _ ↦ .ok _
  | text => exact knowsField_readText.bind fun _ ↦ .ok _
  | feature matching => exact knowsField_readText.bind fun _ ↦ .ok _
  | boolean => exact .error (by rintro ⟨⟩)

theorem knowsField_allowedComparator (spelling : String) (c : Option Comparator) :
    KnowsField (allowedComparator f word spelling c) := by
  rw [allowedComparator]
  split
  · exact .ok _
  · exact .error (by rintro ⟨⟩)

theorem knowsField_readComparison (h : catalog.lookup? word = some f) (spelling : String)
    (c : Option Comparator) :
    KnowsField (readComparison catalog totals word spelling c raw) := by
  rw [readComparison, lookupField, h]
  exact (knowsField_allowedComparator spelling c).bind fun _ ↦
    knowsField_readPredicate.bind fun _ ↦ .ok _

theorem knowsField_readWords (h : catalog.lookup? word = some f) (text spelling raw : String)
    (rest : List String) :
    KnowsField (readWords catalog totals text (word :: spelling :: raw :: rest)) := by
  match rest with
  | [] => exact knowsField_readComparison h spelling _
  | [value] =>
    rw [readWords]
    cases hpair : Comparator.readPair? spelling raw with
    | none =>
      rw [readPaired, hpair]
      exact .error (by rintro ⟨⟩)
    | some c =>
      rw [readPaired_of_readPair? hpair]
      exact knowsField_readComparison h _ _
  | _ :: _ :: _ => exact .error (by rintro ⟨⟩)

end Query

namespace Catalog

/-! ## Names and spellings -/

/-- Names that a clause cannot use for a field, because they stand for other names. -/
def shortNames : List String := shortForms.map (·.1)

/-- A clause that names a field by `name` is about the field that is stored under `name`. -/
structure Reaches (c : Catalog) (name : String) : Prop where
  found : ∃ f, c.get? name = some f ∧ f.name = name ∧ c.lookup? name = some f
  known : ∀ totals text spelling raw rest,
    KnowsField (Query.readWords c totals text (name :: spelling :: raw :: rest))

/-- What a short form stands for is a name in small letters, which is not a short form. -/
theorem shortForms_spec : ∀ e ∈ shortForms,
    shortForms.lookup e.1 = some e.2 ∧ Text.asciiLower e.2 = e.2 ∧ e.2 ∉ shortNames := by decide

theorem lookup_cases (name : String) :
    name ∉ shortNames ∧ shortForms.lookup name = none ∨
      ∃ long, (name, long) ∈ shortForms ∧ shortForms.lookup name = some long := by
  by_cases h : name ∈ shortNames
  · obtain ⟨⟨_, long⟩, hmem, rfl⟩ := List.mem_map.mp h
    exact .inr ⟨long, hmem, (shortForms_spec _ hmem).1⟩
  · refine .inl ⟨h, List.lookup_eq_none_iff.mpr fun e he ↦ ?_⟩
    rw [bne_iff_ne]
    rintro rfl
    exact h (List.mem_map_of_mem he)

variable {c : Catalog} {name : String}

theorem resolve_eq_self_iff :
    resolve name = name ↔ Text.asciiLower name = name ∧ name ∉ shortNames := by
  rw [resolve]
  rcases lookup_cases (Text.asciiLower name) with ⟨hshort, h⟩ | ⟨long, hmem, h⟩
  · rw [h, Option.getD_none]
    exact ⟨fun hlower ↦ ⟨hlower, hlower ▸ hshort⟩, And.left⟩
  · obtain ⟨-, hlower, hlong⟩ := shortForms_spec _ hmem
    rw [h, Option.getD_some]
    constructor
    · rintro rfl
      exact ⟨hlower, hlong⟩
    · rintro ⟨hname, hshort⟩
      rw [hname] at hmem
      exact absurd (List.mem_map_of_mem hmem) hshort

theorem mem_names_iff : name ∈ c.names ↔ c.contains name = true := by
  rw [names, List.mem_map, contains, get?, List.find?_isSome]
  simp

/-- **Own names.** A listed name reaches its own field exactly if it stands for itself. -/
theorem reaches_iff (h : name ∈ c.names) : c.Reaches name ↔ resolve name = name := by
  obtain ⟨f, hf⟩ := exists_get?_of_contains (mem_names_iff.mp h)
  constructor
  · rintro ⟨⟨g, -, hname, hg⟩, -⟩
    exact (name_of_get? hg).symm.trans hname
  · intro hself
    have hlookup : c.lookup? name = some f := by rw [lookup?, hself, hf]
    exact ⟨⟨f, hf, name_of_get? hf, hlookup⟩, fun _ ↦ Query.knowsField_readWords hlookup⟩

theorem name_ne_of_lookup? {f : Field} (hshort : name ∈ shortNames) (h : c.lookup? name = some f) :
    f.name ≠ name := by
  intro hname
  have hself : resolve name = name := (name_of_get? h).symm.trans hname
  exact (resolve_eq_self_iff.mp hself).2 hshort

/-! ## Names of fields -/

theorem resolve_of_mem_relatives : ∀ e ∈ relatives, resolve e.1 = e.1 := by decide

theorem resolve_of_mem_columnar {columns : List String} :
    ∀ f ∈ (columnar columns).fields, resolve f.name = f.name := by
  rw [columnar_eq]
  refine forall_withRelatives (P := fun f ↦ resolve f.name = f.name) (fun f hf ↦ ?_)
    fun f name relative _ hrel _ _ ↦ resolve_of_mem_relatives (name, relative) hrel
  rcases mem_flatFields hf with ⟨name, hname, -, rfl⟩ | h | ⟨-, h⟩ | ⟨-, rfl⟩ |
    ⟨name, hname, -, rfl⟩ | ⟨e, he, h⟩
  · have hall : ∀ n ∈ ["lemma", "form", "pos", "feats"], resolve n = n := by decide
    exact hall name hname
  · rw [(spec_of_mem_flatPlainLemma h).1]
    decide
  · have hall : ∀ f ∈ positionalFields none, resolve f.name = f.name := by decide
    exact hall f h
  · decide
  · have hall : ∀ n ∈ factCounts ++ aggregateCounts.map (·.1), resolve n = n := by decide
    exact hall name hname
  · obtain ⟨column, -, rfl⟩ := Option.map_eq_some_iff.mp h
    have hall : ∀ e ∈ exportFeatures, resolve e.1 = e.1 := by decide
    exact hall e he

theorem resolve_of_mem_factFields {s : Schema} {f : Field} (h : f ∈ factFields s) :
    resolve f.name = f.name := by
  rcases mem_factFields h with ⟨name, hname, rfl, -⟩ | rfl | h | rfl | ⟨name, hname, rfl, -⟩
  · have hall : ∀ n ∈ ["lemma", "form", "pos", "feats"], resolve n = n := by decide
    exact hall name hname
  · rcases plainLemmaField_cases s with ⟨-, h⟩ | ⟨-, h⟩ | h <;> rw [h] <;> decide
  · have hall : ∀ f ∈ positionalFields (some .facts), resolve f.name = f.name := by decide
    exact hall f h
  · decide
  · have hall : ∀ n ∈ factCounts, resolve n = n := by decide
    exact hall name hname

/-- The names of the columns of the features table, in small letters. -/
def featureColumns (s : Schema) : List String :=
  (s.columns Relation.features.table).map Text.asciiLower

/-- Every column of the features table is listed, in small letters, unless it is a key. -/
theorem mem_names_of_mem_featureColumns {s : Schema} {column : String}
    (h : column ∈ featureColumns s) (hkey : column ∉ featureKeys) :
    column ∈ (relational s).names := by
  have hfield : featureField s column ∈ featureFields s :=
    List.mem_map_of_mem (List.mem_filter.mpr ⟨h, by simpa using hkey⟩)
  have hcontains := contains_relational_of_mem (List.mem_append_right _ hfield)
  have hname : (featureField s column).name = column := rfl
  rw [hname] at hcontains
  exact mem_names_iff.mpr hcontains

/-- A name of a relational corpus stands for itself or comes from the features table. -/
theorem resolve_of_mem_relational {s : Schema} : ∀ f ∈ (relational s).fields,
    resolve f.name = f.name ∨ f.name ∈ featureColumns s := by
  rw [relational_eq]
  refine forall_withRelatives (P := fun f ↦ resolve f.name = f.name ∨ f.name ∈ featureColumns s)
    (fun f hf ↦ ?_)
    fun f name relative _ hrel _ _ ↦ .inl (resolve_of_mem_relatives (name, relative) hrel)
  rcases mem_relationalFields hf with h | h | h
  · exact .inl (resolve_of_mem_factFields h)
  · obtain ⟨e, hmem, rfl⟩ := List.mem_map.mp h
    have hall : ∀ e ∈ aggregateCounts, resolve e.1 = e.1 := by decide
    exact .inl (hall e (List.mem_filter.mp hmem).1)
  · obtain ⟨column, hmem, rfl⟩ := List.mem_map.mp h
    exact .inr (List.mem_filter.mp hmem).1

theorem resolve_eq_self_of_mem_relational {s : Schema} {f : Field} (h : f ∈ (relational s).fields)
    (hshort : f.name ∉ shortNames) : resolve f.name = f.name := by
  rcases resolve_of_mem_relational f h with hself | hmem
  · exact hself
  · obtain ⟨column, -, hcolumn⟩ := List.mem_map.mp hmem
    refine resolve_eq_self_iff.mpr ⟨?_, hshort⟩
    rw [← hcolumn, Text.asciiLower_asciiLower]

theorem mem_featureColumns_of_short {s : Schema} {f : Field} (h : f ∈ (relational s).fields)
    (hshort : f.name ∈ shortNames) : f.name ∈ featureColumns s :=
  (resolve_of_mem_relational f h).resolve_left fun hself ↦
    (resolve_eq_self_iff.mp hself).2 hshort

end Catalog

/-- **Own names.** Every name that a flat table lists reaches its own field. So does every name that
a relational corpus lists, unless it is a short form. Then it is the name of a column of the
features table, and whatever field the name reaches is another one. -/
theorem names_reach_own_fields (columns : List String) (s : Schema) :
    (∀ name ∈ (Catalog.columnar columns).names, (Catalog.columnar columns).Reaches name) ∧
    ∀ name ∈ (Catalog.relational s).names,
      (name ∉ Catalog.shortNames → (Catalog.relational s).Reaches name) ∧
      (name ∈ Catalog.shortNames → name ∈ Catalog.featureColumns s ∧
        ∀ f, (Catalog.relational s).lookup? name = some f → f.name ≠ name) := by
  constructor
  · intro name hname
    obtain ⟨f, hf, rfl⟩ := List.mem_map.mp hname
    exact (Catalog.reaches_iff hname).mpr (Catalog.resolve_of_mem_columnar f hf)
  · intro name hname
    obtain ⟨f, hf, rfl⟩ := List.mem_map.mp hname
    constructor
    · intro hshort
      exact (Catalog.reaches_iff hname).mpr (Catalog.resolve_eq_self_of_mem_relational hf hshort)
    · intro hshort
      exact ⟨Catalog.mem_featureColumns_of_short hf hshort,
        fun g hg ↦ Catalog.name_ne_of_lookup? hshort hg⟩

/-- Where there are columns `case` and `nouncase`, the name `case` reaches the other field. -/
theorem names_reach_own_fields_case :
    (Catalog.columnar ["case"]).Reaches "nouncase" ∧
      (Catalog.relational ⟨[("features", ["featid", "case", "nouncase"])], []⟩).Reaches "nouncase" ∧
      ∃ f, (Catalog.relational ⟨[("features", ["featid", "case", "nouncase"])], []⟩).lookup? "case"
        = some f ∧ f.name ≠ "case" := by
  let s : Schema := ⟨[("features", ["featid", "case", "nouncase"])], []⟩
  obtain ⟨hflat, hcorpus⟩ := names_reach_own_fields ["case"] s
  have hlisted : "nouncase" ∈ (Catalog.columnar ["case"]).names := Catalog.mem_names_iff.mpr rfl
  have hcase : "case" ∈ (Catalog.relational s).names :=
    Catalog.mem_names_of_mem_featureColumns (by decide) (by decide)
  have hnouncase : "nouncase" ∈ (Catalog.relational s).names :=
    Catalog.mem_names_of_mem_featureColumns (by decide) (by decide)
  obtain ⟨f, hf⟩ := Catalog.exists_get?_of_contains (Catalog.mem_names_iff.mp hnouncase)
  refine ⟨hflat _ hlisted, (hcorpus _ hnouncase).1 (by decide), f, hf, ?_⟩
  exact ((hcorpus _ hcase).2 (by decide)).2 f hf

/-- A feature that is listed as `number` reaches no field of its own, while a flat table with the
same column lists it under the name that the short form stands for. -/
theorem listed_short_form_not_reached :
    ¬(∀ s : Schema, ∀ name ∈ (Catalog.relational s).names,
      (Catalog.relational s).Reaches name) ∧
    ∃ f, (Catalog.columnar ["number"]).lookup? "number" = some f ∧ f.column = "number" := by
  constructor
  · intro h
    let s : Schema := ⟨[("features", ["featid", "number"])], []⟩
    have hlisted : "number" ∈ (Catalog.relational s).names :=
      Catalog.mem_names_of_mem_featureColumns (by decide) (by decide)
    obtain ⟨f, -, hname, hf⟩ := (h s "number" hlisted).found
    exact Catalog.name_ne_of_lookup? (by decide) hf hname
  · exact ⟨_, rfl, rfl⟩

end CorpusQuery

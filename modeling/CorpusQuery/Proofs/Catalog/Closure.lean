import CorpusQuery.Proofs.Catalog.Fields

/-!
# Catalogs have the fields that clauses are redirected to

Reading a clause does not always keep the field that was asked about: places in a word become tests
on the form, relative counts absolute ones, the lemma its plain spelling, and `compound` a pattern
on the lemma. A catalog is closed if it has every field that a clause of its own can be redirected
to. Both catalogs are closed whatever they are built from, even when a column of the features table
takes the name of a core field away.

For relational corpora there is more to say about the tables: every field lives in a table that the
corpus has, and this is never a satellite, which is only named on the side.
-/

namespace CorpusQuery

theorem Schema.hasTable_of_columns_ne_nil {s : Schema} {table : String}
    (h : s.columns table ≠ []) : s.hasTable table = true := by
  rw [Schema.columns] at h
  rw [Schema.hasTable]
  cases hl : s.tables.lookup table with
  | none => exact absurd (by rw [hl]; rfl) h
  | some columns => rfl

theorem Schema.hasTable_of_hasColumn {s : Schema} {table column : String}
    (h : s.hasColumn table column = true) : s.hasTable table = true := by
  apply hasTable_of_columns_ne_nil
  intro hnil
  rw [Schema.hasColumn, hnil] at h
  exact Bool.false_ne_true h

namespace Catalog

/-- Every field that a clause can be redirected to is there. -/
structure Closed (c : Catalog) : Prop where
  relative : ∀ f ∈ c.fields, ∀ r, f.relative = some r → c.contains r.field = true
  positional : ∀ f ∈ c.fields, ∀ position, f.kind = .positional position →
    c.contains "form" = true
  plainLemma : c.contains "lemma" = true → c.contains "lemmac" = true
  compound : c.contains "compound" = true → c.contains "lemma" = true

theorem contains_of_relative {c : Catalog} (h : ∀ f ∈ c.fields, f.relative = none) :
    ∀ f ∈ c.withRelatives.fields, ∀ r, f.relative = some r →
      c.withRelatives.contains r.field = true := by
  apply forall_withRelatives
  · intro f hf r hr
    rw [h f hf] at hr
    cases hr
  · intro f name relative _ _ _ hhas r hr
    obtain rfl := Option.some.inj hr
    exact hhas

/-! ## Relational corpora -/

/-- The fields that a schema shows, apart from relative ones. -/
def relationalFields (s : Schema) : List Field :=
  factFields s ++ aggregateFields s ++ featureFields s

theorem relational_eq (s : Schema) :
    relational s = (insertAll {} (relationalFields s)).withRelatives := rfl

theorem mem_relationalFields {s : Schema} {f : Field}
    (h : f ∈ (insertAll {} (relationalFields s)).fields) :
    f ∈ factFields s ∨ f ∈ aggregateFields s ∨ f ∈ featureFields s := by
  replace h : f ∈ relationalFields s := (mem_insertAll h).resolve_right List.not_mem_nil
  rwa [relationalFields, List.append_assoc, List.mem_append, List.mem_append] at h

theorem contains_relational_of_mem {s : Schema} {f : Field} (h : f ∈ relationalFields s) :
    (relational s).contains f.name = true := by
  rw [relational_eq]
  refine contains_withRelatives_of_contains ?_
  rw [contains_insertAll, List.any_eq_true.mpr ⟨f, h, beq_self_eq_true f.name⟩, Bool.true_or]

/-- The plain lemma without a column of its own. -/
def strippedLemma (relation : Option Relation) : Field :=
  { name := "lemmac", kind := .text, relation, column := "lemma", strip := some compoundMarker }

/-- The field that asks for compound words. -/
def compoundField (relation : Option Relation) : Field :=
  { name := "compound", kind := .boolean, relation, column := "lemma" }

theorem plainLemmaField_cases (s : Schema) :
    (s.hasColumn Relation.lemmas.table "lemmac" = true ∧
        plainLemmaField s = { factField .text "lemmac" with relation := some .lemmas }) ∨
      (s.hasColumn Relation.facts.table "lemmac" = true ∧
        plainLemmaField s = factField .text "lemmac") ∨
      plainLemmaField s = strippedLemma (some .facts) := by
  rw [plainLemmaField]
  split
  · next h => exact .inl ⟨h, rfl⟩
  · split
    · next h => exact .inr (.inl ⟨h, rfl⟩)
    · exact .inr (.inr rfl)

theorem mem_factFields {s : Schema} {f : Field} (h : f ∈ factFields s) :
    (∃ name ∈ ["lemma", "form", "pos", "feats"], f = factField .text name ∧
        (name ∈ ["lemma", "form", "pos"] ∨ s.hasColumn Relation.facts.table name = true)) ∨
      f = plainLemmaField s ∨ f ∈ positionalFields (some .facts) ∨
      f = compoundField (some .facts) ∨
      ∃ name ∈ factCounts, f = factField .numeric name ∧
        (name ∈ ["frequency", "len"] ∨ s.hasColumn Relation.facts.table name = true) := by
  simp only [factFields, List.mem_append, List.mem_map, List.mem_singleton, List.mem_filter] at h
  rcases h with (((⟨name, hname, rfl⟩ | rfl) | h) | rfl) | ⟨name, ⟨hname, hcol⟩, rfl⟩
  · refine .inl ⟨name, ?_, rfl, hname.imp_right fun hcol ↦ hcol.2⟩
    rcases hname with hname | ⟨rfl, -⟩
    · exact List.mem_append_left ["feats"] hname
    · simp
  · exact .inr (.inl rfl)
  · exact .inr (.inr (.inl h))
  · exact .inr (.inr (.inr (.inl rfl)))
  · refine .inr (.inr (.inr (.inr ⟨name, hname, rfl, ?_⟩)))
    simpa [or_assoc] using hcol

theorem contains_relational_core (s : Schema) {name : String}
    (h : name ∈ ["lemma", "form", "pos", "lemmac", "frequency", "len"]) :
    (relational s).contains name = true := by
  suffices hf : ∃ f ∈ factFields s, f.name = name by
    obtain ⟨f, hf, rfl⟩ := hf
    refine contains_relational_of_mem ?_
    rw [relationalFields, List.append_assoc]
    exact List.mem_append_left _ hf
  have hplain : (plainLemmaField s).name = "lemmac" := by
    rcases plainLemmaField_cases s with ⟨-, h⟩ | ⟨-, h⟩ | h <;> rw [h] <;> rfl
  simp only [List.mem_cons, List.not_mem_nil, or_false] at h
  rcases h with rfl | rfl | rfl | rfl | rfl | rfl
  · exact ⟨factField .text "lemma", by simp [factFields], rfl⟩
  · exact ⟨factField .text "form", by simp [factFields], rfl⟩
  · exact ⟨factField .text "pos", by simp [factFields], rfl⟩
  · exact ⟨plainLemmaField s, by simp [factFields], hplain⟩
  · exact ⟨factField .numeric "frequency", by simp [factFields, factCounts], rfl⟩
  · exact ⟨factField .numeric "len", by simp [factFields, factCounts], rfl⟩

/-- Fields of the facts table neither are relative nor have a satellite. Only the plain lemma may
live in another table. -/
theorem relation_of_mem_factFields {s : Schema} {f : Field} (h : f ∈ factFields s) :
    f.relative = none ∧ f.satellite = none ∧ (f.relation = some .facts ∨
      f.relation = some .lemmas ∧ s.hasColumn Relation.lemmas.table "lemmac" = true) := by
  rcases mem_factFields h with ⟨name, -, rfl, -⟩ | rfl | h | rfl | ⟨name, -, rfl, -⟩
  · exact ⟨rfl, rfl, .inl rfl⟩
  · rcases plainLemmaField_cases s with ⟨hcol, h⟩ | ⟨-, h⟩ | h <;> rw [h]
    · exact ⟨rfl, rfl, .inr ⟨rfl, hcol⟩⟩
    · exact ⟨rfl, rfl, .inl rfl⟩
    · exact ⟨rfl, rfl, .inl rfl⟩
  · obtain ⟨_, -, rfl⟩ := List.mem_map.mp h
    exact ⟨rfl, rfl, .inl rfl⟩
  · exact ⟨rfl, rfl, .inl rfl⟩
  · exact ⟨rfl, rfl, .inl rfl⟩

theorem relative_of_mem_relationalFields {s : Schema} {f : Field}
    (h : f ∈ (insertAll {} (relationalFields s)).fields) : f.relative = none := by
  rcases mem_relationalFields h with h | h | h
  · exact (relation_of_mem_factFields h).1
  · obtain ⟨_, -, rfl⟩ := List.mem_map.mp h
    rfl
  · obtain ⟨_, -, rfl⟩ := List.mem_map.mp h
    rfl

theorem closed_relational (s : Schema) : (relational s).Closed where
  relative := contains_of_relative fun _ hf ↦ relative_of_mem_relationalFields hf
  positional := fun _ _ _ _ ↦ contains_relational_core s (by simp)
  plainLemma := fun _ ↦ contains_relational_core s (by simp)
  compound := fun _ ↦ contains_relational_core s (by simp)

/-- **Backing tables.** Every field lives in the facts table or in another table that is there, and
never in a satellite. -/
theorem exists_relation_of_mem_relational {s : Schema} :
    ∀ f ∈ (relational s).fields, ∃ r, f.relation = some r ∧ r.isSatellite = false ∧
      (r = .facts ∨ s.hasTable r.table = true) := by
  rw [relational_eq]
  -- A relative field lives where its absolute one does.
  refine forall_withRelatives (fun f hf ↦ ?_) fun f name relative h _ _ _ ↦ h
  rcases mem_relationalFields hf with hf | hf | hf
  · obtain ⟨-, -, hr | ⟨hr, hcol⟩⟩ := relation_of_mem_factFields hf
    · exact ⟨.facts, hr, rfl, .inl rfl⟩
    · exact ⟨.lemmas, hr, rfl, .inr (Schema.hasTable_of_hasColumn hcol)⟩
  · obtain ⟨⟨name, r, column⟩, hmem, rfl⟩ := List.mem_map.mp hf
    obtain ⟨hmem, hcol⟩ := List.mem_filter.mp hmem
    refine ⟨r, rfl, ?_, .inr (Schema.hasTable_of_hasColumn hcol)⟩
    have hall : ∀ e ∈ aggregateCounts, e.2.1.isSatellite = false := by decide
    exact hall _ hmem
  · obtain ⟨column, hmem, rfl⟩ := List.mem_map.mp hf
    refine ⟨.features, rfl, rfl, .inr (Schema.hasTable_of_columns_ne_nil fun hnil ↦ ?_)⟩
    rw [hnil] at hmem
    cases hmem

theorem isSatellite_of_mem_relational {s : Schema} {f : Field} (hf : f ∈ (relational s).fields)
    {r : Relation} (hr : f.relation = some r) : r.isSatellite = false := by
  obtain ⟨r', hr', hsatellite, -⟩ := exists_relation_of_mem_relational f hf
  obtain rfl : r = r' := Option.some.inj (hr.symm.trans hr')
  exact hsatellite

/-- The columns that have satellites. -/
def satelliteColumns : List (String × Relation) :=
  [("derivation", .derivations), ("clitic", .clitics), ("nouncase", .nounCases)]

theorem mem_satelliteColumns {column : String} {r : Relation}
    (h : Relation.satelliteOf? column = some r) : (column, r) ∈ satelliteColumns := by
  rw [Relation.satelliteOf?.eq_def] at h
  split at h
  · exact Option.some.inj h ▸ .head _
  · exact Option.some.inj h ▸ .tail _ (.head _)
  · exact Option.some.inj h ▸ .tail _ (.tail _ (.head _))
  · cases h

theorem isSatellite_of_satelliteOf? {column : String} {r : Relation}
    (h : Relation.satelliteOf? column = some r) : r.isSatellite = true := by
  have hall : ∀ e ∈ satelliteColumns, e.2.isSatellite = true := by decide
  exact hall _ (mem_satelliteColumns h)

theorem satellite_of_mem_relational {s : Schema} :
    ∀ f ∈ (relational s).fields, ∀ r, f.satellite = some r →
      Relation.satelliteOf? f.column = some r := by
  rw [relational_eq]
  refine forall_withRelatives (fun f hf r hr ↦ ?_) fun f name relative h _ _ _ ↦ h
  rcases mem_relationalFields hf with hf | hf | hf
  · rw [(relation_of_mem_factFields hf).2.1] at hr
    cases hr
  · obtain ⟨_, -, rfl⟩ := List.mem_map.mp hf
    cases hr
  · obtain ⟨column, -, rfl⟩ := List.mem_map.mp hf
    exact (Option.filter_eq_some_iff.mp hr).1

/-! ## Flat tables -/

/-- The fields that the columns of a flat table back, apart from relative ones. -/
def flatFields (columns : List String) : List Field :=
  (["lemma", "form", "pos", "feats"].filter columns.contains).map (flatField .text)
    ++ flatPlainLemma columns
    ++ (if columns.contains "form" then positionalFields none else [])
    ++ (if columns.contains "lemma" then [compoundField none]
        else [])
    ++ ((factCounts ++ aggregateCounts.map (·.1)).filter columns.contains).map (flatField .numeric)
    ++ exportFeatures.filterMap fun (name, candidates) ↦ flatFeature? columns name candidates

theorem columnar_eq (columns : List String) :
    columnar columns = (insertAll {} (flatFields columns)).withRelatives := rfl

theorem flatPlainLemma_cases (columns : List String) :
    ("lemmac" ∈ columns ∧ flatPlainLemma columns = [flatField .text "lemmac"]) ∨
      ("lemmac" ∉ columns ∧ "lemma" ∈ columns ∧
        flatPlainLemma columns = [strippedLemma none]) ∨
      ("lemmac" ∉ columns ∧ "lemma" ∉ columns ∧ flatPlainLemma columns = []) := by
  rw [flatPlainLemma]
  by_cases hc : "lemmac" ∈ columns
  · rw [if_pos (List.contains_iff_mem.mpr hc)]
    exact .inl ⟨hc, rfl⟩
  · rw [if_neg (by simpa using hc)]
    by_cases hl : "lemma" ∈ columns
    · rw [if_pos (List.contains_iff_mem.mpr hl)]
      exact .inr (.inl ⟨hc, hl, rfl⟩)
    · rw [if_neg (by simpa using hl)]
      exact .inr (.inr ⟨hc, hl, rfl⟩)

theorem spec_of_mem_flatPlainLemma {columns : List String} {f : Field}
    (h : f ∈ flatPlainLemma columns) : f.name = "lemmac" ∧ f.kind = .text ∧ f.relative = none := by
  rcases flatPlainLemma_cases columns with ⟨-, h'⟩ | ⟨-, -, h'⟩ | ⟨-, -, h'⟩ <;> rw [h'] at h
  · exact List.mem_singleton.mp h ▸ ⟨rfl, rfl, rfl⟩
  · exact List.mem_singleton.mp h ▸ ⟨rfl, rfl, rfl⟩
  · cases h

theorem mem_flatFields {columns : List String} {f : Field}
    (h : f ∈ (insertAll {} (flatFields columns)).fields) :
    (∃ name ∈ ["lemma", "form", "pos", "feats"], name ∈ columns ∧ f = flatField .text name) ∨
      f ∈ flatPlainLemma columns ∨
      ("form" ∈ columns ∧ f ∈ positionalFields none) ∨
      ("lemma" ∈ columns ∧ f = compoundField none) ∨
      (∃ name ∈ factCounts ++ aggregateCounts.map (·.1), name ∈ columns ∧
        f = flatField .numeric name) ∨
      ∃ e ∈ exportFeatures, flatFeature? columns e.1 e.2 = some f := by
  replace h : f ∈ flatFields columns := (mem_insertAll h).resolve_right List.not_mem_nil
  simp only [flatFields, List.mem_append, List.mem_map, List.mem_filter, List.mem_ite_nil_right,
    List.contains_iff_mem, List.mem_filterMap, List.mem_singleton] at h
  rcases h with ((((⟨name, ⟨hmem, hcol⟩, rfl⟩ | h) | h) | h) | ⟨name, ⟨hmem, hcol⟩, rfl⟩) | h
  · exact .inl ⟨name, hmem, hcol, rfl⟩
  · exact .inr (.inl h)
  · exact .inr (.inr (.inl h))
  · exact .inr (.inr (.inr (.inl h)))
  · refine .inr (.inr (.inr (.inr (.inl ⟨name, ?_, hcol, rfl⟩))))
    rcases hmem with hmem | hmem
    · exact List.mem_append_left _ hmem
    · exact List.mem_append_right _ (List.mem_map.mpr hmem)
  · exact .inr (.inr (.inr (.inr (.inr h))))

theorem relative_of_mem_flatFields {columns : List String} {f : Field}
    (h : f ∈ (insertAll {} (flatFields columns)).fields) : f.relative = none := by
  rcases mem_flatFields h with ⟨_, -, -, rfl⟩ | h | ⟨-, h⟩ | ⟨-, rfl⟩ | ⟨_, -, -, rfl⟩ | ⟨e, -, h⟩
  · rfl
  · exact (spec_of_mem_flatPlainLemma h).2.2
  · obtain ⟨_, -, rfl⟩ := List.mem_map.mp h
    rfl
  · rfl
  · rfl
  · obtain ⟨_, -, rfl⟩ := Option.map_eq_some_iff.mp h
    rfl

theorem contains_columnar_of_mem {columns : List String} {f : Field} (h : f ∈ flatFields columns) :
    (columnar columns).contains f.name = true := by
  rw [columnar_eq]
  refine contains_withRelatives_of_contains ?_
  rw [contains_insertAll, List.any_eq_true.mpr ⟨f, h, beq_self_eq_true f.name⟩, Bool.true_or]

theorem contains_columnar_text {columns : List String} {name : String}
    (hname : name ∈ ["lemma", "form", "pos", "feats"]) (hcol : name ∈ columns) :
    (columnar columns).contains name = true := by
  refine contains_columnar_of_mem (f := flatField .text name) ?_
  simp only [flatFields, List.append_assoc]
  refine List.mem_append_left _ (List.mem_map_of_mem (List.mem_filter.mpr ⟨hname, ?_⟩))
  exact List.contains_iff_mem.mpr hcol

theorem contains_columnar_plainLemma {columns : List String}
    (h : "lemmac" ∈ columns ∨ "lemma" ∈ columns) :
    (columnar columns).contains "lemmac" = true := by
  suffices hf : ∃ f ∈ flatPlainLemma columns, f.name = "lemmac" by
    obtain ⟨f, hf, hname⟩ := hf
    rw [← hname]
    refine contains_columnar_of_mem ?_
    simp only [flatFields, List.append_assoc]
    exact List.mem_append_right _ (List.mem_append_left _ hf)
  rcases flatPlainLemma_cases columns with ⟨-, h'⟩ | ⟨-, -, h'⟩ | ⟨hc, hl, -⟩
  · exact ⟨_, h' ▸ List.mem_singleton_self _, rfl⟩
  · exact ⟨_, h' ▸ List.mem_singleton_self _, rfl⟩
  · exact absurd h (not_or.mpr ⟨hc, hl⟩)

/-- Names that neither a feature of an export nor a relative field has. -/
def coreNames : List String :=
  ["lemma", "form", "pos", "feats", "lemmac", "compound", "frequency", "len", "hood"]

theorem not_mem_relatives {name : String} {relative : Relative}
    (h : (name, relative) ∈ relatives) : name ∉ coreNames := by
  have hall : ∀ r ∈ relatives, r.1 ∉ coreNames := by decide
  exact hall _ h

theorem not_mem_exportFeatures {columns : List String} {e : String × List String} {f : Field}
    (he : e ∈ exportFeatures) (hf : flatFeature? columns e.1 e.2 = some f) :
    f.name ∉ coreNames := by
  have hall : ∀ e ∈ exportFeatures, e.1 ∉ coreNames := by decide
  obtain ⟨_, -, rfl⟩ := Option.map_eq_some_iff.mp hf
  exact hall e he

/-- A core field of a flat table is textual or numeric, and lives in the column of its name, unless
it is the plain lemma or asks for compounds. -/
theorem core_of_mem_columnar {columns : List String} :
    ∀ f ∈ (columnar columns).fields, f.name ∈ coreNames →
      (∃ name ∈ ["lemma", "form", "pos", "feats"], name ∈ columns ∧ f = flatField .text name) ∨
      f ∈ flatPlainLemma columns ∨
      ("lemma" ∈ columns ∧ f = compoundField none) ∨
      ∃ name ∈ factCounts ++ aggregateCounts.map (·.1), f = flatField .numeric name := by
  rw [columnar_eq]
  -- No relative field, no feature and no place in a word has the name of a core field.
  refine forall_withRelatives (fun f hf hname ↦ ?_)
    fun f name relative _ hrel _ _ hname ↦ absurd hname (not_mem_relatives hrel)
  rcases mem_flatFields hf with h | h | ⟨-, h⟩ | h | ⟨name, hmem, -, rfl⟩ | ⟨e, he, hf⟩
  · exact .inl h
  · exact .inr (.inl h)
  · have hall : ∀ f ∈ positionalFields none, f.name ∉ coreNames := by decide
    exact absurd hname (hall f h)
  · exact .inr (.inr (.inl h))
  · exact .inr (.inr (.inr ⟨name, hmem, rfl⟩))
  · exact absurd hname (not_mem_exportFeatures he hf)

theorem count_of_mem_columnar {columns : List String} :
    ∀ f ∈ (columnar columns).fields, f.name ∈ factCounts ++ aggregateCounts.map (·.1) →
      f = flatField .numeric f.name := by
  rw [columnar_eq]
  refine forall_withRelatives (fun f hf hname ↦ ?_) fun f name relative _ hrel _ _ hname ↦ ?_
  · rcases mem_flatFields hf with ⟨n, hn, -, rfl⟩ | h | ⟨-, h⟩ | ⟨-, rfl⟩ | ⟨n, -, -, rfl⟩ |
      ⟨e, he, h⟩
    · have hall : ∀ n ∈ ["lemma", "form", "pos", "feats"],
          n ∉ factCounts ++ aggregateCounts.map (·.1) := by decide
      exact absurd hname (hall n hn)
    · rw [(spec_of_mem_flatPlainLemma h).1] at hname
      exact absurd hname (by decide)
    · have hall : ∀ f ∈ positionalFields none,
          f.name ∉ factCounts ++ aggregateCounts.map (·.1) := by decide
      exact absurd hname (hall f h)
    · exact absurd hname (by decide)
    · rfl
    · have hall : ∀ e ∈ exportFeatures, e.1 ∉ factCounts ++ aggregateCounts.map (·.1) := by decide
      obtain ⟨_, -, rfl⟩ := Option.map_eq_some_iff.mp h
      exact absurd hname (hall e he)
  · have hall : ∀ r ∈ relatives, r.1 ∉ factCounts ++ aggregateCounts.map (·.1) := by decide
    exact absurd hname (hall _ hrel)


theorem form_mem_of_positional {columns : List String} :
    ∀ f ∈ (columnar columns).fields, ∀ position, f.kind = .positional position →
      "form" ∈ columns := by
  rw [columnar_eq]
  refine forall_withRelatives (fun f hf position hkind ↦ ?_) fun f name relative h _ _ _ ↦ h
  rcases mem_flatFields hf with ⟨_, -, -, rfl⟩ | h | ⟨hform, -⟩ | ⟨-, rfl⟩ | ⟨_, -, -, rfl⟩ |
    ⟨e, -, h⟩
  · cases hkind
  · rw [(spec_of_mem_flatPlainLemma h).2.1] at hkind
    cases hkind
  · exact hform
  · cases hkind
  · cases hkind
  · obtain ⟨_, -, rfl⟩ := Option.map_eq_some_iff.mp h
    cases hkind

/-- **Backing columns.** Every field of a flat table lives in one of its columns. -/
theorem column_mem_of_mem_columnar {columns : List String} :
    ∀ f ∈ (columnar columns).fields, f.column ∈ columns := by
  rw [columnar_eq]
  -- A relative field lives where its absolute one does.
  refine forall_withRelatives (fun f hf ↦ ?_) fun f name relative h _ _ _ ↦ h
  rcases mem_flatFields hf with ⟨name, -, hcol, rfl⟩ | h | ⟨hform, h⟩ | ⟨hlemma, rfl⟩ |
    ⟨name, -, hcol, rfl⟩ | ⟨e, -, h⟩
  · exact hcol
  · rcases flatPlainLemma_cases columns with ⟨hcol, h'⟩ | ⟨-, hcol, h'⟩ | ⟨-, -, h'⟩ <;>
      rw [h'] at h
    · obtain rfl := List.mem_singleton.mp h
      exact hcol
    · obtain rfl := List.mem_singleton.mp h
      exact hcol
    · cases h
  · obtain ⟨_, -, rfl⟩ := List.mem_map.mp h
    exact hform
  · exact hlemma
  · exact hcol
  · obtain ⟨column, hcol, rfl⟩ := Option.map_eq_some_iff.mp h
    exact List.contains_iff_mem.mp (List.find?_some hcol)

theorem column_not_mem_relatives {columns : List String} :
    ∀ f ∈ (columnar columns).fields, f.column ∉ relatives.map (·.1) := by
  rw [columnar_eq]
  refine forall_withRelatives (fun f hf ↦ ?_) fun f name relative h _ _ _ ↦ h
  rcases mem_flatFields hf with ⟨name, hname, -, rfl⟩ | h | ⟨-, h⟩ | ⟨-, rfl⟩ |
    ⟨name, hname, -, rfl⟩ | ⟨e, he, h⟩
  · have hall : ∀ n ∈ ["lemma", "form", "pos", "feats"], n ∉ relatives.map (·.1) := by decide
    exact hall name hname
  · rcases flatPlainLemma_cases columns with ⟨-, h'⟩ | ⟨-, -, h'⟩ | ⟨-, -, h'⟩ <;> rw [h'] at h
    · obtain rfl := List.mem_singleton.mp h
      decide
    · obtain rfl := List.mem_singleton.mp h
      decide
    · cases h
  · have hall : ∀ f ∈ positionalFields none, f.column ∉ relatives.map (·.1) := by decide
    exact hall f h
  · decide
  · have hall : ∀ n ∈ factCounts ++ aggregateCounts.map (·.1), n ∉ relatives.map (·.1) := by decide
    exact hall name hname
  · have hall : ∀ e ∈ exportFeatures, ∀ column ∈ e.2, column ∉ relatives.map (·.1) := by decide
    obtain ⟨column, hcolumn, rfl⟩ := Option.map_eq_some_iff.mp h
    exact hall e he column (List.mem_of_find?_eq_some hcolumn)

theorem lemma_mem_of_contains {columns : List String} {name : String}
    (hname : name = "lemma" ∨ name = "compound") (h : (columnar columns).contains name = true) :
    "lemma" ∈ columns := by
  obtain ⟨f, hf⟩ := exists_get?_of_contains h
  have hfield : f.name = name := name_of_get? hf
  have hcore : f.name ∈ coreNames := by
    rw [hfield]
    rcases hname with rfl | rfl <;> decide
  rcases core_of_mem_columnar f (mem_of_get? hf) hcore with
    ⟨n, hn, hcol, rfl⟩ | h | ⟨hcol, -⟩ | ⟨n, hn, rfl⟩
  · obtain rfl : n = name := hfield
    rcases hname with rfl | rfl
    · exact hcol
    · exact absurd hn (by decide)
  · rw [(spec_of_mem_flatPlainLemma h).1] at hfield
    rcases hname with rfl | rfl
    · exact absurd hfield (by decide)
    · exact absurd hfield (by decide)
  · exact hcol
  · obtain rfl : n = name := hfield
    rcases hname with rfl | rfl
    · exact absurd hn (by decide)
    · exact absurd hn (by decide)

theorem closed_columnar (columns : List String) : (columnar columns).Closed where
  relative := contains_of_relative fun _ hf ↦ relative_of_mem_flatFields hf
  positional := fun f hf position hkind ↦
    contains_columnar_text (by simp) (form_mem_of_positional f hf position hkind)
  plainLemma := fun h ↦
    contains_columnar_plainLemma (.inr (lemma_mem_of_contains (.inl rfl) h))
  compound := fun h ↦
    contains_columnar_text (by simp) (lemma_mem_of_contains (.inr rfl) h)

theorem kind_of_relative_columnar {columns : List String} {f g : Field} {r : Relative}
    (hg : g ∈ (columnar columns).fields) (hr : g.relative = some r)
    (hf : (columnar columns).get? r.field = some f) : f.kind = .numeric := by
  have habsolute : ∀ g ∈ (columnar columns).fields, ∀ r, g.relative = some r →
      r.field ∈ relatives.map (·.2.field) := by
    rw [columnar_eq]
    refine forall_withRelatives (fun f hf r hr ↦ ?_) fun f name relative _ hrel _ _ r hr ↦ ?_
    · rw [relative_of_mem_flatFields hf] at hr
      cases hr
    · obtain rfl := Option.some.inj hr
      exact List.mem_map_of_mem hrel
  have hcounts : ∀ n ∈ relatives.map (·.2.field), n ∈ factCounts ++ aggregateCounts.map (·.1) := by
    decide
  have hname := (name_of_get? hf).symm ▸ hcounts _ (habsolute g hg r hr)
  rw [count_of_mem_columnar f (mem_of_get? hf) hname]
  rfl

theorem strip_of_ne_text_columnar {columns : List String} :
    ∀ f ∈ (columnar columns).fields, f.kind ≠ .text → f.strip = none := by
  rw [columnar_eq]
  refine forall_withRelatives (fun f hf hkind ↦ ?_) fun f name relative h _ _ _ ↦ h
  rcases mem_flatFields hf with ⟨n, -, -, rfl⟩ | h | ⟨-, h⟩ | ⟨-, rfl⟩ | ⟨n, -, -, rfl⟩ | ⟨e, -, h⟩
  · rfl
  · exact absurd (spec_of_mem_flatPlainLemma h).2.1 hkind
  · obtain ⟨_, -, rfl⟩ := List.mem_map.mp h
    rfl
  · rfl
  · rfl
  · obtain ⟨_, -, rfl⟩ := Option.map_eq_some_iff.mp h
    rfl

theorem kind_of_plainLemma_columnar {columns : List String} {g : Field}
    (hg : (columnar columns).get? "lemmac" = some g) : g.kind = .text := by
  have hname : g.name = "lemmac" := name_of_get? hg
  rcases core_of_mem_columnar g (mem_of_get? hg) (by rw [hname]; decide) with
    ⟨n, -, -, rfl⟩ | h | ⟨-, rfl⟩ | ⟨n, hn, rfl⟩
  · rfl
  · exact (spec_of_mem_flatPlainLemma h).2.1
  · exact absurd hname (by decide)
  · obtain rfl : n = "lemmac" := hname
    exact absurd hn (by decide)

/-- The numeric fields of a relational corpus, relative ones aside, are the counts of the facts
table and those of the other tables. -/
theorem numeric_of_mem_relationalFields {s : Schema} {f : Field}
    (h : f ∈ (insertAll {} (relationalFields s)).fields) (hkind : f.kind = .numeric) :
    (∃ n ∈ factCounts, f = factField .numeric n) ∨
      ∃ e ∈ aggregateCounts,
        f = { name := e.1, kind := .numeric, relation := some e.2.1, column := e.2.2 } := by
  rcases mem_relationalFields h with hf | hf | hf
  · rcases mem_factFields hf with ⟨n, -, rfl, -⟩ | rfl | h | rfl | ⟨n, hn, rfl, -⟩
    · cases hkind
    · rcases plainLemmaField_cases s with ⟨-, h⟩ | ⟨-, h⟩ | h <;> rw [h] at hkind <;> cases hkind
    · obtain ⟨_, -, rfl⟩ := List.mem_map.mp h
      cases hkind
    · cases hkind
    · exact .inl ⟨n, hn, rfl⟩
  · obtain ⟨e, he, rfl⟩ := List.mem_map.mp hf
    exact .inr ⟨e, (List.mem_filter.mp he).1, rfl⟩
  · obtain ⟨column, -, rfl⟩ := List.mem_map.mp hf
    cases hkind

theorem numeric_of_mem_relational {s : Schema} :
    ∀ f ∈ (relational s).fields, f.kind = .numeric → f.strip = none ∧ f.satellite = none ∧
      (f.relative = none → f.name ∈ factCounts ++ aggregateCounts.map (·.1)) := by
  rw [relational_eq]
  refine forall_withRelatives (fun f hf hkind ↦ ?_) fun f name relative h _ _ _ hkind ↦ ?_
  · rcases numeric_of_mem_relationalFields hf hkind with ⟨n, hn, rfl⟩ | ⟨e, he, rfl⟩
    · exact ⟨rfl, rfl, fun _ ↦ List.mem_append_left _ hn⟩
    · exact ⟨rfl, rfl, fun _ ↦ List.mem_append_right _ (List.mem_map_of_mem he)⟩
  · exact ⟨(h hkind).1, (h hkind).2.1, fun hnone ↦ by cases hnone⟩

theorem place_of_numeric_relational {s : Schema} :
    ∀ f ∈ (relational s).fields, f.kind = .numeric → ∀ r, f.relation = some r →
      r = .facts ∧ f.column ∈ factCounts ∨ r ∈ aggregateCounts.map (·.2.1) := by
  rw [relational_eq]
  refine forall_withRelatives (fun f hf hkind r hr ↦ ?_) fun f name relative h _ _ _ ↦ h
  rcases numeric_of_mem_relationalFields hf hkind with ⟨n, hn, rfl⟩ | ⟨e, he, rfl⟩
  · exact .inl ⟨(Option.some.inj hr).symm, hn⟩
  · obtain rfl := Option.some.inj hr
    exact .inr (List.mem_map_of_mem he)

end Catalog

end CorpusQuery

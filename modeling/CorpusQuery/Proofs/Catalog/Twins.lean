import CorpusQuery.Proofs.Catalog.Closure

/-!
# Fields that a facts table and a flat table share

The same column can back a field of a relational corpus and a field of a flat table. Such fields are
twins: they have the same name and kind, live in the same column and leave out the same character.
Only the names of core fields are considered here, since a feature does not live in the facts table.
-/

namespace CorpusQuery.Catalog

/-- The textual fields that clauses without patterns end up on. -/
def textNames : List String := ["form", "pos", "feats", "lemmac"]

/-- The counts of a word form. -/
def countNames : List String := ["frequency", "len", "hood"]

/-- A field of a facts table and the field of a flat table over the same column. -/
inductive Twins : Field → Field → Prop
  | text {name : String} (h : name ∈ textNames) :
    Twins (factField .text name) (flatField .text name)
  | stripped : Twins (strippedLemma (some .facts)) (strippedLemma none)
  | count {name : String} (h : name ∈ countNames) :
    Twins (factField .numeric name) (flatField .numeric name)

theorem Twins.kind_eq {f g : Field} (h : Twins f g) : g.kind = f.kind := by
  cases h <;> rfl

theorem Twins.kind_cases {f g : Field} (h : Twins f g) :
    f.kind = .text ∧ f.name ∈ textNames ∨ f.kind = .numeric ∧ f.name ∈ countNames := by
  cases h with
  | text h => exact .inl ⟨rfl, h⟩
  | stripped => exact .inl ⟨rfl, by decide⟩
  | count h => exact .inr ⟨rfl, h⟩

theorem mem_coreNames {name : String} (h : name ∈ textNames ++ countNames) : name ∈ coreNames := by
  have hall : ∀ n ∈ textNames ++ countNames, n ∈ coreNames := by decide
  exact hall name h

/-- A core field of a facts table is textual or numeric, and lives in the column of its name, unless
it is the plain lemma or asks for compounds. -/
theorem core_of_mem_relational {s : Schema} :
    ∀ f ∈ (relational s).fields, f.name ∈ coreNames → f.relation = some .facts →
      (∃ name ∈ ["lemma", "form", "pos", "feats"], f = factField .text name) ∨
      f = plainLemmaField s ∨ f = compoundField (some .facts) ∨
      ∃ name ∈ factCounts, f = factField .numeric name := by
  rw [relational_eq]
  refine forall_withRelatives (fun f hf hname hr ↦ ?_)
    fun f name relative _ hrel _ _ hname ↦ absurd hname (not_mem_relatives hrel)
  rcases mem_relationalFields hf with hf | hf | hf
  · rcases mem_factFields hf with ⟨n, hn, h, -⟩ | h | h | h | ⟨n, hn, h, -⟩
    · exact .inl ⟨n, hn, h⟩
    · exact .inr (.inl h)
    · have hall : ∀ f ∈ positionalFields (some .facts), f.name ∉ coreNames := by decide
      exact absurd hname (hall f h)
    · exact .inr (.inr (.inl h))
    · exact .inr (.inr (.inr ⟨n, hn, h⟩))
  · obtain ⟨e, he, rfl⟩ := List.mem_map.mp hf
    have hall : ∀ e ∈ aggregateCounts, e.1 ∉ coreNames := by decide
    exact absurd hname (hall e (List.mem_filter.mp he).1)
  · obtain ⟨_, -, rfl⟩ := List.mem_map.mp hf
    cases hr

section

variable {columns : List String} {name : String}

theorem get?_columnar_text (hname : name ∈ ["lemma", "form", "pos", "feats"])
    (hcol : name ∈ columns) : (columnar columns).get? name = some (flatField .text name) := by
  obtain ⟨g, hg⟩ := exists_get?_of_contains (contains_columnar_text hname hcol)
  have hfield : g.name = name := name_of_get? hg
  have htexts : ∀ n ∈ ["lemma", "form", "pos", "feats"],
      n ∈ coreNames ∧ n ≠ "lemmac" ∧ n ≠ "compound" ∧
        n ∉ factCounts ++ aggregateCounts.map (·.1) := by decide
  obtain ⟨hcore, hplain, hcompound, hcount⟩ := htexts name hname
  rcases core_of_mem_columnar g (mem_of_get? hg) (hfield ▸ hcore) with
    ⟨n, -, -, rfl⟩ | h | ⟨-, rfl⟩ | ⟨n, hn, rfl⟩
  · obtain rfl : n = name := hfield
    exact hg
  · exact absurd (hfield.symm.trans (spec_of_mem_flatPlainLemma h).1) hplain
  · exact absurd hfield.symm hcompound
  · obtain rfl : n = name := hfield
    exact absurd hn hcount

theorem get?_columnar_count (hname : name ∈ factCounts ++ aggregateCounts.map (·.1))
    (hcol : name ∈ columns) : (columnar columns).get? name = some (flatField .numeric name) := by
  have hmem : flatField .numeric name ∈ flatFields columns := by
    refine List.mem_append_left _ (List.mem_append_right _ (List.mem_map_of_mem ?_))
    exact List.mem_filter.mpr ⟨hname, List.contains_iff_mem.mpr hcol⟩
  obtain ⟨g, hg⟩ := exists_get?_of_contains (contains_columnar_of_mem hmem)
  have hfield : g.name = name := name_of_get? hg
  have hcount := count_of_mem_columnar g (mem_of_get? hg) (hfield.symm ▸ hname)
  rw [hfield] at hcount
  exact hcount ▸ hg

theorem get?_columnar_plainLemma {f : Field} (h : flatPlainLemma columns = [f]) :
    (columnar columns).get? "lemmac" = some f := by
  have hmem : f ∈ flatPlainLemma columns := h ▸ List.mem_singleton_self f
  have hcontains : (columnar columns).contains "lemmac" = true := by
    refine contains_columnar_plainLemma ?_
    rcases flatPlainLemma_cases columns with ⟨hc, -⟩ | ⟨-, hl, -⟩ | ⟨-, -, hnil⟩
    · exact .inl hc
    · exact .inr hl
    · rw [hnil] at h
      cases h
  obtain ⟨g, hg⟩ := exists_get?_of_contains hcontains
  have hfield : g.name = "lemmac" := name_of_get? hg
  rcases core_of_mem_columnar g (mem_of_get? hg) (by rw [hfield]; decide) with
    ⟨n, hn, -, rfl⟩ | h' | ⟨-, rfl⟩ | ⟨n, hn, rfl⟩
  · obtain rfl : n = "lemmac" := hfield
    exact absurd hn (by decide)
  · rw [h] at h'
    rw [hg, List.mem_singleton.mp h']
  · exact absurd hfield (by decide)
  · obtain rfl : n = "lemmac" := hfield
    exact absurd hn (by decide)

end

/-- **Twins.** If the facts table backs one of these fields and a flat table has the same column,
then the flat table backs the field too. -/
theorem exists_twin {s : Schema} {columns : List String} {name : String} {f : Field}
    (hname : name ∈ textNames ++ countNames) (hf : (relational s).get? name = some f)
    (hr : f.relation = some .facts) (hcol : f.column ∈ columns)
    (hplain : "lemmac" ∈ columns → f.strip = none) :
    ∃ g, (columnar columns).get? name = some g ∧ Twins f g := by
  obtain rfl : f.name = name := name_of_get? hf
  rcases core_of_mem_relational f (mem_of_get? hf) (mem_coreNames hname) hr with
    ⟨n, hn, rfl⟩ | h | rfl | ⟨n, hn, rfl⟩
  · refine ⟨flatField .text n, get?_columnar_text hn hcol, .text ?_⟩
    have hall : ∀ m ∈ ["lemma", "form", "pos", "feats"],
        m ∈ textNames ++ countNames → m ∈ textNames := by decide
    exact hall n hn hname
  -- Each side chooses a column for the plain lemma. The choices agree if the flat table has no
  -- plain lemmas where the facts table has none.
  · rcases plainLemmaField_cases s with ⟨-, h'⟩ | ⟨-, h'⟩ | h' <;> rw [h'] at h <;> subst h
    · cases hr
    · rcases flatPlainLemma_cases columns with ⟨-, hflat⟩ | ⟨hc, -⟩ | ⟨hc, -⟩
      · exact ⟨_, get?_columnar_plainLemma hflat, .text (by decide)⟩
      · exact absurd hcol hc
      · exact absurd hcol hc
    · rcases flatPlainLemma_cases columns with ⟨hc, -⟩ | ⟨-, -, hflat⟩ | ⟨-, hl, -⟩
      · cases hplain hc
      · exact ⟨_, get?_columnar_plainLemma hflat, .stripped⟩
      · exact absurd hcol hl
  · exact absurd hname (by decide)
  · have hall : ∀ m ∈ factCounts, m ∈ textNames ++ countNames → m ∈ countNames := by decide
    have hcount := hall n hn hname
    exact ⟨flatField .numeric n, get?_columnar_count (List.mem_append_left _ hn) hcol,
      .count hcount⟩

/-! ## Relative fields -/

theorem not_mem_textNames_of_relative {c : Catalog} (h : ∀ f ∈ c.fields, f.relative = none) :
    ∀ f ∈ c.withRelatives.fields, ∀ r, f.relative = some r → r.field ∉ textNames := by
  apply forall_withRelatives
  · intro f hf r hr
    rw [h f hf] at hr
    cases hr
  · intro f name relative _ hmem _ _ r hr
    obtain rfl := Option.some.inj hr
    have hall : ∀ e ∈ relatives, e.2.field ∉ textNames := by decide
    exact hall _ hmem

end CorpusQuery.Catalog

import CorpusQuery.Proofs.Catalog.Closure

/-!
# Fields have their columns

Some columns are taken for granted: those that word forms are described by, and those that tables
are joined by. A schema that has them in all its tables follows the layout of a corpus. Every other
column is looked for before a field is made of it, so over such a schema every field of the catalog
lives in a column that is there, and a feature that has a satellite lives in a column of the
satellite too.
-/

namespace CorpusQuery

/-! ## The layout -/

/-- The columns that are taken for granted in a table. -/
def Relation.keyColumns : Relation → List String
  | .facts => ["lemma", "form", "pos", "frequency", "len"]
  | .features | .derivations | .clitics | .nounCases => ["featid"]
  | .lemmas => ["lemma", "pos"]
  | .initGrams | .finGrams | .bigrams => ["form", "frequency"]

/-- **The layout of a corpus.** -/
structure Schema.FollowsLayout (s : Schema) : Prop where
  /-- There is a facts table. -/
  facts : s.hasTable Relation.facts.table = true
  /-- A table that is there has the columns that are taken for granted. -/
  keys : ∀ r : Relation, s.hasTable r.table = true → ∀ c ∈ r.keyColumns,
    s.hasColumn r.table c = true
  /-- Word forms have a number for the features and the satellites that are there. -/
  features : ∀ r : Relation, "featid" ∈ r.keyColumns → s.hasTable r.table = true →
    s.hasColumn Relation.facts.table "featid" = true

theorem Schema.FollowsLayout.hasColumn_facts {s : Schema} (hs : s.FollowsLayout) {column : String}
    (h : column ∈ Relation.facts.keyColumns) : s.hasColumn Relation.facts.table column = true :=
  hs.keys .facts hs.facts column h

theorem Text.asciiLower_asciiLower (s : String) : asciiLower (asciiLower s) = asciiLower s := by
  have hlower (c : Char) : c.toLower.toLower = c.toLower := by
    by_cases h : c.val ≥ 'A'.val ∧ c.val ≤ 'Z'.val
    · -- The image of a capital letter lies behind all capital letters.
      have himage : c.toLower.val = c.val + ('a'.val - 'A'.val) := congrArg Char.val (dif_pos h)
      refine dif_neg fun hcapital ↦ ?_
      rw [himage] at hcapital
      simp only [UInt32.le_iff_toNat_le, UInt32.toNat_add, ge_iff_le, Char.reduceVal,
        UInt32.reduceToNat, UInt32.reduceSub] at h hcapital
      omega
    · have hsame : c.toLower = c := dif_neg h
      rw [hsame, hsame]
  rw [asciiLower, asciiLower, String.toList_ofList, List.map_map]
  exact congrArg _ (List.map_congr_left fun c _ ↦ hlower c)

theorem Schema.hasColumn_of_mem {s : Schema} {table column : String}
    (h : column ∈ s.columns table) : s.hasColumn table column = true :=
  List.any_eq_true.mpr ⟨column, h, beq_self_eq_true _⟩

theorem Schema.hasColumn_asciiLower (s : Schema) (table column : String) :
    s.hasColumn table (Text.asciiLower column) = s.hasColumn table column := by
  have hsame : Text.sameIgnoringCase (Text.asciiLower column) = Text.sameIgnoringCase column := by
    funext other
    rw [Text.sameIgnoringCase, Text.sameIgnoringCase, Text.asciiLower_asciiLower]
  rw [hasColumn, hasColumn, hsame]

/-! ## Fields -/

namespace Catalog

variable {s : Schema}

theorem hasColumn_of_mem_factFields (hs : s.FollowsLayout) {f : Field} (h : f ∈ factFields s)
    {r : Relation} (hr : f.relation = some r) : s.hasColumn r.table f.column = true := by
  have hkey {column : String} (h : column ∈ Relation.facts.keyColumns)
      (hr : some Relation.facts = some r) : s.hasColumn r.table column = true :=
    Option.some.inj hr ▸ hs.hasColumn_facts h
  rcases mem_factFields h with ⟨name, -, rfl, hname | hcol⟩ | rfl | h | rfl |
    ⟨name, -, rfl, hname | hcol⟩
  · exact hkey (List.mem_append_left ["frequency", "len"] hname) hr
  · exact Option.some.inj hr ▸ hcol
  · rcases plainLemmaField_cases s with ⟨hcol, h⟩ | ⟨hcol, h⟩ | h <;> rw [h] at hr ⊢
    · exact Option.some.inj hr ▸ hcol
    · exact Option.some.inj hr ▸ hcol
    · exact hkey (by decide) hr
  · have hall : ∀ f ∈ positionalFields (some .facts),
        f.relation = some .facts ∧ f.column ∈ Relation.facts.keyColumns := by decide
    obtain ⟨hfacts, hcolumn⟩ := hall f h
    exact hkey hcolumn (hfacts.symm.trans hr)
  · exact hkey (by decide) hr
  · exact hkey (List.mem_append_right ["lemma", "form", "pos"] hname) hr
  · exact Option.some.inj hr ▸ hcol

/-- **Backing columns.** Over a schema that follows the layout, every field lives in a column that
its table has, and its satellite has the column too. -/
theorem hasColumn_of_mem_relational (hs : s.FollowsLayout) :
    ∀ f ∈ (relational s).fields,
      (∀ r, f.relation = some r → s.hasColumn r.table f.column = true) ∧
      ∀ r, f.satellite = some r → s.hasColumn r.table f.column = true := by
  rw [relational_eq]
  -- A relative field lives where its absolute one does.
  refine forall_withRelatives (fun f hf ↦ ?_) fun f name relative h _ _ _ ↦ h
  rcases mem_relationalFields hf with hf | hf | hf
  · refine ⟨fun r hr ↦ hasColumn_of_mem_factFields hs hf hr, fun r hr ↦ ?_⟩
    rw [(relation_of_mem_factFields hf).2.1] at hr
    cases hr
  · obtain ⟨⟨name, r, column⟩, hmem, rfl⟩ := List.mem_map.mp hf
    refine ⟨fun r' hr ↦ ?_, fun _ hr ↦ nomatch hr⟩
    exact Option.some.inj hr ▸ (List.mem_filter.mp hmem).2
  · obtain ⟨column, hmem, rfl⟩ := List.mem_map.mp hf
    refine ⟨fun r hr ↦ ?_, fun r hr ↦ (Option.filter_eq_some_iff.mp hr).2⟩
    obtain ⟨declared, hdeclared, rfl⟩ := List.mem_map.mp (List.mem_filter.mp hmem).1
    obtain rfl := Option.some.inj hr
    exact (s.hasColumn_asciiLower _ declared).trans (Schema.hasColumn_of_mem hdeclared)

end Catalog

end CorpusQuery

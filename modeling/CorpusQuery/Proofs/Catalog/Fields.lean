import CorpusQuery.Catalog.Columnar
import CorpusQuery.Catalog.Relational

/-!
# The fields of a catalog

A catalog is built by adding fields one after another and then one relative field for every absolute
one that is there. Two questions are answered about the result: where a field that it holds can have
come from, and under which names it holds a field at all. Fields replace others of the same name, so
the first question has no exact answer in terms of one list, but an upper bound is all that the
properties of catalogs need: whatever holds of all added fields and is kept by making a field
relative holds of all fields.
-/

namespace CorpusQuery.Catalog

/-! ## Adding fields -/

theorem mem_place {f g : Field} {fs : List Field} (h : g ∈ place f fs) : g = f ∨ g ∈ fs := by
  induction fs with
  | nil => exact .inl (List.mem_singleton.mp h)
  | cons x xs ih =>
    rw [place] at h
    split at h
    · rcases List.mem_cons.mp h with rfl | h
      · exact .inl rfl
      · exact .inr (List.mem_cons_of_mem x h)
    · split at h
      · exact List.mem_cons.mp h
      · rcases List.mem_cons.mp h with rfl | h
        · exact .inr List.mem_cons_self
        · exact (ih h).imp_right (List.mem_cons_of_mem x)

theorem mem_insert {c : Catalog} {f g : Field} (h : g ∈ (c.insert f).fields) :
    g = f ∨ g ∈ c.fields := mem_place h

theorem contains_insert (c : Catalog) (f : Field) (name : String) :
    (c.insert f).contains name = (f.name == name || c.contains name) := by
  rw [contains, get?_insert]
  by_cases h : f.name = name
  · rw [if_pos (beq_iff_eq.mpr h), beq_iff_eq.mpr h]
    rfl
  · rw [if_neg (by simpa using h), beq_eq_false_iff_ne.mpr h]
    rfl

theorem mem_insertAll {c : Catalog} {g : Field} {fs : List Field}
    (h : g ∈ (c.insertAll fs).fields) : g ∈ fs ∨ g ∈ c.fields := by
  induction fs generalizing c with
  | nil => exact .inr h
  | cons f fs ih =>
    rcases ih (c := c.insert f) h with h | h
    · exact .inl (List.mem_cons_of_mem f h)
    · rcases mem_insert h with rfl | h
      · exact .inl List.mem_cons_self
      · exact .inr h

theorem contains_insertAll (c : Catalog) (fs : List Field) (name : String) :
    (c.insertAll fs).contains name = (fs.any (·.name == name) || c.contains name) := by
  induction fs generalizing c with
  | nil => rfl
  | cons f fs ih =>
    rw [insertAll, List.foldl_cons, ← insertAll, ih, contains_insert, List.any_cons]
    cases f.name == name <;> simp

theorem mem_of_get? {c : Catalog} {name : String} {f : Field} (h : c.get? name = some f) :
    f ∈ c.fields := List.mem_of_find?_eq_some h

theorem get?_of_lookup? {c : Catalog} {word : String} {f : Field} (h : c.lookup? word = some f) :
    c.get? f.name = some f := by
  rw [lookup?] at h
  rwa [name_of_get? h]

theorem contains_of_get? {c : Catalog} {name : String} {f : Field} (h : c.get? name = some f) :
    c.contains name = true := by
  rw [contains, h]
  rfl

theorem exists_get?_of_contains {c : Catalog} {name : String} (h : c.contains name = true) :
    ∃ f, c.get? name = some f := Option.isSome_iff_exists.mp h

/-! ## Relative fields -/

/-- A field of relative counts that rescales another one. -/
def relativeOf (base : Field) (name : String) (relative : Relative) : Field :=
  { base with name, relative := some relative }

theorem mem_insertRelative {c : Catalog} {g : Field} {name : String} {relative : Relative}
    (h : g ∈ (c.insertRelative name relative).fields) :
    g ∈ c.fields ∨ ∃ base ∈ c.fields, base.name = relative.field ∧
      c.contains relative.field = true ∧ g = relativeOf base name relative := by
  rw [insertRelative] at h
  split at h
  · next base hbase =>
    rcases mem_insert h with rfl | h
    · exact .inr ⟨base, mem_of_get? hbase, name_of_get? hbase, contains_of_get? hbase, rfl⟩
    · exact .inl h
  · exact .inl h

theorem contains_insertRelative_of_contains {c : Catalog} {other : String}
    (h : c.contains other = true) (name : String) (relative : Relative) :
    (c.insertRelative name relative).contains other = true := by
  rw [insertRelative]
  split
  · rw [contains_insert, h, Bool.or_true]
  · exact h

theorem contains_foldl_insertRelative {c : Catalog} {name : String}
    (h : c.contains name = true) (rs : List (String × Relative)) :
    (rs.foldl (fun c (r : String × Relative) ↦ c.insertRelative r.1 r.2) c).contains name
      = true := by
  induction rs generalizing c with
  | nil => exact h
  | cons r rs ih => exact ih (contains_insertRelative_of_contains h r.1 r.2)

theorem contains_withRelatives_of_contains {c : Catalog} {name : String}
    (h : c.contains name = true) : c.withRelatives.contains name = true :=
  contains_foldl_insertRelative h relatives

/-- **Properties of all fields.** What holds of every field, and is kept by making a field relative
when the catalog has the absolute field, holds of every field once the relative ones are there. -/
theorem forall_withRelatives {c : Catalog} {P : Field → Prop} (h : ∀ f ∈ c.fields, P f)
    (hrel : ∀ f name relative, P f → (name, relative) ∈ relatives → f.name = relative.field →
      c.withRelatives.contains relative.field = true → P (relativeOf f name relative)) :
    ∀ f ∈ c.withRelatives.fields, P f := by
  -- The list shrinks from the front. What is kept of it is that it lies in `relatives`, and what is
  -- kept of the catalog is that the names it has by now are names of the final one.
  have go : ∀ (rs : List (String × Relative)) (d : Catalog), (∀ f ∈ d.fields, P f) →
      (∀ r ∈ rs, r ∈ relatives) →
      rs.foldl (fun c (r : String × Relative) ↦ c.insertRelative r.1 r.2) d = c.withRelatives →
      ∀ f ∈ c.withRelatives.fields, P f := by
    intro rs
    induction rs with
    | nil => intro d hd _ hfinal; exact hfinal ▸ hd
    | cons r rs ih =>
      intro d hd hrs hfinal
      refine ih _ ?_ (fun r' hr' ↦ hrs r' (List.mem_cons_of_mem r hr')) hfinal
      intro g hg
      rcases mem_insertRelative hg with hg | ⟨base, hbase, hname, hhas, rfl⟩
      · exact hd g hg
      · refine hrel base r.1 r.2 (hd base hbase) (hrs r List.mem_cons_self) hname ?_
        rw [← hfinal]
        exact contains_foldl_insertRelative (contains_insertRelative_of_contains hhas r.1 r.2) rs
  exact go relatives c h (fun _ hr ↦ hr) rfl

end CorpusQuery.Catalog

import CorpusQuery.Proofs.Catalog.Fields
import CorpusQuery.Proofs.Traversals
import CorpusQuery.Query.Reading

/-!
# The predicates that queries are read as

Reading goes clause by clause, and each clause is taken apart in a fixed order of checks. What the
backends have to cope with is said here without that order: a predicate is admitted by a catalog if
it is one of six shapes, each tied to a field that the catalog has. Whatever a query is read as, its
predicates are admitted.
-/

namespace CorpusQuery

/-- The operands that a comparator takes on a textual field: a list of at least one text if it asks
about a set, and else one text. -/
inductive Operand.Textual : Comparator → Operand → Prop
  | one {c : Comparator} (h : c.isSet = false) (s : String) : Textual c (.text s)
  | many {c : Comparator} (h : c.isSet = true) (s : String) (ss : List String) :
    Textual c (.texts (s :: ss))

theorem Operand.Textual.mapTexts {c : Comparator} {o : Operand} (h : Textual c o)
    (f : String → String) : Textual c (o.mapTexts f) := by
  cases h with
  | one hc s => exact .one hc (f s)
  | many hc s ss => exact .many hc (f s) (ss.map f)

theorem Operand.Textual.asTexts_ne_nil {c : Comparator} {o : Operand} (h : Textual c o) :
    o.asTexts ≠ [] := by
  cases h with
  | one hc s => exact List.cons_ne_nil s []
  | many hc s ss => exact List.cons_ne_nil s ss

theorem Value.ofNumber_ne_null (x : Float) : Value.ofNumber x ≠ .null := by
  rw [ofNumber]
  split
  · split <;> exact Value.noConfusion
  · exact Value.noConfusion

namespace Catalog

/-- The predicates that queries over a catalog can have. -/
inductive Admits (c : Catalog) : Predicate → Prop
  | compound (negated : Bool) (h : c.contains "compound" = true) :
    Admits c (Query.compoundPredicate negated)
  | number {f : Field} {op : Comparator} (x : Float) (hf : c.get? f.name = some f)
    (hkind : f.kind = .numeric) (hrel : f.relative = none) (hop : f.allows op = true) :
    Admits c ⟨f.name, op.operator, .number (.ofNumber x), op.negates⟩
  | relative {f : Field} {r : Relative} {op : Comparator} (x : Float)
    (hf : c.get? f.name = some f) (hkind : f.kind = .numeric) (hrel : f.relative = some r)
    (hop : f.allows op = true) :
    Admits c ⟨r.field, op.operator, .number (.ofNumber x), op.negates⟩
  | position {f : Field} {place : Position} {op : Comparator} {o : Operand}
    (hf : c.get? f.name = some f) (hkind : f.kind = .positional place)
    (hop : f.allows op = true) (ho : o.Textual op) :
    Admits c ⟨"form", place.operator, o, op.negates⟩
  | text {f : Field} {op : Comparator} {o : Operand} (hf : c.get? f.name = some f)
    (hkind : f.kind = .text ∨ f.kind.isFeature = true) (hop : f.allows op = true)
    (ho : o.Textual op) :
    Admits c ⟨f.name, op.operator, o, op.negates⟩
  | plainLemma {op : Comparator} {o : Operand} (h : c.contains "lemma" = true)
    (hop : op.operator ≠ .like)
    (hallowed : FieldKind.text.comparators.contains op = true) (ho : o.Textual op) :
    Admits c ⟨"lemmac", op.operator, o, op.negates⟩

end Catalog

namespace Query

theorem textual_of_readText {field raw : String} {c : Comparator} {o : Operand}
    (h : readText field c raw = .ok o) : o.Textual c := by
  rw [readText] at h
  by_cases hc : c.isSet = true
  · rw [if_pos hc] at h
    cases hitems : readItems raw.toList with
    | nil =>
      rw [hitems] at h
      cases h
    | cons s ss =>
      rw [hitems] at h
      obtain rfl := Except.ok.inj h
      exact .many hc s ss
  · rw [if_neg hc] at h
    obtain rfl := Except.ok.inj h
    exact .one (by simpa using hc) _

/-! ## Clauses -/

section

variable {catalog : Catalog} {totals : Totals} {word raw : String} {f : Field} {c : Comparator}
  {p : Predicate}

/-- Values of textual fields are spelled the way they are stored, and the lemma goes to its plain
spelling. -/
theorem admits_normalizeText {o : Operand} (hf : catalog.get? f.name = some f)
    (hop : f.allows c = true) (hkind : f.kind = .text ∨ f.kind.isFeature = true)
    (ho : o.Textual c) :
    catalog.Admits ⟨(normalizeText f c.operator o).1, c.operator,
      (normalizeText f c.operator o).2, c.negates⟩ := by
  rw [normalizeText]
  by_cases hpos : (f.name == "pos") = true
  · rw [if_pos hpos]
    exact .text hf hkind hop (ho.mapTexts _)
  rw [if_neg hpos]
  by_cases hfeature : (f.kind.isFeature && c.operator != .like) = true
  · rw [if_pos hfeature]
    exact .text hf hkind hop (ho.mapTexts _)
  rw [if_neg hfeature]
  by_cases hlemma : (f.name == "lemma" && c.operator != .like) = true
  · rw [if_pos hlemma]
    obtain ⟨hname, hlike⟩ := Bool.and_eq_true_iff.mp hlemma
    -- A feature has been dealt with above, so this is the textual lemma.
    have hkind' : f.kind = .text := by
      refine hkind.resolve_right fun hfeat ↦ hfeature ?_
      rw [hfeat, hlike, Bool.and_true]
    refine .plainLemma ?_ (by simpa using hlike) ?_ (ho.mapTexts _)
    · exact (beq_iff_eq.mp hname) ▸ Catalog.contains_of_get? hf
    · rwa [Field.allows, hkind'] at hop
  · rw [if_neg hlemma]
    exact .text hf hkind hop ho

/-- **One clause.** The predicate that a field and an allowed comparator are read as is admitted. -/
theorem admits_of_readPredicate (hf : catalog.get? f.name = some f) (hop : f.allows c = true)
    (h : readPredicate totals word f c raw = .ok p) : catalog.Admits p := by
  -- Textual fields and features are read in the same way.
  have htext (hkind : f.kind = .text ∨ f.kind.isFeature = true)
      (h : (readText word c raw >>= fun o ↦ Except.ok ⟨(normalizeText f c.operator o).1,
        c.operator, (normalizeText f c.operator o).2, c.negates⟩) = .ok p) :
      catalog.Admits p := by
    obtain ⟨o, ho, h⟩ := exists_of_bind_eq_ok h
    obtain rfl := Except.ok.inj h
    exact admits_normalizeText hf hop hkind (textual_of_readText ho)
  rw [readPredicate] at h
  split at h
  · next hkind =>
    obtain ⟨x, -, h⟩ := exists_of_bind_eq_ok h
    cases hrel : f.relative with
    | none =>
      rw [hrel] at h
      obtain rfl := Except.ok.inj h
      exact .number x hf hkind hrel hop
    | some r =>
      rw [hrel] at h
      obtain rfl := Except.ok.inj h
      exact .relative _ hf hkind hrel hop
  · next place hkind =>
    obtain ⟨o, ho, h⟩ := exists_of_bind_eq_ok h
    obtain rfl := Except.ok.inj h
    exact .position hf hkind hop (textual_of_readText ho)
  · next hkind => exact htext (.inl hkind) h
  · next m hkind => exact htext (.inr (by rw [hkind]; rfl)) h
  · cases h

theorem name_of_lookupField (h : lookupField catalog word = .ok f) :
    catalog.get? f.name = some f := by
  rw [lookupField] at h
  split at h
  · next g hg =>
    obtain rfl := Except.ok.inj h
    exact Catalog.get?_of_lookup? hg
  · cases h

theorem allows_of_allowedComparator {spelling : String} {c' : Option Comparator}
    (h : allowedComparator f word spelling c' = .ok c) : f.allows c = true := by
  rw [allowedComparator] at h
  split at h
  · next d hd =>
    obtain rfl := Except.ok.inj h
    exact (Option.filter_eq_some_iff.mp hd).2
  · cases h

theorem admits_of_readCompound {negated : Bool}
    (h : readCompound catalog negated = .ok (.predicate p)) : catalog.Admits p := by
  rw [readCompound] at h
  split at h
  · next hc =>
    obtain rfl := Part.predicate.inj (Except.ok.inj h)
    exact .compound negated hc
  · cases h

theorem admits_of_readSimple {comparator : String}
    (h : readSimple catalog totals word comparator raw = .ok (.predicate p)) :
    catalog.Admits p := by
  obtain ⟨f, hf, h⟩ := exists_of_bind_eq_ok h
  obtain ⟨c, hc, h⟩ := exists_of_bind_eq_ok h
  obtain ⟨q, hq, h⟩ := exists_of_bind_eq_ok h
  obtain rfl := Part.predicate.inj (Except.ok.inj h)
  exact admits_of_readPredicate (name_of_lookupField hf) (allows_of_allowedComparator hc) hq

theorem admits_of_readPaired {text first second : String}
    (h : readPaired catalog totals text word first second raw = .ok (.predicate p)) :
    catalog.Admits p := by
  rw [readPaired] at h
  split at h
  · cases h
  · obtain ⟨f, hf, h⟩ := exists_of_bind_eq_ok h
    obtain ⟨c, hc, h⟩ := exists_of_bind_eq_ok h
    obtain ⟨q, hq, h⟩ := exists_of_bind_eq_ok h
    obtain rfl := Part.predicate.inj (Except.ok.inj h)
    exact admits_of_readPredicate (name_of_lookupField hf) (allows_of_allowedComparator hc) hq

theorem admits_of_readWords {text : String} {words : List String}
    (h : readWords catalog totals text words = .ok (.predicate p)) : catalog.Admits p := by
  rw [readWords.eq_def] at h
  split at h
  · split at h
    · exact admits_of_readCompound h
    · cases h
  · split at h
    · rw [readTop] at h
      split at h <;> cases h
    · split at h
      · exact admits_of_readCompound h
      · cases h
  · exact admits_of_readSimple h
  · exact admits_of_readPaired h
  · cases h

end

/-! ## Queries -/

theorem mem_separate {rs : List (Except ClauseError Part)} {part : Part}
    (h : part ∈ (separate rs).1) : .ok part ∈ rs := by
  induction rs with
  | nil => cases h
  | cons r rs ih =>
    cases r with
    | ok first =>
      rcases List.mem_cons.mp h with rfl | h
      · exact List.mem_cons_self
      · exact List.mem_cons_of_mem _ (ih h)
    | error e => exact List.mem_cons_of_mem _ (ih h)

theorem mem_ofParts {parts : List Part} {p : Predicate} (h : p ∈ (ofParts parts).predicates) :
    .predicate p ∈ parts := by
  obtain ⟨part, hpart, h⟩ := List.mem_filterMap.mp h
  cases part with
  | predicate q =>
    obtain rfl := Option.some.inj h
    exact hpart
  | top n => cases h

/-- **Whole queries.** Whatever a text is read as, all predicates are admitted. -/
theorem admits_of_mem_read {catalog : Catalog} {totals : Totals} {input : String} {q : Query}
    {p : Predicate} (h : read catalog totals input = .ok q) (hp : p ∈ q.predicates) :
    catalog.Admits p := by
  have hq : (readPartial catalog totals input).1 = q := by
    rw [read] at h
    split at h
    · next hpartial =>
      rw [hpartial]
      exact Except.ok.inj h
    · cases h
  subst hq
  rw [readPartial] at hp
  split at hp
  · cases hp
  · obtain ⟨clause, -, hclause⟩ := List.mem_map.mp (mem_separate (mem_ofParts hp))
    exact admits_of_readWords hclause

end Query

end CorpusQuery

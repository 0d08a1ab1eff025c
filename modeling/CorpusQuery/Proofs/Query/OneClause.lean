import CorpusQuery.Proofs.Query.Composition

/-!
# Texts with one clause

The words of a text that is put together from words are these words, as long as there is white space
between them. If none of them is a separator they are one clause, and what is read of the text is
what is read of that clause. A separator at the beginning or at the end leaves an empty clause
there, and the whole text is refused.

## Main statements

* `Query.exists_readClauses_eq`: words without a separator are one clause.
* `Query.not_read_of_nil_mem`: a text with an empty clause beside others is refused.
* `Query.read_clause_iff`: what a comparison is read as.
-/

namespace CorpusQuery

namespace Text

/-! ## Words put together -/

/-- A text that is one word. -/
structure IsWord (s : String) : Prop where
  ne_empty : s ≠ ""
  no_gap : ∀ c ∈ s.toList, isWordGap c = false

theorem wordsOf_append_space (a b : String) :
    wordsOf (a ++ " " ++ b) = wordsOf a ++ wordsOf b := by
  have hsplit : (a.toList ++ ' ' :: b.toList).splitOnP isWordGap
      = a.toList.splitOnP isWordGap ++ b.toList.splitOnP isWordGap :=
    List.splitOnP_append_cons _ _ rfl
  have htext : (a ++ " " ++ b).toList = a.toList ++ ' ' :: b.toList := by simp
  rw [wordsOf, htext, runs, hsplit, List.filter_append, List.map_append]
  rfl

theorem IsWord.wordsOf_eq {s : String} (h : IsWord s) : wordsOf s = [s] := by
  have hne : s.toList ≠ [] := by simpa using h.ne_empty
  rw [wordsOf, runs, List.splitOnP_eq_singleton h.no_gap,
    List.filter_cons_of_pos (by simpa using hne), List.filter_nil, List.map_singleton,
    String.ofList_toList]

theorem exists_not_gap_of_wordsOf_ne_nil {input : String} (h : wordsOf input ≠ []) :
    ∃ c ∈ input.toList, isWordGap c = false := by
  obtain ⟨w, hw⟩ := List.exists_mem_of_ne_nil _ h
  obtain ⟨cs, hcs, -⟩ := List.mem_map.mp hw
  obtain ⟨hpiece, hne⟩ := List.mem_filter.mp hcs
  obtain ⟨c, hc⟩ := List.exists_mem_of_ne_nil cs (by simpa using hne)
  have hmem : c ∈ (input.toList.splitOnP isWordGap).flatten :=
    List.mem_flatten.mpr ⟨cs, hpiece, hc⟩
  rw [flatten_splitOnP, List.mem_filter] at hmem
  exact ⟨c, hmem.1, by simpa using hmem.2⟩

end Text

namespace Query

variable {catalog : Catalog} {totals : Totals} {input : String}

/-! ## Clauses -/

theorem separate_snd_eq_nil_iff {rs : List (Except ClauseError Part)} :
    (separate rs).2 = [] ↔ ∀ r ∈ rs, ∃ part, r = .ok part := by
  induction rs with
  | nil => simp [separate]
  | cons r rs ih =>
    cases r with
    | ok part => simp [separate, ih]
    | error e => simp [separate]

theorem exists_read_iff_forall (h : Text.wordsOf input ≠ []) :
    (∃ q, read catalog totals input = .ok q) ↔
      ∀ r ∈ readClauses catalog totals input, ∃ part, r = .ok part := by
  rw [exists_read_iff, readPartial_of_word (Text.exists_not_gap_of_wordsOf_ne_nil h)]
  exact separate_snd_eq_nil_iff

/-- **Empty clauses.** A text with a clause without words, beside others with words, is refused. -/
theorem not_read_of_nil_mem (h : Text.wordsOf input ≠ [])
    (hnil : [] ∈ (Text.wordsOf input).splitOnP Text.isSeparator) :
    ¬∃ q, read catalog totals input = .ok q := by
  rw [exists_read_iff_forall h]
  intro hall
  rw [← map_words_ofText] at hnil
  obtain ⟨c, hc, hwords⟩ := List.mem_map.mp hnil
  obtain ⟨part, hpart⟩ := hall _ (List.mem_map_of_mem hc)
  rw [readClause, hwords] at hpart
  cases hpart

/-- **One clause.** Words none of which is a separator are one clause. -/
theorem exists_readClauses_eq (catalog : Catalog) (totals : Totals)
    (h : ∀ w ∈ Text.wordsOf input, Text.isSeparator w = false) :
    ∃ text, readClauses catalog totals input
      = [readWords catalog totals text (Text.wordsOf input)] := by
  have hmap := map_words_ofText input
  rw [List.splitOnP_eq_singleton h] at hmap
  obtain ⟨c, hc, hwords⟩ := List.map_eq_singleton_iff.mp hmap
  refine ⟨c.text, ?_⟩
  rw [readClauses, hc, List.map_singleton, readClause, hwords]

theorem read_of_readClauses {part : Part} (h : Text.wordsOf input ≠ [])
    (hclauses : readClauses catalog totals input = [.ok part]) :
    read catalog totals input = .ok (ofParts [part]) := by
  rw [read_eq_ok_iff, readPartial_of_word (Text.exists_not_gap_of_wordsOf_ne_nil h), hclauses]
  rfl

/-! ## Three words -/

section

variable {word spelling raw : String} {f : Field} {c : Comparator} {p : Predicate}

theorem read_of_readSimple (hwords : Text.wordsOf input = [word, spelling, raw])
    (hseparator : ∀ w ∈ [word, spelling, raw], Text.isSeparator w = false)
    (hsimple : readSimple catalog totals word spelling raw = .ok (.predicate p)) :
    read catalog totals input = .ok ⟨[p], none⟩ := by
  have hne : Text.wordsOf input ≠ [] := hwords ▸ List.cons_ne_nil _ _
  obtain ⟨text, hclauses⟩ := exists_readClauses_eq catalog totals (hwords ▸ hseparator)
  rw [hwords, readWords, hsimple] at hclauses
  exact read_of_readClauses hne hclauses

theorem not_read_of_separator (hwords : Text.wordsOf input = [word, spelling, raw])
    (hseparator : Text.isSeparator word = true ∨ Text.isSeparator raw = true) :
    ¬∃ q, read catalog totals input = .ok q := by
  have hne : Text.wordsOf input ≠ [] := hwords ▸ List.cons_ne_nil _ _
  refine not_read_of_nil_mem hne ?_
  rw [hwords]
  rcases hseparator with hword | hraw
  · have hsplit : [word, spelling, raw].splitOnP Text.isSeparator
        = [] :: [spelling, raw].splitOnP Text.isSeparator :=
      List.splitOnP_append_cons [] _ hword
    rw [hsplit]
    exact List.mem_cons_self
  · have hsplit : [word, spelling, raw].splitOnP Text.isSeparator
        = [word, spelling].splitOnP Text.isSeparator ++ [[]] :=
      List.splitOnP_append_cons [word, spelling] [] hraw
    rw [hsplit]
    exact List.mem_append_right _ (List.mem_singleton_self [])

theorem readSimple_of_lookup (hf : catalog.lookup? word = some f)
    (hc : Comparator.read? spelling = some c) (hallowed : f.allows c = true)
    (hp : readPredicate totals word f c raw = .ok p) :
    readSimple catalog totals word spelling raw = .ok (.predicate p) := by
  have hfield : lookupField catalog word = .ok f := by
    rw [lookupField, hf]
  have hcomparator : allowedComparator f word spelling (some c) = .ok c := by
    rw [allowedComparator, Option.filter_some_pos hallowed]
  rw [readSimple, hfield, hc]
  dsimp only [bind, Except.bind]
  rw [hcomparator]
  dsimp only
  rw [hp]
  rfl

end

end Query

/-! ## Comparisons -/

namespace Comparator

variable {c : Comparator}

/-- The clause that compares a field with a value. -/
def clause (c : Comparator) (word raw : String) : String := word ++ " " ++ c.text ++ " " ++ raw

theorem isWord_text (hc : c ≠ .notLike) : Text.IsWord c.text := by
  cases c <;> first | exact absurd rfl hc | exact ⟨by decide, by simp [text, isWordGap]⟩

theorem isSeparator_text (c : Comparator) : Text.isSeparator c.text = false := by
  cases c <;> decide

theorem read?_text (hc : c ≠ .notLike) : read? c.text = some c := by
  cases c <;> first | exact absurd rfl hc | decide

theorem wordsOf_clause (hc : c ≠ .notLike) {word raw : String} (hword : Text.IsWord word)
    (hraw : Text.IsWord raw) : Text.wordsOf (c.clause word raw) = [word, c.text, raw] := by
  rw [clause, Text.wordsOf_append_space, Text.wordsOf_append_space, hword.wordsOf_eq,
    (isWord_text hc).wordsOf_eq, hraw.wordsOf_eq]
  rfl

end Comparator

/-- **Comparisons.** If a field can be compared with a value, the clause that does so is read as the
predicate for it, unless the field or the value is spelled like a separator. -/
theorem Query.read_clause_iff {catalog : Catalog} {totals : Totals} {word raw : String} {f : Field}
    {c : Comparator} {p : Predicate} {q : Query} (hc : c ≠ .notLike) (hword : Text.IsWord word)
    (hraw : Text.IsWord raw) (hf : catalog.lookup? word = some f) (hallowed : f.allows c = true)
    (hp : readPredicate totals word f c raw = .ok p) :
    read catalog totals (c.clause word raw) = .ok q ↔
      (Text.isSeparator word = false ∧ Text.isSeparator raw = false) ∧ q = ⟨[p], none⟩ := by
  have hwords := Comparator.wordsOf_clause hc hword hraw
  have hsimple := readSimple_of_lookup hf (Comparator.read?_text hc) hallowed hp
  by_cases hplain : Text.isSeparator word = false ∧ Text.isSeparator raw = false
  · have hseparator : ∀ w ∈ [word, c.text, raw], Text.isSeparator w = false := by
      simp [hplain.1, hplain.2, c.isSeparator_text]
    rw [read_of_readSimple hwords hseparator hsimple, Except.ok.injEq, eq_comm]
    exact (and_iff_right hplain).symm
  · have hseparator : Text.isSeparator word = true ∨ Text.isSeparator raw = true := by
      rwa [not_and_or, Bool.not_eq_false, Bool.not_eq_false] at hplain
    refine iff_of_false (fun h ↦ ?_) fun h ↦ hplain h.1
    exact not_read_of_separator hwords hseparator ⟨q, h⟩

end CorpusQuery

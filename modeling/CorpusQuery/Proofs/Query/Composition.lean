import CorpusQuery.Catalog.Columnar
import CorpusQuery.Proofs.Clause.Recovery
import CorpusQuery.Query.Reading

/-!
# Queries made of two queries

Two texts with the word `and` between them read as the clauses of the one and then those of the
other. All that is read of a clause are its words and its own part of the text, so the places of the
words matter only as far as that part is concerned: in front of other text the places stay, and
behind other text they are all moved by the same number of bytes.

A text without words is the empty query, although it has an empty clause. In a longer query that
clause is refused, so both texts have to have words.

## Main statements

* `Clause.contents_and`: the clauses of two texts with a separator between them.
* `Query.readPartial_of_word`: a text with a word is read clause by clause.
* `readPartial_and`: predicates and errors of the two queries follow each other, and the last `top`
  counts.
-/

namespace CorpusQuery

/-! ## Moved places -/

namespace Text

theorem dropBytes_append {n : Nat} {cs : List Char} (h : n ≤ byteLength cs) (more : List Char) :
    dropBytes n (cs ++ more) = dropBytes n cs ++ more := by
  induction cs generalizing n with
  | nil =>
    obtain rfl : n = 0 := Nat.le_zero.mp h
    rw [dropBytes, dropBytes]
  | cons c cs ih =>
    rcases n with _ | n
    · rw [dropBytes, dropBytes]
    · rw [byteLength_cons] at h
      rw [List.cons_append, dropBytes, dropBytes, ih (by omega)]

theorem takeBytes_append {n : Nat} {cs : List Char} (h : n ≤ byteLength cs) (more : List Char) :
    takeBytes n (cs ++ more) = takeBytes n cs := by
  induction cs generalizing n with
  | nil =>
    obtain rfl : n = 0 := Nat.le_zero.mp h
    rw [takeBytes, takeBytes]
  | cons c cs ih =>
    rcases n with _ | n
    · rw [takeBytes, takeBytes]
    · rw [byteLength_cons] at h
      rw [List.cons_append, takeBytes, takeBytes, ih (by omega)]

theorem dropBytes_byteLength_add (before : List Char) (n : Nat) (cs : List Char) :
    dropBytes (byteLength before + n) (before ++ cs) = dropBytes n cs := by
  induction before with
  | nil => rw [byteLength_nil, Nat.zero_add, List.nil_append]
  | cons c before ih =>
    rw [byteLength_cons, List.cons_append, Nat.add_assoc, dropBytes_utf8Size_add, ih]

theorem slice_moved (before : List Char) (start stop : Nat) (cs : List Char) :
    slice (byteLength before + start) (byteLength before + stop) (before ++ cs)
      = slice start stop cs := by
  rw [slice, slice, dropBytes_byteLength_add, Nat.add_sub_add_left]

theorem slice_self (n : Nat) (cs : List Char) : slice n n cs = [] := by
  rw [slice, Nat.sub_self, takeBytes]

theorem slice_append {start stop : Nat} {cs : List Char} (hstart : start ≤ byteLength cs)
    (hstop : stop - start ≤ byteLength (dropBytes start cs)) (more : List Char) :
    slice start stop (cs ++ more) = slice start stop cs := by
  rw [slice, slice, dropBytes_append hstart, takeBytes_append hstop]

end Text

namespace Token

/-- The word moved by a number of bytes. The column, which nothing is read from, is left out. -/
def moved (n : Nat) (t : Token) : Token where
  lexeme := t.lexeme
  column := 0
  start := n + t.start
  stop := n + t.stop

theorem map_moved_at? {p q : Place} {m n : Nat} (h : m + p.byte = n + q.byte) (word : List Char) :
    (at? p word).map (moved m) = (at? q word).map (moved n) := by
  cases word with
  | nil => rfl
  | cons c cs =>
    rw [at?, at?, List.map_singleton, List.map_singleton, moved, moved, h]
    dsimp only
    rw [← Nat.add_assoc, ← Nat.add_assoc, h]

/-- From whatever place a text is read, the same words stand at the same distances. -/
theorem map_moved_wordsFrom {p q : Place} {m n : Nat} (h : m + p.byte = n + q.byte)
    (cs : List Char) : (wordsFrom p cs).map (moved m) = (wordsFrom q cs).map (moved n) := by
  have hscan : (scan p cs).1 = (scan q cs).1 ∧
      (scan p cs).2.map (moved m) = (scan q cs).2.map (moved n) := by
    induction cs generalizing p q with
    | nil => exact ⟨rfl, rfl⟩
    | cons c cs ih =>
      have hafter : m + (p.after c).byte = n + (q.after c).byte := by
        rw [Place.after, Place.after, ← Nat.add_assoc, ← Nat.add_assoc, h]
      obtain ⟨hword, htokens⟩ := ih hafter
      by_cases hc : isWordGap c = true
      · rw [scan_gap hc, scan_gap hc]
        refine ⟨rfl, ?_⟩
        rw [wordsFrom, wordsFrom, List.map_append, List.map_append, hword, htokens,
          map_moved_at? hafter]
      · have hc : isWordGap c = false := Bool.eq_false_iff.mpr hc
        rw [scan_char hc, scan_char hc]
        exact ⟨by rw [hword], htokens⟩
  rw [wordsFrom, wordsFrom, List.map_append, List.map_append, hscan.1, hscan.2, map_moved_at? h]

end Token

/-! ## What is read of clauses -/

namespace Clause

/-- All that is read of a clause: its text and its words. -/
def content (c : Clause) : String × List String := (c.text, c.words)

/-- What is read of the clauses that words are grouped into. -/
def contents (text : List Char) (tokens : List Token) : List (String × List String) :=
  (tokens.splitOnP (·.isSeparator)).map fun group ↦ (ofTokens text group 0).content

theorem content_nil (text : List Char) (place : Nat) :
    (ofTokens text [] place).content = ("", []) := by
  rw [content, ofTokens]
  dsimp only
  rw [List.head?_nil, List.getLast?_nil, Option.map_none, Option.map_none, Option.getD_none,
    Text.slice_self]
  rfl

theorem content_of_ends {tokens : List Token} {t u : Token} (hfirst : tokens.head? = some t)
    (hlast : tokens.getLast? = some u) (text : List Char) (place : Nat) :
    (ofTokens text tokens place).content
      = (.ofList (Text.trimChars (Text.slice t.start u.stop text)), tokens.map (·.lexeme)) := by
  rw [content, ofTokens, hfirst, hlast]
  rfl

theorem content_ofTokens (text : List Char) (tokens : List Token) (place : Nat) :
    (ofTokens text tokens place).content = (ofTokens text tokens 0).content := by
  rcases tokens with _ | ⟨t, tokens⟩
  · rw [content_nil, content_nil]
  · have hlast := List.getLast?_cons (a := t) (l := tokens)
    rw [content_of_ends rfl hlast, content_of_ends rfl hlast]

theorem ofText_ne_nil (input : String) : ofText input ≠ [] :=
  mt List.map_eq_nil_iff.mp (group_ne_nil _ _)

theorem map_content_ofText (input : String) :
    (ofText input).map content = contents input.toList (Token.words input.toList) := by
  rw [contents, ← map_group (Text.byteLength input.toList), List.map_map, ofText, List.map_map]
  exact List.map_congr_left fun g _ ↦ content_ofTokens _ _ _

theorem contents_moved (before text : List Char) (tokens : List Token) :
    contents (before ++ text) (tokens.map (Token.moved (Text.byteLength before)))
      = contents text tokens := by
  rw [contents, contents, splitOnP_map, List.map_map]
  refine List.map_congr_left fun group _ ↦ ?_
  rw [Function.comp_apply]
  rcases group with _ | ⟨t, group⟩
  · rw [List.map_nil, content_nil, content_nil]
  · have hlast := List.getLast?_cons (a := t) (l := group)
    have hmoved : ((t :: group).map (Token.moved (Text.byteLength before))).getLast?
        = some (((group.getLast?).getD t).moved (Text.byteLength before)) := by
      rw [List.getLast?_map, hlast, Option.map_some]
    rw [content_of_ends rfl hlast, content_of_ends rfl hmoved, Token.moved, Token.moved,
      Text.slice_moved, List.map_map]
    rfl

theorem contents_append {text : List Char} {tokens : List Token}
    (h : ∀ t ∈ tokens, t.StandsIn text) (more : List Char) :
    contents (text ++ more) tokens = contents text tokens := by
  rw [contents, contents]
  refine List.map_congr_left fun group hgroup ↦ ?_
  have hstands : ∀ t ∈ group, t.StandsIn text := by
    intro t ht
    have hmem : t ∈ (tokens.splitOnP (·.isSeparator)).flatten :=
      List.mem_flatten.mpr ⟨_, hgroup, ht⟩
    rw [flatten_splitOnP] at hmem
    exact h t (List.mem_filter.mp hmem).1
  rcases group with _ | ⟨t, group⟩
  · rw [content_nil, content_nil]
  · have hlast := List.getLast?_cons (a := t) (l := group)
    obtain ⟨before, after, htext, hstart, -, -⟩ := hstands t List.mem_cons_self
    obtain ⟨before', after', htext', hstart', hstop', -⟩ := hstands _ (List.mem_of_getLast? hlast)
    have hle : t.start ≤ Text.byteLength text := by
      rw [htext, List.append_assoc, Text.byteLength_append, hstart]
      exact Nat.le_add_right _ _
    have hle' : ((group.getLast?).getD t).stop ≤ Text.byteLength text := by
      rw [htext', Text.byteLength_append, Text.byteLength_append, hstop', hstart']
      exact Nat.le_add_right _ _
    have hrest : Text.byteLength (Text.dropBytes t.start text)
        = Text.byteLength text - t.start := by
      rw [hstart, htext, List.append_assoc, Text.dropBytes_byteLength_append,
        Text.byteLength_append before, Nat.add_sub_cancel_left]
    rw [content_of_ends rfl hlast, content_of_ends rfl hlast, Text.slice_append hle (by omega)]

theorem contents_append_separator {sep : Token} (h : sep.isSeparator = true) (text : List Char)
    (as bs : List Token) :
    contents text (as ++ sep :: bs) = contents text as ++ contents text bs := by
  rw [contents, List.splitOnP_append_cons _ _ h, List.map_append, contents, contents]

end Clause

theorem Token.words_and (as bs : List Char) : words (as ++ " and ".toList ++ bs)
    = words as ++ ofChars ((Place.behind {} as).after ' ') "and".toList
      :: wordsFrom (Place.behind {} (as ++ " and ".toList)) bs := by
  have hand (p : Place) : wordsFrom p "and".toList = [ofChars p "and".toList] := rfl
  have htext : as ++ " and ".toList ++ bs = as ++ ' ' :: ("and".toList ++ ' ' :: bs) := by
    rw [List.append_assoc]
    rfl
  rw [htext, words_eq, wordsFrom_append_gap rfl, wordsFrom_append_gap rfl, hand,
    Place.behind_append]
  rfl

theorem Token.isSeparator_and (p : Place) : (ofChars p "and".toList).isSeparator = true := by
  have hand : Text.sameIgnoringCase (.ofList "and".toList) "and" = true := by decide
  exact hand

/-- **Clauses.** With a separator between two texts there are the clauses of the one and then those
of the other. -/
theorem Clause.contents_and (a b : String) : (ofText (a ++ " and " ++ b)).map content
    = (ofText a).map content ++ (ofText b).map content := by
  rw [map_content_ofText, map_content_ofText, map_content_ofText, String.toList_append,
    String.toList_append, Token.words_and, contents_append_separator (Token.isSeparator_and _)]
  generalize a.toList = as, b.toList = bs
  have hfirst : contents (as ++ " and ".toList ++ bs) (Token.words as)
      = contents as (Token.words as) := by
    rw [List.append_assoc]
    exact contents_append (fun t ht ↦ Token.standsIn_of_mem_words ht) _
  have hplace : 0 + (Place.behind {} (as ++ " and ".toList)).byte
      = Text.byteLength (as ++ " and ".toList) + ({} : Place).byte := by
    rw [Place.byte_behind]
    omega
  have hsecond : contents (as ++ " and ".toList ++ bs)
      (Token.wordsFrom (Place.behind {} (as ++ " and ".toList)) bs)
      = contents bs (Token.words bs) := by
    rw [← contents_moved [] (as ++ " and ".toList ++ bs), List.nil_append, Text.byteLength_nil,
      Token.map_moved_wordsFrom hplace, contents_moved, Token.words_eq]
  rw [hfirst, hsecond]

/-! ## Reading -/

namespace Query

variable {catalog : Catalog} {totals : Totals} {input : String}

theorem separate_append (xs ys : List (Except ClauseError Part)) :
    separate (xs ++ ys)
      = ((separate xs).1 ++ (separate ys).1, (separate xs).2 ++ (separate ys).2) := by
  induction xs with
  | nil => rfl
  | cons x xs ih =>
    rcases x with e | part
    · rw [List.cons_append, separate, separate, ih]
      rfl
    · rw [List.cons_append, separate, separate, ih]
      rfl

theorem predicates_ofParts_append (as bs : List Part) :
    (ofParts (as ++ bs)).predicates = (ofParts as).predicates ++ (ofParts bs).predicates := by
  rw [ofParts, List.filterMap_append]
  rfl

theorem top_ofParts_append (as bs : List Part) :
    (ofParts (as ++ bs)).top = (ofParts bs).top.or (ofParts as).top := by
  rw [ofParts]
  dsimp only
  rw [List.filterMap_append, List.getLast?_append]
  rfl

theorem ofParts_append_of_predicate {as bs : List Part} {p : Predicate}
    (h : ofParts bs = ⟨[p], none⟩) :
    ofParts (as ++ bs) = { ofParts as with predicates := (ofParts as).predicates ++ [p] } := by
  have hpredicates := predicates_ofParts_append as bs
  have htop := top_ofParts_append as bs
  rw [h] at hpredicates htop
  generalize ofParts (as ++ bs) = q at hpredicates htop ⊢
  obtain ⟨ps, n⟩ := q
  obtain rfl : ps = _ := hpredicates
  obtain rfl : n = _ := htop
  rfl

/-- The clauses of a text as they are read. -/
def readClauses (catalog : Catalog) (totals : Totals) (input : String) :
    List (Except ClauseError Part) :=
  (Clause.ofText input).map (readClause catalog totals)

theorem readClauses_eq (catalog : Catalog) (totals : Totals) (input : String) :
    readClauses catalog totals input = ((Clause.ofText input).map Clause.content).map
      fun content ↦ readWords catalog totals content.1 content.2 := by
  rw [List.map_map]
  rfl

theorem readClauses_and (a b : String) : readClauses catalog totals (a ++ " and " ++ b)
    = readClauses catalog totals a ++ readClauses catalog totals b := by
  rw [readClauses_eq, Clause.contents_and, List.map_append, ← readClauses_eq, ← readClauses_eq]

theorem readPartial_of_nonempty (h : ¬((Clause.ofText input).length == 1 &&
    (Clause.ofText input).all (·.isEmpty)) = true) : readPartial catalog totals input
      = (ofParts (separate (readClauses catalog totals input)).1,
          (separate (readClauses catalog totals input)).2) := if_neg h

/-- **Reading.** A text with a word in it is read clause by clause. -/
theorem readPartial_of_word (h : ∃ c ∈ input.toList, isWordGap c = false) :
    readPartial catalog totals input
      = (ofParts (separate (readClauses catalog totals input)).1,
          (separate (readClauses catalog totals input)).2) := by
  refine readPartial_of_nonempty fun hblank ↦ ?_
  obtain ⟨c, hc, hgap⟩ := h
  rw [Clause.ofText] at hblank
  generalize input.toList = text at hc hblank
  have hlaid := Token.laid_words text
  generalize Token.words text = tokens at hlaid hblank
  rcases tokens with _ | ⟨t, tokens⟩
  · cases hlaid with
    | blank hall =>
      rw [hall c hc] at hgap
      cases hgap
  · rw [Clause.group] at hblank
    split at hblank
    · -- There is a clause before the separator and at least one behind it.
      obtain ⟨g, gs, hgroup⟩ := List.exists_cons_of_ne_nil
        (Clause.group_ne_nil (Text.byteLength text) tokens)
      rw [hgroup] at hblank
      cases hblank
    · -- The first clause has the first word.
      split at hblank
      · cases hblank
      · rw [List.map_cons, List.all_cons] at hblank
        simp [Clause.isEmpty, Clause.ofTokens] at hblank

theorem exists_read_iff (catalog : Catalog) (totals : Totals) (input : String) :
    (∃ q, read catalog totals input = .ok q) ↔ (readPartial catalog totals input).2 = [] := by
  rw [read]
  obtain ⟨q, errors⟩ := readPartial catalog totals input
  rcases errors with _ | ⟨e, errors⟩
  · exact ⟨fun _ ↦ rfl, fun _ ↦ ⟨q, rfl⟩⟩
  · constructor
    · rintro ⟨q', ⟨⟩⟩
    · rintro ⟨⟩

theorem read_eq_ok_iff {q : Query} :
    read catalog totals input = .ok q ↔ readPartial catalog totals input = (q, []) := by
  rw [read]
  obtain ⟨q', errors⟩ := readPartial catalog totals input
  rcases errors with _ | ⟨e, errors⟩
  · simp
  · simp

theorem readPartial_of_predicates_ne_nil
    (h : (readPartial catalog totals input).1.predicates ≠ []) : readPartial catalog totals input
      = (ofParts (separate (readClauses catalog totals input)).1,
          (separate (readClauses catalog totals input)).2) := by
  refine readPartial_of_nonempty fun hblank ↦ h ?_
  have hempty : readPartial catalog totals input = ({}, []) := if_pos hblank
  rw [hempty]

/-- **One clause more.** Behind a query that has predicates, a clause with a predicate adds that
one. -/
theorem read_and {base clause : String} {q : Query} {p : Predicate}
    (hbase : read catalog totals base = .ok q) (hq : q.predicates ≠ [])
    (hclause : read catalog totals clause = .ok ⟨[p], none⟩) :
    read catalog totals (base ++ " and " ++ clause)
      = .ok { q with predicates := q.predicates ++ [p] } := by
  rw [read_eq_ok_iff] at hbase hclause ⊢
  have hbase' := readPartial_of_predicates_ne_nil (by rwa [hbase])
  have hclause' := readPartial_of_predicates_ne_nil (by rw [hclause]; exact List.cons_ne_nil p [])
  obtain ⟨rfl, hnone⟩ := Prod.mk.inj (hbase.symm.trans hbase')
  obtain ⟨hp, hnone'⟩ := Prod.mk.inj (hclause.symm.trans hclause')
  have hlength : 1 < (Clause.ofText (base ++ " and " ++ clause)).length := by
    have hlengths := congrArg List.length (Clause.contents_and base clause)
    rw [List.length_map, List.length_append, List.length_map, List.length_map] at hlengths
    have hfirst := List.length_pos_iff.mpr (Clause.ofText_ne_nil base)
    have hsecond := List.length_pos_iff.mpr (Clause.ofText_ne_nil clause)
    omega
  have hseveral : ¬((Clause.ofText (base ++ " and " ++ clause)).length == 1 &&
      (Clause.ofText (base ++ " and " ++ clause)).all (·.isEmpty)) = true := by
    rw [beq_false_of_ne (by omega)]
    exact Bool.false_ne_true
  rw [readPartial_of_nonempty hseveral, readClauses_and, separate_append, ← hnone, ← hnone',
    ofParts_append_of_predicate hp.symm]
  rfl

end Query

/-- **Composition.** Two texts with words in them and a separator between them are read clause by
clause: the predicates of the one and then those of the other, the errors of the one and then those
of the other, and the `top` of the second if it has one. So they are read together exactly if each
of them is. -/
theorem readPartial_and (catalog : Catalog) (totals : Totals) (a b : String)
    (ha : ∃ c ∈ a.toList, isWordGap c = false) (hb : ∃ c ∈ b.toList, isWordGap c = false) :
    (Query.readPartial catalog totals (a ++ " and " ++ b)).1.predicates
        = (Query.readPartial catalog totals a).1.predicates
          ++ (Query.readPartial catalog totals b).1.predicates ∧
      (Query.readPartial catalog totals (a ++ " and " ++ b)).2
        = (Query.readPartial catalog totals a).2 ++ (Query.readPartial catalog totals b).2 ∧
      (Query.readPartial catalog totals (a ++ " and " ++ b)).1.top
        = (Query.readPartial catalog totals b).1.top.or
          (Query.readPartial catalog totals a).1.top ∧
      ((∃ q, Query.read catalog totals (a ++ " and " ++ b) = .ok q) ↔
        (∃ q, Query.read catalog totals a = .ok q) ∧
          ∃ q, Query.read catalog totals b = .ok q) := by
  have hboth : ∃ c ∈ (a ++ " and " ++ b).toList, isWordGap c = false := by
    obtain ⟨c, hc, hgap⟩ := ha
    refine ⟨c, ?_, hgap⟩
    rw [String.toList_append, String.toList_append, List.append_assoc]
    exact List.mem_append_left _ hc
  rw [Query.exists_read_iff, Query.exists_read_iff, Query.exists_read_iff,
    Query.readPartial_of_word ha, Query.readPartial_of_word hb, Query.readPartial_of_word hboth,
    Query.readClauses_and, Query.separate_append]
  exact ⟨Query.predicates_ofParts_append _ _, rfl, Query.top_ofParts_append _ _,
    List.append_eq_nil_iff⟩

/-- A separator too many at the end of the one text and at the beginning of the other leaves an
empty clause, which is refused. -/
theorem readPartial_and_of_doubled :
    (Query.readPartial (.columnar ["form"]) {} ("top 2 and" ++ " and " ++ "and top 3")).2
        = [.invalidPart "", .invalidPart ""] ∧
      (Query.readPartial (.columnar ["form"]) {} ("top 2 and" ++ " and " ++ "and top 3")).1.top
        = some 3 := by
  obtain ⟨-, herrors, htop, -⟩ := readPartial_and (.columnar ["form"]) {} "top 2 and" "and top 3"
    ⟨'t', List.mem_cons_self, rfl⟩ ⟨'a', List.mem_cons_self, rfl⟩
  rw [herrors, htop]
  exact ⟨rfl, rfl⟩

end CorpusQuery

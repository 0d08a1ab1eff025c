import CorpusQuery.Lexer
import CorpusQuery.Proofs.Clause.Matching
import CorpusQuery.Proofs.Lists

/-!
# What the lexer recovers from a text

The lexer refuses a text that does not match, and a clause that has something else in it than words.
Neither happens: every text matches, and the clauses among its nodes are made of words. What they
stand for is cut out of the text again by their bytes, and the column of a word is counted anew from
the characters before it, so a word comes back as it was read only because it stands where its place
says, which is an invariant of the arrangement of the text.

## Main statements

* `Lexer.tokenize_eq`: the lexer succeeds on every text, with its clauses and nothing of the texts
  before.
* `tokenize_recovers_words`: the clauses have exactly the words of the text that are not separators,
  in order and where they stand.
-/

namespace CorpusQuery

open Grammar (Node wordNode clauseNode clauseNodes)

variable {text : List Char}

/-! ## From nodes to clauses -/

/-- Columns counted again from the beginning are those of the places. -/
theorem Text.columnBehind_eq (b column : Nat) (cs : List Char) :
    columnBehind column cs = (Place.behind ⟨b, column⟩ cs).column := by
  induction column, cs using columnBehind.induct generalizing b with
  | case1 column => rfl
  | case2 column cs ih => rw [columnBehind, ih]; rfl
  | case3 column c cs hne ih => rw [columnBehind.eq_3 _ _ _ hne, ih]; rfl

namespace Lexer

theorem token_wordNode {t : Token} (h : t.StandsIn text) : token text (wordNode t) = .ok t := by
  have hslice := h.slice_eq
  obtain ⟨before, after, rfl, hstart, -, hcolumn⟩ := h
  have hbehind : Text.columnBehind 1 (Text.takeBytes t.start (before ++ t.lexeme.toList ++ after))
      = t.column := by
    rw [hstart, List.append_assoc, Text.takeBytes_byteLength_append, Text.columnBehind_eq 0,
      hcolumn, ← Place.column_behind]
  rw [wordNode, token, if_pos rfl, hbehind, hslice, String.ofList_toList]

theorem mapM_token {tokens : List Token} (h : ∀ t ∈ tokens, t.StandsIn text) :
    (tokens.map wordNode).mapM (token text) = .ok tokens := by
  induction tokens with
  | nil => rfl
  | cons t tokens ih =>
    obtain ⟨ht, htokens⟩ := List.forall_mem_cons.mp h
    rw [List.map_cons, List.mapM_cons, token_wordNode ht, ih htokens]
    rfl

theorem clause_clauseNode {tokens : List Token} (h : ∀ t ∈ tokens, t.StandsIn text) (place : Nat) :
    clause text (clauseNode tokens place) = .ok (Clause.ofTokens text tokens place) := by
  rw [clauseNode, clause, mapM_token h]
  rfl

theorem collect_eq {nodes : List Node} {groups : List (List Token × Nat)} {lexer : Lexer}
    (h : nodes.filter (·.rule == .clause) = groups.map fun g ↦ clauseNode g.1 g.2)
    (hstands : ∀ g ∈ groups, ∀ t ∈ g.1, t.StandsIn text) : collect text lexer nodes
      = (.ok (), ⟨lexer.clauses ++ groups.map fun g ↦ Clause.ofTokens text g.1 g.2⟩) := by
  induction nodes generalizing groups lexer with
  | nil =>
    obtain rfl : groups = [] := List.map_eq_nil_iff.mp h.symm
    rw [collect, List.map_nil, List.append_nil]
  | cons node nodes ih =>
    rw [List.filter_cons] at h
    by_cases hnode : node.rule = .clause
    · rw [if_pos (beq_iff_eq.mpr hnode)] at h
      obtain ⟨g, rest, rfl, hg, hrest⟩ := List.map_eq_cons_iff.mp h.symm
      obtain ⟨hstand, hstands⟩ := List.forall_mem_cons.mp hstands
      rw [collect, if_pos hnode, ← hg, clause_clauseNode hstand]
      dsimp only
      rw [ih hrest.symm hstands, List.map_cons, List.append_assoc, List.singleton_append]
    · rw [if_neg (by simpa using hnode)] at h
      rw [collect, if_neg hnode, ih h hstands]

end Lexer

/-! ## Groups of words -/

theorem Clause.map_group (stop : Nat) (ts : List Token) :
    (Clause.group stop ts).map (·.1) = ts.splitOnP (·.isSeparator) := by
  induction ts with
  | nil => rfl
  | cons t ts ih =>
    rw [Clause.group, List.splitOnP_cons_eq_if_modifyHead, ← ih]
    split
    · rfl
    · split
      · next hnil => exact absurd hnil (Clause.group_ne_nil stop ts)
      · next hgroup => rw [hgroup]; rfl

theorem flatten_group (stop : Nat) (ts : List Token) :
    ((Clause.group stop ts).map (·.1)).flatten = ts.filter (!·.isSeparator) := by
  rw [Clause.map_group, flatten_splitOnP]

theorem mem_of_mem_group {stop : Nat} {ts : List Token} {g : List Token × Nat} {t : Token}
    (hg : g ∈ Clause.group stop ts) (ht : t ∈ g.1) : t ∈ ts ∧ t.isSeparator = false := by
  have hmem : t ∈ ((Clause.group stop ts).map (·.1)).flatten :=
    List.mem_flatten.mpr ⟨g.1, List.mem_map_of_mem hg, ht⟩
  rw [flatten_group, List.mem_filter] at hmem
  simpa using hmem

/-- **Lexing.** The lexer succeeds on every text, with its clauses and nothing of the texts
before. -/
theorem Lexer.tokenize_eq (lexer : Lexer) (input : String) :
    lexer.tokenize input = (.ok (Clause.ofText input), ⟨Clause.ofText input⟩) := by
  obtain ⟨nodes, hparse, hnodes⟩ := Grammar.exists_parse_eq_some input.toList
  have hstands : ∀ g ∈ Clause.group (Text.byteLength input.toList) (Token.words input.toList),
      ∀ t ∈ g.1, t.StandsIn input.toList := by
    intro g hg t ht
    exact Token.standsIn_of_mem_words (mem_of_mem_group hg ht).1
  have hcollect := @collect_eq _ (Node.flattenAll nodes) _ ⟨[]⟩ hnodes hstands
  rw [tokenize, hparse]
  dsimp only
  rw [hcollect]
  rfl

/-! ## What is recovered -/

namespace Text

/-- The words of a text: its longest runs of characters other than white space. -/
def wordsOf (input : String) : List String := (runs isWordGap input.toList).map .ofList

/-- Whether a word separates clauses. -/
def isSeparator (word : String) : Bool := sameIgnoringCase word "and"

end Text

/-- The clauses have exactly the words of the text, and say where they stand. -/
structure Recovered (input : String) (clauses : List Clause) : Prop where
  /-- With a separator between any two clauses these are the words of the text. -/
  woven : ((clauses.map (·.words)).zipWith (· ++ ·)
    (((Text.wordsOf input).filter Text.isSeparator).map ([·]) ++ [[]])).flatten = Text.wordsOf input
  not_separator : ∀ c ∈ clauses, ∀ w ∈ c.words, Text.isSeparator w = false
  length_eq : clauses.length = (Text.wordsOf input).countP Text.isSeparator + 1
  slice_eq : ∀ c ∈ clauses, ∀ t ∈ c.tokens,
    Text.slice t.start t.stop input.toList = t.lexeme.toList
  standsIn : ∀ c ∈ clauses, ∀ t ∈ c.tokens, t.StandsIn input.toList
  start_lt_stop : ∀ c ∈ clauses, ∀ t ∈ c.tokens, t.start < t.stop
  apart : (clauses.flatMap (·.tokens)).Pairwise (·.stop < ·.start)
  start_eq : ∀ c ∈ clauses, ∀ t ∈ c.tokens.head?, c.start = t.start
  stop_eq : ∀ c ∈ clauses, ∀ t ∈ c.tokens.getLast?, c.stop = t.stop
  empty : ∀ c ∈ clauses, c.tokens = [] → c.start = c.stop

theorem map_words_ofText (input : String) : (Clause.ofText input).map (·.words)
    = (Text.wordsOf input).splitOnP Text.isSeparator := by
  have hwords : Text.wordsOf input = (Token.words input.toList).map (·.lexeme) := by
    rw [Text.wordsOf, ← Token.map_lexeme_words, List.map_map]
    exact List.map_congr_left fun t _ ↦ String.ofList_toList
  rw [hwords, splitOnP_map, Clause.ofText, List.map_map]
  change _ = ((Token.words input.toList).splitOnP (·.isSeparator)).map _
  rw [← Clause.map_group (Text.byteLength input.toList), List.map_map]
  rfl

theorem recovered_ofText (input : String) : Recovered input (Clause.ofText input) := by
  have hmem : ∀ c ∈ Clause.ofText input, ∀ t ∈ c.tokens,
      t ∈ Token.words input.toList ∧ t.isSeparator = false := by
    intro c hc t ht
    obtain ⟨g, hg, rfl⟩ := List.mem_map.mp hc
    exact mem_of_mem_group hg ht
  have hspan : ∀ c ∈ Clause.ofText input, ∃ place,
      c = Clause.ofTokens input.toList c.tokens place := by
    intro c hc
    obtain ⟨g, -, rfl⟩ := List.mem_map.mp hc
    exact ⟨g.2, rfl⟩
  have htokens : (Clause.ofText input).flatMap (·.tokens)
      = (Token.words input.toList).filter (!·.isSeparator) := by
    rw [← flatten_group (Text.byteLength input.toList), Clause.ofText, List.flatMap, List.map_map]
    rfl
  refine ⟨?_, ?_, ?_, ?_, ?_, ?_, ?_, ?_, ?_, ?_⟩
  · rw [map_words_ofText, List.splitOnP_spec]
  · intro c hc w hw
    obtain ⟨t, ht, rfl⟩ := List.mem_map.mp hw
    exact (hmem c hc t ht).2
  · rw [← length_splitOnP, ← map_words_ofText, List.length_map]
  · intro c hc t ht
    exact (Token.standsIn_of_mem_words (hmem c hc t ht).1).slice_eq
  · intro c hc t ht
    exact Token.standsIn_of_mem_words (hmem c hc t ht).1
  · intro c hc t ht
    exact ((Token.laid_words _).start_lt (hmem c hc t ht).1).2.1
  · rw [htokens]
    exact (Token.pairwise_words _).filter _
  · intro c hc t ht
    obtain ⟨place, hc⟩ := hspan c hc
    rw [hc, Clause.ofTokens, Option.mem_def.mp ht]
    rfl
  · intro c hc t ht
    obtain ⟨place, hc⟩ := hspan c hc
    rw [hc, Clause.ofTokens, Option.mem_def.mp ht]
    rfl
  · intro c hc hnil
    obtain ⟨place, hc⟩ := hspan c hc
    rw [hc, hnil]
    rfl

/-- **Recovery.** Whatever a lexer was given before, it succeeds on every text, with clauses that
have exactly the words of the text and say where they stand. -/
theorem tokenize_recovers_words (lexer : Lexer) (input : String) :
    ∃ clauses, lexer.tokenize input = (.ok clauses, ⟨clauses⟩) ∧ Recovered input clauses :=
  ⟨Clause.ofText input, lexer.tokenize_eq input, recovered_ofText input⟩

end CorpusQuery

import CorpusQuery.Grammar
import CorpusQuery.Proofs.Clause.Words

/-!
# Every text matches the grammar

Repetition gives nothing back, so a grammar can refuse a text that a cleverer reading would accept.
The grammar of query texts never does. Each of its repetitions starts at a word, behind the white
space that stands in front of it, and ends in front of white space or at the end. There the three
things that can come next exclude one another: a separator, another word, or nothing. So what is
matched is fixed by the words of the text alone, and the induction is on their arrangement.

That the look-ahead for a separator works depends on where it is done: in front of white space it
would see no separator, and the one behind the white space would be taken for a word. White space is
skipped before every repetition but the first, and before the first it has been skipped already.

## Main statements

* `Grammar.run_separator`: a separator is a whole word.
* `Grammar.run_clause`: a clause takes the words up to the next separator.
* `Grammar.exists_parse_eq_some`: every text matches, and its nodes are those of its clauses.
-/

namespace CorpusQuery.Grammar

open Token (Laid ofChars)

variable {p : Place} {b : Nat} {cs rest word : List Char} {t : Token} {ts : List Token}

/-! ## Repetition -/

theorem many_of_none {m : Matcher} {s : Spot} (h : m s = none) : many m s = ([], s) := by
  rw [many, h]

theorem many_of_some {m : Matcher} {s next : Spot} {nodes : List Node}
    (h : m s = some (nodes, next)) (hlt : next.rest.length < s.rest.length) :
    many m s = (nodes ++ (many m next).1, (many m next).2) := by
  rw [many, h]
  exact if_pos hlt

theorem accept_eq_none {q : Char → Bool} (h : ∀ c ∈ rest.head?, q c = false) :
    accept q ⟨b, rest⟩ = none := by
  cases rest with
  | nil => rfl
  | cons c rest => rw [accept, h c rfl, if_neg Bool.false_ne_true]

theorem many_accept {q : Char → Bool} {stretch : List Char} (h : ∀ c ∈ stretch, q c = true)
    (hrest : ∀ c ∈ rest.head?, q c = false) :
    many (accept q) ⟨b, stretch ++ rest⟩ = ([], ⟨b + Text.byteLength stretch, rest⟩) := by
  induction stretch generalizing b with
  | nil => exact many_of_none (accept_eq_none hrest)
  | cons c stretch ih =>
    obtain ⟨hc, hstretch⟩ := List.forall_mem_cons.mp h
    have hfirst : accept q ⟨b, c :: stretch ++ rest⟩
        = some ([], ⟨b + c.utf8Size, stretch ++ rest⟩) := by
      rw [List.cons_append, accept, if_pos hc]
    rw [many_of_some hfirst (Nat.lt_succ_self _), ih hstretch, Text.byteLength_cons, Nat.add_assoc]
    rfl

theorem run_star {isAtomic : Bool} {e : Expr} {s : Spot} (hskip : Expr.skip space isAtomic s = s)
    (hlt : ∀ nodes next, e.run space isAtomic s = some (nodes, next) →
      next.rest.length < s.rest.length) :
    (Expr.star e).run space isAtomic s
      = some (many (fun t ↦ e.run space isAtomic (Expr.skip space isAtomic t)) s) := by
  rw [Expr.run]
  split
  · next hnone => rw [many_of_none (by rw [hskip, hnone])]
  · next nodes next hsome => rw [many_of_some (by rw [hskip, hsome]) (hlt nodes next hsome)]

theorem run_seq_eq (isAtomic : Bool) (first next : Expr) (s : Spot) :
    (Expr.seq first next).run space isAtomic s = (first.run space isAtomic s).bind fun r ↦
      (next.run space isAtomic (Expr.skip space isAtomic r.2)).map fun q ↦ (r.1 ++ q.1, q.2) := by
  rw [Expr.run, Option.bind_eq_bind]
  congr 1
  funext r
  exact Option.map_eq_bind.symm

theorem run_seq {isAtomic : Bool} {first next : Expr} {s t u : Spot} {nodes more : List Node}
    (hfirst : first.run space isAtomic s = some (nodes, t))
    (hnext : next.run space isAtomic (Expr.skip space isAtomic t) = some (more, u)) :
    (Expr.seq first next).run space isAtomic s = some (nodes ++ more, u) := by
  rw [run_seq_eq, hfirst, Option.bind_some, hnext, Option.map_some]

theorem run_seq_eq_none {isAtomic : Bool} {first : Expr} {s : Spot}
    (h : first.run space isAtomic s = none) (next : Expr) :
    (Expr.seq first next).run space isAtomic s = none := by
  rw [run_seq_eq, h, Option.bind_none]

theorem run_notAhead (isAtomic : Bool) (e : Expr) (s : Spot) :
    (Expr.notAhead e).run space isAtomic s
      = if (e.run space isAtomic s).isSome then none else some ([], s) := rfl

theorem run_record (isAtomic : Bool) (rule : Rule) (e : Expr) (s : Spot) :
    (Expr.record rule e).run space isAtomic s
      = (e.run space isAtomic s).map fun r ↦ ([.mk rule s.byte r.2.byte r.1], r.2) := rfl

theorem run_atomic (isAtomic : Bool) (e : Expr) :
    (Expr.atomic e).run space isAtomic = e.run space true := rfl

/-! ## White space and words -/

theorem accept_orElse (q r : Char → Bool) (s : Spot) :
    ((accept q s).orElse fun _ ↦ accept r s) = accept (fun c ↦ q c || r c) s := by
  rcases s with ⟨b, _ | ⟨c, rest⟩⟩
  · rfl
  · rw [accept, accept, accept]
    by_cases hq : q c = true
    · rw [if_pos hq, hq, Bool.true_or, if_pos rfl]
      rfl
    · rw [if_neg hq, Bool.eq_false_iff.mpr hq, Bool.false_or]
      rfl

theorem run_whitespace (m : Matcher) (isAtomic : Bool) :
    whitespace.run m isAtomic = accept isWordGap := by
  funext s
  have hrun : whitespace.run m isAtomic s = ((accept (· == ' ') s).orElse fun _ ↦
      (accept (· == '\t') s).orElse fun _ ↦
        (accept (· == '\r') s).orElse fun _ ↦ accept (· == '\n') s) := rfl
  rw [hrun, accept_orElse, accept_orElse, accept_orElse]
  congr 1
  funext c
  rw [isWordGap, Bool.or_assoc, Bool.or_assoc]

theorem skip_gap {gap : List Char} (hgap : ∀ c ∈ gap, isWordGap c = true)
    (hrest : ∀ c ∈ rest.head?, isWordGap c = false) :
    Expr.skip space false ⟨b, gap ++ rest⟩ = ⟨b + Text.byteLength gap, rest⟩ := by
  rw [Expr.skip, if_neg Bool.false_ne_true, space, run_whitespace, many_accept hgap hrest]

theorem skip_eq_self (hrest : ∀ c ∈ rest.head?, isWordGap c = false) :
    Expr.skip space false ⟨b, rest⟩ = ⟨b, rest⟩ := by
  have hnone : ∀ c ∈ ([] : List Char), isWordGap c = true := by simp
  exact skip_gap hnone hrest

theorem skip_atomic (s : Spot) : Expr.skip space true s = s := rfl

theorem run_wordChar : wordChar.run space true = accept (!isWordGap ·) := by
  funext ⟨b, rest⟩
  cases rest with
  | nil => rfl
  | cons c rest =>
    rw [wordChar, Expr.run, Expr.run, run_whitespace, accept, accept]
    by_cases hc : isWordGap c = true
    · simp [hc]
    · simp [hc, skip_atomic, Expr.run, accept]

theorem not_gap_of_beginsApart (h : Text.BeginsApart rest) :
    ∀ c ∈ rest.head?, (!isWordGap c) = false := by
  intro c hc
  rw [h c hc]
  rfl

/-- **Words.** A word is taken up to white space or the end. -/
theorem run_word (isAtomic : Bool) (hne : word ≠ []) (hword : ∀ c ∈ word, isWordGap c = false)
    (hrest : Text.BeginsApart rest) :
    Grammar.word.run space isAtomic ⟨b, word ++ rest⟩
      = some ([.mk .word b (b + Text.byteLength word) []], ⟨b + Text.byteLength word, rest⟩) := by
  obtain ⟨c, word, rfl⟩ := List.exists_cons_of_ne_nil hne
  have hchars : ∀ d ∈ c :: word, (!isWordGap d) = true := fun d hd ↦ by rw [hword d hd]; rfl
  obtain ⟨hc, htail⟩ := List.forall_mem_cons.mp hchars
  have hfirst : wordChar.run space true ⟨b, c :: word ++ rest⟩
      = some ([], ⟨b + c.utf8Size, word ++ rest⟩) := by
    rw [run_wordChar, List.cons_append, accept, hc, if_pos rfl]
  have hmore : (Expr.star wordChar).run space true ⟨b + c.utf8Size, word ++ rest⟩
      = some ([], ⟨b + Text.byteLength (c :: word), rest⟩) := by
    rw [run_star (skip_atomic _)]
    · simp only [skip_atomic]
      rw [run_wordChar, many_accept htail (not_gap_of_beginsApart hrest), Text.byteLength_cons,
        Nat.add_assoc]
    · intro nodes next h
      rw [run_wordChar] at h
      generalize word ++ rest = ahead at h ⊢
      cases ahead with
      | nil => cases h
      | cons d ahead =>
        rw [accept] at h
        split at h
        · obtain ⟨-, rfl⟩ := Prod.mk.inj (Option.some.inj h)
          exact Nat.lt_succ_self _
        · cases h
  have hplus : wordChar.plus.run space true ⟨b, c :: word ++ rest⟩
      = some ([], ⟨b + Text.byteLength (c :: word), rest⟩) := run_seq hfirst hmore
  rw [Grammar.word, Expr.run, Expr.run, hplus]
  rfl

/-! ## Separators -/

theorem acceptCaseless_notAhead {text : List Char}
    (htext : ∀ d ∈ text, ∀ c, isWordGap c = true → (c.toLower == d.toLower) = false)
    (hword : ∀ c ∈ word, isWordGap c = false) (hrest : Text.BeginsApart rest) :
    ((acceptCaseless text ⟨b, word ++ rest⟩).bind fun r ↦
        ((Expr.notAhead wordChar).run space true r.2).map fun q ↦ (r.1 ++ q.1, q.2))
      = if word.map Char.toLower == text.map Char.toLower then
          some ([], ⟨b + Text.byteLength word, rest⟩) else none := by
  induction text generalizing word b with
  | nil =>
    rw [acceptCaseless, Option.bind_some, run_notAhead, run_wordChar]
    rcases word with _ | ⟨c, word⟩
    · rw [List.nil_append, accept_eq_none (not_gap_of_beginsApart hrest)]
      rfl
    · have hc := hword c List.mem_cons_self
      rw [List.cons_append, accept, hc]
      rfl
  | cons d text ih =>
    obtain ⟨hd, htext⟩ := List.forall_mem_cons.mp htext
    rcases word with _ | ⟨c, word⟩
    · -- White space follows, and none of it is a letter of the text.
      rcases rest with _ | ⟨c, rest⟩
      · rfl
      · rw [List.nil_append, acceptCaseless, hd c (hrest c rfl)]
        rfl
    · obtain ⟨-, hword⟩ := List.forall_mem_cons.mp hword
      rw [List.cons_append, acceptCaseless]
      by_cases hcd : (c.toLower == d.toLower) = true
      · rw [if_pos hcd, ih htext hword, List.map_cons, List.map_cons, Text.byteLength_cons,
          Nat.add_assoc, List.cons_beq_cons, hcd, Bool.true_and]
      · rw [if_neg hcd, List.map_cons, List.map_cons, List.cons_beq_cons,
          Bool.eq_false_iff.mpr hcd, Bool.false_and]
        rfl

theorem toLower_ne_of_isWordGap :
    ∀ d ∈ "and".toList, ∀ c, isWordGap c = true → (c.toLower == d.toLower) = false := by
  have hletters : "and".toList = ['a', 'n', 'd'] := rfl
  intro d hd c hc
  simp only [isWordGap, Bool.or_eq_true, beq_iff_eq] at hc
  simp only [hletters, List.mem_cons, List.not_mem_nil, or_false] at hd
  obtain ((rfl | rfl) | rfl) | rfl := hc <;> obtain rfl | rfl | rfl := hd <;> rfl

/-- **Separators.** A separator is a whole word, in any letter case. -/
theorem run_separator (isAtomic : Bool) (hword : ∀ c ∈ word, isWordGap c = false)
    (hrest : Text.BeginsApart rest) :
    separator.run space isAtomic ⟨b, word ++ rest⟩
      = if Text.sameIgnoringCase (.ofList word) "and" then
          some ([.mk .separator b (b + Text.byteLength word) []], ⟨b + Text.byteLength word, rest⟩)
        else none := by
  have hsame : Text.sameIgnoringCase (.ofList word) "and"
      = (word.map Char.toLower == "and".toList.map Char.toLower) := by
    rw [Text.sameIgnoringCase, Text.asciiLower, Text.asciiLower, String.toList_ofList,
      Bool.eq_iff_iff, beq_iff_eq, beq_iff_eq, String.ofList_inj]
  rw [separator, run_record, run_atomic, run_seq_eq, hsame]
  have hseq := acceptCaseless_notAhead (b := b) toLower_ne_of_isWordGap hword hrest
  simp only [skip_atomic]
  rw [Expr.run, hseq]
  split
  · rfl
  · rfl

/-! ## The words ahead -/

/-- The words `ts` are those ahead of a spot in a text of `total` bytes. -/
def Ahead (total : Nat) (s : Spot) (ts : List Token) : Prop :=
  s.byte + Text.byteLength s.rest = total ∧ ∃ p : Place, p.byte = s.byte ∧ Laid p s.rest ts

/-- No white space stands right ahead. -/
def AtWord (s : Spot) : Prop := ∀ c ∈ s.rest.head?, isWordGap c = false

def wordNode (t : Token) : Node := .mk .word t.start t.stop []

def separatorNode (t : Token) : Node := .mk .separator t.start t.stop []

theorem AtWord.skip_eq {s : Spot} (h : AtWord s) : Expr.skip space false s = s := skip_eq_self h

theorem Ahead.skip {total : Nat} {s : Spot} (h : Ahead total s ts) : ∃ next,
    Expr.skip space false s = next ∧ AtWord next ∧ Ahead total next ts ∧
      next.byte = (ts.head?.map (·.start)).getD total ∧ next.rest.length ≤ s.rest.length := by
  obtain ⟨b, cs⟩ := s
  obtain ⟨htotal, p, rfl, hlaid⟩ := h
  cases hlaid with
  | blank hgap =>
    have hend : ∀ c ∈ ([] : List Char).head?, isWordGap c = false := by rintro c ⟨⟩
    have hskip : Expr.skip space false ⟨p.byte, cs ++ []⟩ = _ := skip_gap hgap hend
    rw [List.append_nil] at hskip
    exact ⟨_, hskip, hend, ⟨htotal, p.behind cs, p.byte_behind cs, .blank (by simp)⟩, htotal,
      Nat.zero_le _⟩
  | @word _ gap word rest ts hgap hne hword hrest hlaid =>
    obtain ⟨c, word, rfl⟩ := List.exists_cons_of_ne_nil hne
    have hfirst : ∀ d ∈ (c :: word ++ rest).head?, isWordGap d = false := by
      rintro d ⟨⟩
      exact hword c List.mem_cons_self
    refine ⟨_, skip_gap hgap hfirst, hfirst, ⟨?_, p.behind gap, p.byte_behind gap, ?_⟩,
      (p.byte_behind gap).symm, ?_⟩
    · change p.byte + Text.byteLength (gap ++ (c :: word ++ rest)) = total at htotal
      rw [← htotal, Text.byteLength_append gap, Nat.add_assoc]
    · exact @Laid.word _ [] _ _ _ (by simp) hne hword hrest hlaid
    · exact (List.sublist_append_right gap _).length_le

theorem Ahead.next {total : Nat} {s : Spot} (h : Ahead total s (t :: ts)) (hat : AtWord s) :
    ∃ next, Ahead total next ts ∧ next.byte = t.stop ∧ next.rest.length < s.rest.length ∧
      Grammar.word.run space false s = some ([wordNode t], next) ∧
      separator.run space false s
        = if t.isSeparator then some ([separatorNode t], next) else none := by
  obtain ⟨b, cs⟩ := s
  obtain ⟨htotal, p, rfl, hlaid⟩ := h
  cases hlaid with
  | @word _ gap word rest ts hgap hne hword hrest hlaid =>
    obtain rfl : gap = [] := by
      rcases gap with _ | ⟨g, gap⟩
      · rfl
      · have hg := hat g rfl
        rw [hgap g List.mem_cons_self] at hg
        cases hg
    refine ⟨⟨p.byte + Text.byteLength word, rest⟩, ⟨?_, (p.behind []).behind word, ?_, hlaid⟩, rfl,
      ?_, run_word false hne hword hrest, run_separator false hword hrest⟩
    · change p.byte + Text.byteLength (word ++ rest) = total at htotal
      rw [← htotal, Text.byteLength_append, Nat.add_assoc]
    · exact p.byte_behind word
    · have hpos := List.length_pos_iff.mpr hne
      change rest.length < (word ++ rest).length
      rw [List.length_append]
      omega

theorem Ahead.eq_of_nil {total : Nat} {s : Spot} (h : Ahead total s []) (hat : AtWord s) :
    s = ⟨total, []⟩ := by
  obtain ⟨b, cs⟩ := s
  obtain ⟨htotal, p, rfl, hlaid⟩ := h
  cases hlaid with
  | blank hgap =>
    rcases cs with _ | ⟨c, cs⟩
    · rw [← htotal]
      rfl
    · have hc := hat c rfl
      rw [hgap c List.mem_cons_self] at hc
      cases hc

theorem run_separator_nil (b : Nat) : separator.run space false ⟨b, []⟩ = none := rfl

theorem run_word_nil (b : Nat) : Grammar.word.run space false ⟨b, []⟩ = none := rfl

/-! ## Clauses -/

/-- A word in a clause. -/
def clauseWord : Expr := .seq (.notAhead separator) Grammar.word

/-- The node of the clause with these words. -/
def clauseNode (tokens : List Token) (place : Nat) : Node :=
  .mk .clause ((tokens.head?.map (·.start)).getD place) ((tokens.getLast?.map (·.stop)).getD place)
    (tokens.map wordNode)

theorem run_clauseWord_nil (b : Nat) : clauseWord.run space false ⟨b, []⟩ = none := by
  rw [clauseWord, run_seq_eq, run_notAhead, run_separator_nil, Option.isSome_none,
    if_neg Bool.false_ne_true, Option.bind_some, skip_eq_self (by rintro c ⟨⟩), run_word_nil,
    Option.map_none]

theorem Ahead.next_clauseWord {total : Nat} {s : Spot} (h : Ahead total s (t :: ts))
    (hat : AtWord s) : ∃ next, Ahead total next ts ∧ next.byte = t.stop ∧
      next.rest.length < s.rest.length ∧
      clauseWord.run space false s
        = if t.isSeparator then none else some ([wordNode t], next) := by
  obtain ⟨next, hnext, hstop, hlt, hword, hseparator⟩ := h.next hat
  refine ⟨next, hnext, hstop, hlt, ?_⟩
  rw [clauseWord, run_seq_eq, run_notAhead, hseparator]
  by_cases ht : t.isSeparator = true
  · rw [if_pos ht, if_pos ht]
    rfl
  · rw [if_neg ht, if_neg ht]
    simp only [Option.isSome_none, Bool.false_eq_true, if_false, Option.bind_some, hat.skip_eq,
      hword, Option.map_some, List.nil_append]

theorem many_clauseWord {total : Nat} {s : Spot} (h : Ahead total s ts) : ∃ next,
    many (fun t ↦ clauseWord.run space false (Expr.skip space false t)) s
        = ((ts.takeWhile (!·.isSeparator)).map wordNode, next) ∧
      Ahead total next (ts.dropWhile (!·.isSeparator)) ∧
      next.byte = ((ts.takeWhile (!·.isSeparator)).getLast?.map (·.stop)).getD s.byte ∧
      next.rest.length ≤ s.rest.length := by
  induction ts generalizing s with
  | nil =>
    obtain ⟨s', hskip, hat, hs', -, -⟩ := h.skip
    refine ⟨s, many_of_none ?_, h, rfl, Nat.le_refl _⟩
    rw [hskip, hs'.eq_of_nil hat, run_clauseWord_nil]
  | cons t ts ih =>
    obtain ⟨s', hskip, hat, hs', -, hle⟩ := h.skip
    obtain ⟨next, hnext, hstop, hlt, hrun⟩ := hs'.next_clauseWord hat
    by_cases ht : t.isSeparator = true
    · have hstays : (!t.isSeparator) = false := by rw [ht]; rfl
      rw [if_pos ht] at hrun
      rw [List.takeWhile_cons, List.dropWhile_cons, hstays]
      refine ⟨s, many_of_none ?_, h, rfl, Nat.le_refl _⟩
      rw [hskip, hrun]
    · have htaken : (!t.isSeparator) = true := by rw [Bool.eq_false_iff.mpr ht]; rfl
      rw [if_neg ht] at hrun
      obtain ⟨last, hmany, hlast, hbyte, hless⟩ := ih hnext
      rw [List.takeWhile_cons, List.dropWhile_cons, htaken, if_pos rfl, if_pos rfl]
      refine ⟨last, ?_, hlast, ?_, by omega⟩
      · rw [many_of_some (by rw [hskip, hrun]) (by omega), hmany]
        rfl
      · rw [hbyte, hstop, List.getLast?_cons, Option.map_some, Option.getD_some]
        cases (ts.takeWhile (!·.isSeparator)).getLast? with
        | none => rfl
        | some last => rfl

theorem Ahead.star_clauseWord {total : Nat} {s : Spot} (h : Ahead total s ts) (hat : AtWord s) :
    (Expr.star clauseWord).run space false s
      = some (many (fun t ↦ clauseWord.run space false (Expr.skip space false t)) s) := by
  refine run_star hat.skip_eq fun nodes next hrun ↦ ?_
  rcases ts with _ | ⟨t, ts⟩
  · rw [h.eq_of_nil hat, run_clauseWord_nil] at hrun
    cases hrun
  · obtain ⟨next, -, -, hlt, hword⟩ := h.next_clauseWord hat
    rw [hword] at hrun
    split at hrun
    · cases hrun
    · obtain ⟨-, rfl⟩ := Prod.mk.inj (Option.some.inj hrun)
      exact hlt

/-- **Clauses.** A clause takes the words up to the next separator. -/
theorem Ahead.run_clause {total : Nat} {s : Spot} (h : Ahead total s ts) (hat : AtWord s) :
    ∃ next, clause.run space false s
        = some ([clauseNode (ts.takeWhile (!·.isSeparator))
          (((ts.dropWhile (!·.isSeparator)).head?.map (·.start)).getD total)], next) ∧
      Ahead total next (ts.dropWhile (!·.isSeparator)) ∧
      next.rest.length ≤ s.rest.length := by
  obtain ⟨s', hskip, -, -, hplace, -⟩ := h.skip
  obtain rfl : s = s' := by rw [← hskip, hat.skip_eq]
  obtain ⟨next, hmany, hnext, hbyte, hle⟩ := many_clauseWord h
  refine ⟨next, ?_, hnext, hle⟩
  rw [clause, run_record]
  change ((Expr.star clauseWord).run space false s).map _ = _
  rw [h.star_clauseWord hat, hmany, Option.map_some, clauseNode, hbyte, hplace]
  rcases ts with _ | ⟨t, ts⟩
  · rfl
  · by_cases ht : t.isSeparator = true
    · have hstays : (!t.isSeparator) = false := by rw [ht]; rfl
      rw [List.takeWhile_cons, List.dropWhile_cons, hstays]
      rfl
    · have htaken : (!t.isSeparator) = true := by rw [Bool.eq_false_iff.mpr ht]; rfl
      rw [List.takeWhile_cons, htaken, if_pos rfl, List.getLast?_cons]
      rfl

/-! ## Texts -/

/-- The nodes of clauses among the nodes and those inside them. -/
def clauseNodes (nodes : List Node) : List Node :=
  (Node.flattenAll nodes).filter (·.rule == .clause)

theorem flattenAll_append (as bs : List Node) :
    Node.flattenAll (as ++ bs) = Node.flattenAll as ++ Node.flattenAll bs := by
  induction as with
  | nil => rw [Node.flattenAll, List.nil_append, List.nil_append]
  | cons a as ih =>
    rw [List.cons_append, Node.flattenAll, ih, Node.flattenAll, List.append_assoc]

theorem clauseNodes_append (as bs : List Node) :
    clauseNodes (as ++ bs) = clauseNodes as ++ clauseNodes bs := by
  rw [clauseNodes, flattenAll_append, List.filter_append, clauseNodes, clauseNodes]

theorem clauseNodes_of_ne {rule : Rule} (h : rule ≠ .clause) (start stop : Nat)
    (children : List Node) : clauseNodes [.mk rule start stop children] = clauseNodes children := by
  have hrule : ((Node.mk rule start stop children).rule == .clause) = false := beq_false_of_ne h
  rw [clauseNodes, Node.flattenAll, Node.flatten, Node.flattenAll, List.append_nil,
    List.filter_cons, hrule, if_neg Bool.false_ne_true, clauseNodes]

theorem clauseNodes_words (tokens : List Token) : clauseNodes (tokens.map wordNode) = [] := by
  induction tokens with
  | nil => rfl
  | cons t tokens ih =>
    rw [List.map_cons, ← List.singleton_append, clauseNodes_append, ih, wordNode,
      clauseNodes_of_ne (by decide)]
    rfl

theorem clauseNodes_clause (tokens : List Token) (place : Nat) :
    clauseNodes [clauseNode tokens place] = [clauseNode tokens place] := by
  have hwords := clauseNodes_words tokens
  rw [clauseNodes] at hwords ⊢
  rw [clauseNode, Node.flattenAll, Node.flatten, Node.flattenAll, List.append_nil,
    List.filter_cons_of_pos rfl, hwords]

/-- The first group has the words up to the next separator, and the others begin behind it. -/
theorem group_eq (stop : Nat) (ts : List Token) : Clause.group stop ts
    = (ts.takeWhile (!·.isSeparator),
        ((ts.dropWhile (!·.isSeparator)).head?.map (·.start)).getD stop)
      :: (Clause.group stop (ts.dropWhile (!·.isSeparator))).tail := by
  induction ts with
  | nil => rfl
  | cons t ts ih =>
    rw [List.takeWhile_cons, List.dropWhile_cons]
    by_cases ht : t.isSeparator = true
    · rw [ht, Clause.group, if_pos ht, Bool.not_true, if_neg Bool.false_ne_true,
        if_neg Bool.false_ne_true, Clause.group, if_pos ht]
      rfl
    · rw [Bool.eq_false_iff.mpr ht, Clause.group, if_neg ht, ih]
      rfl

/-- A separator and the clause behind it. -/
def nextClause : Expr := .seq separator clause

theorem head?_dropWhile_isSeparator {t : Token}
    (h : t ∈ (ts.dropWhile (!·.isSeparator)).head?) : t.isSeparator = true := by
  have hnot := List.head?_dropWhile_not (!·.isSeparator) ts
  rw [Option.mem_def.mp h] at hnot
  simpa using hnot

theorem Ahead.next_nextClause {total : Nat} {s : Spot} (h : Ahead total s (t :: ts))
    (ht : t.isSeparator = true) (hat : AtWord s) : ∃ next,
      nextClause.run space false s = some ([separatorNode t] ++
        [clauseNode (ts.takeWhile (!·.isSeparator))
          (((ts.dropWhile (!·.isSeparator)).head?.map (·.start)).getD total)], next) ∧
      Ahead total next (ts.dropWhile (!·.isSeparator)) ∧ next.rest.length < s.rest.length := by
  obtain ⟨behind, hbehind, -, hlt, -, hseparator⟩ := h.next hat
  rw [if_pos ht] at hseparator
  obtain ⟨skipped, hskip, hatWord, hskipped, -, hle⟩ := hbehind.skip
  obtain ⟨next, hclause, hnext, hless⟩ := hskipped.run_clause hatWord
  exact ⟨next, run_seq hseparator (by rw [hskip, hclause]), hnext, by omega⟩

theorem Ahead.star_nextClause {total : Nat} {s : Spot} (h : Ahead total s ts) (hat : AtWord s)
    (hfirst : ∀ t ∈ ts.head?, t.isSeparator = true) :
    (Expr.star nextClause).run space false s
      = some (many (fun t ↦ nextClause.run space false (Expr.skip space false t)) s) := by
  refine run_star hat.skip_eq fun nodes next hrun ↦ ?_
  rcases ts with _ | ⟨t, ts⟩
  · rw [h.eq_of_nil hat, nextClause, run_seq_eq_none (run_separator_nil _)] at hrun
    cases hrun
  · obtain ⟨behind, hbehind, -, hlt⟩ := h.next_nextClause (hfirst t rfl) hat
    rw [hbehind] at hrun
    obtain ⟨-, rfl⟩ := Prod.mk.inj (Option.some.inj hrun)
    exact hlt

theorem many_nextClause {total : Nat} {s : Spot} (h : Ahead total s ts)
    (hfirst : ∀ t ∈ ts.head?, t.isSeparator = true) : ∃ nodes next,
    many (fun t ↦ nextClause.run space false (Expr.skip space false t)) s = (nodes, next) ∧
      Ahead total next [] ∧
      clauseNodes nodes = (Clause.group total ts).tail.map fun g ↦ clauseNode g.1 g.2 := by
  -- A step takes a separator and all words up to the next one.
  induction hlength : ts.length using Nat.strongRecOn generalizing s ts with
  | ind n ih =>
    obtain ⟨s', hskip, hat, hs', -, hle⟩ := h.skip
    rcases ts with _ | ⟨t, ts⟩
    · refine ⟨[], s, many_of_none ?_, h, rfl⟩
      rw [hskip, hs'.eq_of_nil hat, nextClause, run_seq_eq_none (run_separator_nil total)]
    · have ht := hfirst t rfl
      obtain ⟨behind, hrun, hbehind, hlt⟩ := hs'.next_nextClause ht hat
      have hshorter : (ts.dropWhile (!·.isSeparator)).length < n := by
        have hdrop := (List.dropWhile_sublist (!·.isSeparator) (l := ts)).length_le
        rw [← hlength, List.length_cons]
        omega
      obtain ⟨nodes, last, hmany, hlast, hnodes⟩ := ih _ hshorter hbehind
        (fun t ↦ head?_dropWhile_isSeparator) rfl
      have hstep := many_of_some (m := fun t ↦ nextClause.run space false (Expr.skip space false t))
        (by rw [hskip, hrun]) (Nat.lt_of_lt_of_le hlt hle)
      rw [hmany] at hstep
      refine ⟨_, last, hstep, hlast, ?_⟩
      · rw [clauseNodes_append, clauseNodes_append, clauseNodes_clause, hnodes, Clause.group,
          if_pos ht, List.tail_cons, group_eq total ts, List.map_cons]
        rfl

/-- **Matching.** Every text matches, and the clauses among its nodes are those that its words are
grouped into. -/
theorem exists_parse_eq_some (text : List Char) : ∃ nodes, parse text = some nodes ∧
    clauseNodes nodes = (Clause.group (Text.byteLength text) (Token.words text)).map
      fun g ↦ clauseNode g.1 g.2 := by
  have hall : Ahead (Text.byteLength text) ⟨0, text⟩ (Token.words text) :=
    ⟨Nat.zero_add _, {}, rfl, Token.laid_words text⟩
  obtain ⟨s₀, hskip₀, hat₀, hs₀, -, -⟩ := hall.skip
  obtain ⟨s₁, hclause, hs₁, -⟩ := hs₀.run_clause hat₀
  obtain ⟨s₂, hskip₂, hat₂, hs₂, -, -⟩ := hs₁.skip
  obtain ⟨nodes, s₃, hmany, hs₃, hnodes⟩ :=
    many_nextClause hs₂ (fun t ↦ head?_dropWhile_isSeparator)
  obtain ⟨s₄, hskip₄, hat₄, hs₄, -, -⟩ := hs₃.skip
  have hstart : Expr.start.run space false ⟨0, text⟩ = some ([], ⟨0, text⟩) := rfl
  have hstar := hs₂.star_nextClause hat₂ fun t ↦ head?_dropWhile_isSeparator
  rw [hmany] at hstar
  have hfinish : Expr.finish.run space false s₄ = some ([.mk .finish s₄.byte s₄.byte []], s₄) := by
    rw [hs₄.eq_of_nil hat₄]
    rfl
  have hquery := run_seq hstart (by
    rw [hskip₀]
    exact run_seq hclause (by rw [hskip₂]; exact run_seq hstar (by rw [hskip₄]; exact hfinish)))
  have hparse : parse text = ((Expr.record .query (.seq .start (.seq clause
      (.seq (.star nextClause) .finish)))).run space false ⟨0, text⟩).map (·.1) := rfl
  rw [run_record, hquery, Option.map_some, Option.map_some] at hparse
  refine ⟨_, hparse, ?_⟩
  rw [group_eq, List.map_cons, ← hnodes, clauseNodes_of_ne (by decide), List.nil_append,
    clauseNodes_append, clauseNodes_append, clauseNodes_clause, clauseNodes_of_ne (by decide)]
  change _ :: (clauseNodes nodes ++ []) = _
  rw [List.append_nil]

end CorpusQuery.Grammar

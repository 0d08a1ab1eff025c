import CorpusQuery.Clause
import CorpusQuery.Proofs.Lists
import Mathlib.Data.List.Induction

/-!
# The words of a text and where they stand

A text is white space, a word, white space, a word and so on, and this arrangement is all that there
is to its words. `Laid` says it as an inductive predicate, with the place where each stretch begins.
Words are read from the right, so it takes an induction on the length of the text to see that they
are laid out like this; everything about their places then follows by induction on the arrangement.

## Main statements

* `Token.laid_wordsFrom`: the words of a text are laid out in it.
* `Token.map_lexeme_words`: they are the longest runs of characters other than white space.
* `Token.standsIn_of_mem_words`: they stand where their places say.
* `Token.pairwise_words`: they stand apart, one after the other.
-/

namespace CorpusQuery

/-! ## Places -/

namespace Place

/-- The place behind a stretch of characters. -/
def behind (p : Place) (cs : List Char) : Place := cs.foldl after p

@[simp] theorem behind_nil (p : Place) : p.behind [] = p := rfl

@[simp] theorem behind_cons (p : Place) (c : Char) (cs : List Char) :
    p.behind (c :: cs) = (p.after c).behind cs := rfl

theorem behind_append (p : Place) (as bs : List Char) :
    p.behind (as ++ bs) = (p.behind as).behind bs := List.foldl_append

theorem byte_behind (p : Place) (cs : List Char) :
    (p.behind cs).byte = p.byte + Text.byteLength cs := by
  induction cs generalizing p with
  | nil => rfl
  | cons c cs ih => rw [behind_cons, ih, Text.byteLength_cons, after, Nat.add_assoc]

theorem column_behind (cs : List Char) :
    (behind {} cs).column = 1 + (cs.reverse.takeWhile (· != '\n')).length := by
  induction cs using List.reverseRecOn with
  | nil => rfl
  | append_singleton cs c ih =>
    rw [behind_append, behind_cons, behind_nil, after, List.reverse_append, List.reverse_singleton,
      List.singleton_append, List.takeWhile_cons]
    by_cases hc : c = '\n'
    · subst hc
      rfl
    · have hbeq : (c == '\n') = false := beq_false_of_ne hc
      have hbne : (c != '\n') = true := bne_iff_ne.mpr hc
      rw [hbeq, hbne, if_neg Bool.false_ne_true, if_pos rfl, List.length_cons, ih, Nat.add_assoc]

end Place

/-- Nothing follows, or white space. -/
def Text.BeginsApart (cs : List Char) : Prop := ∀ c ∈ cs.head?, isWordGap c = true

/-- The longest runs of characters that are not separated by `p`. -/
def Text.runs (p : Char → Bool) (cs : List Char) : List (List Char) :=
  (cs.splitOnP p).filter (!·.isEmpty)

namespace Token

variable {here : Place} {cs rest : List Char} {t : Token} {ts : List Token}

/-! ## Words from a place on -/

/-- The words of a text that begins at a place. -/
def wordsFrom (here : Place) (cs : List Char) : List Token :=
  at? here (scan here cs).1 ++ (scan here cs).2

theorem words_eq (cs : List Char) : words cs = wordsFrom {} cs := rfl

theorem scan_gap {c : Char} (h : isWordGap c = true) (cs : List Char) :
    scan here (c :: cs) = ([], wordsFrom (here.after c) cs) := if_pos h

theorem scan_char {c : Char} (h : isWordGap c = false) (cs : List Char) :
    scan here (c :: cs) = (c :: (scan (here.after c) cs).1, (scan (here.after c) cs).2) :=
  if_neg (Bool.eq_false_iff.mp h)

theorem wordsFrom_gap {c : Char} (h : isWordGap c = true) (cs : List Char) :
    wordsFrom here (c :: cs) = wordsFrom (here.after c) cs := by
  rw [wordsFrom, scan_gap h]
  rfl

theorem wordsFrom_gaps {gap : List Char} (h : ∀ c ∈ gap, isWordGap c = true) (cs : List Char) :
    wordsFrom here (gap ++ cs) = wordsFrom (here.behind gap) cs := by
  induction gap generalizing here with
  | nil => rfl
  | cons c gap ih =>
    obtain ⟨hc, hgap⟩ := List.forall_mem_cons.mp h
    rw [List.cons_append, wordsFrom_gap hc, ih hgap, Place.behind_cons]

theorem scan_word {word : List Char} (h : ∀ c ∈ word, isWordGap c = false)
    (hrest : Text.BeginsApart rest) :
    scan here (word ++ rest) = (word, wordsFrom (here.behind word) rest) := by
  induction word generalizing here with
  | nil =>
    cases rest with
    | nil => rfl
    | cons c rest =>
      have hc := hrest c rfl
      rw [List.nil_append, scan_gap hc, Place.behind_nil, wordsFrom_gap hc]
  | cons c word ih =>
    obtain ⟨hc, hword⟩ := List.forall_mem_cons.mp h
    rw [List.cons_append, scan_char hc, ih hword, Place.behind_cons]

theorem wordsFrom_append_gap {c : Char} (h : isWordGap c = true) (as bs : List Char) :
    wordsFrom here (as ++ c :: bs)
      = wordsFrom here as ++ wordsFrom ((here.behind as).after c) bs := by
  have hscan : scan here (as ++ c :: bs)
      = ((scan here as).1, (scan here as).2 ++ wordsFrom ((here.behind as).after c) bs) := by
    induction as generalizing here with
    | nil =>
      rw [List.nil_append, scan_gap h]
      rfl
    | cons d as ih =>
      rw [List.cons_append, Place.behind_cons]
      by_cases hd : isWordGap d = true
      · rw [scan_gap hd, scan_gap hd, wordsFrom, ih, ← List.append_assoc]
        rfl
      · have hd : isWordGap d = false := Bool.eq_false_iff.mpr hd
        rw [scan_char hd, scan_char hd, ih]
  rw [wordsFrom, hscan, ← List.append_assoc]
  rfl

/-! ## The arrangement of a text -/

/-- The word with these characters at this place. -/
def ofChars (p : Place) (word : List Char) : Token where
  lexeme := .ofList word
  column := p.column
  start := p.byte
  stop := p.byte + Text.byteLength word

/-- The words `ts` are laid out in the text `cs` that begins at `p`: white space, a word up to the
next white space or the end, and so on. -/
inductive Laid : Place → List Char → List Token → Prop
  | blank {p : Place} {gap : List Char} (hgap : ∀ c ∈ gap, isWordGap c = true) : Laid p gap []
  | word {p : Place} {gap word rest : List Char} {ts : List Token}
    (hgap : ∀ c ∈ gap, isWordGap c = true) (hne : word ≠ [])
    (hword : ∀ c ∈ word, isWordGap c = false) (hrest : Text.BeginsApart rest)
    (hlaid : Laid ((p.behind gap).behind word) rest ts) :
    Laid p (gap ++ (word ++ rest)) (ofChars (p.behind gap) word :: ts)

/-- **Arrangement.** The words of a text are laid out in it. -/
theorem laid_wordsFrom (p : Place) (cs : List Char) : Laid p cs (wordsFrom p cs) := by
  -- A word is read as a whole, so the induction is on the length and not on the characters.
  induction hlength : cs.length using Nat.strongRecOn generalizing p cs with
  | ind n ih =>
    obtain ⟨gap, tail, rfl, hgap, hfirst⟩ := exists_stretch isWordGap cs
    rw [wordsFrom_gaps hgap]
    obtain ⟨word, rest, rfl, hword, hrest⟩ := exists_stretch (!isWordGap ·) tail
    have hword : ∀ c ∈ word, isWordGap c = false := fun c hc ↦ by simpa using hword c hc
    have hapart : Text.BeginsApart rest := fun c hc ↦ by simpa using hrest c hc
    rw [wordsFrom, scan_word hword hapart]
    cases word with
    | nil =>
      -- Neither white space nor a word is left, so nothing is.
      cases rest with
      | nil =>
        rw [List.append_nil, List.append_nil]
        exact .blank hgap
      | cons c rest =>
        have hc := hapart c rfl
        rw [hfirst c rfl] at hc
        cases hc
    | cons c word =>
      refine .word hgap (List.cons_ne_nil c word) hword hapart (ih rest.length ?_ _ _ rfl)
      rw [← hlength, List.length_append, List.length_append, List.length_cons]
      omega

theorem laid_words (cs : List Char) : Laid {} cs (words cs) := laid_wordsFrom {} cs

/-! ## Where words stand -/

/-- The word stands in a text at the bytes and in the column that it says: the column counts the
characters behind the last line feed before the word. -/
def StandsIn (text : List Char) (t : Token) : Prop :=
  ∃ before after, text = before ++ t.lexeme.toList ++ after ∧ t.start = Text.byteLength before ∧
    t.stop = t.start + Text.byteLength t.lexeme.toList ∧
    t.column = 1 + (before.reverse.takeWhile (· != '\n')).length

theorem StandsIn.slice_eq {text : List Char} (h : t.StandsIn text) :
    Text.slice t.start t.stop text = t.lexeme.toList := by
  obtain ⟨before, after, rfl, hstart, hstop, -⟩ := h
  rw [Text.slice, hstop, Nat.add_sub_cancel_left, hstart, List.append_assoc,
    Text.dropBytes_byteLength_append, Text.takeBytes_byteLength_append]

theorem Laid.standsIn {p : Place} {before : List Char} (h : Laid p cs ts)
    (hp : p = Place.behind {} before) (ht : t ∈ ts) : t.StandsIn (before ++ cs) := by
  induction h generalizing before with
  | blank hgap => cases ht
  | @word p gap word rest ts hgap hne hword hrest hlaid ih =>
    have hplace : p.behind gap = Place.behind {} (before ++ gap) := by
      rw [hp, Place.behind_append]
    rcases List.mem_cons.mp ht with rfl | ht
    · refine ⟨before ++ gap, rest, ?_, ?_, ?_, ?_⟩
      · rw [ofChars, String.toList_ofList, List.append_assoc, List.append_assoc]
      · rw [ofChars, hplace, Place.byte_behind, Nat.zero_add]
      · rw [ofChars, String.toList_ofList]
      · rw [ofChars, hplace, Place.column_behind]
    · have hnext : (p.behind gap).behind word = Place.behind {} (before ++ gap ++ word) := by
        rw [hplace, ← Place.behind_append]
      have hstands := ih hnext ht
      rwa [List.append_assoc, List.append_assoc] at hstands

theorem standsIn_of_mem_words (h : t ∈ words cs) : t.StandsIn cs := by
  have hplace : ({} : Place) = Place.behind {} [] := rfl
  exact (laid_words cs).standsIn hplace h

/-- A word takes at least one byte, and words that follow a word or white space begin behind it. -/
theorem Laid.start_lt {p : Place} (h : Laid p cs ts) (ht : t ∈ ts) :
    p.byte ≤ t.start ∧ t.start < t.stop ∧ (Text.BeginsApart cs → p.byte < t.start) := by
  induction h with
  | blank hgap => cases ht
  | @word p gap word rest ts hgap hne hword hrest hlaid ih =>
    obtain ⟨c, word, rfl⟩ := List.exists_cons_of_ne_nil hne
    have hsize := c.utf8Size_pos
    rcases List.mem_cons.mp ht with rfl | ht
    · dsimp only [ofChars]
      rw [Place.byte_behind, Text.byteLength_cons]
      refine ⟨by omega, by omega, fun hapart ↦ ?_⟩
      -- The text begins with white space, so there is some before the word.
      cases gap with
      | nil =>
        have hc := hword c List.mem_cons_self
        rw [hapart c rfl] at hc
        cases hc
      | cons g gap =>
        have hgapSize := g.utf8Size_pos
        rw [Text.byteLength_cons]
        omega
    · obtain ⟨hle, hlt, -⟩ := ih ht
      rw [Place.byte_behind, Place.byte_behind, Text.byteLength_cons] at hle
      exact ⟨by omega, hlt, fun _ ↦ by omega⟩

theorem Laid.pairwise {p : Place} (h : Laid p cs ts) : ts.Pairwise (·.stop < ·.start) := by
  induction h with
  | blank hgap => exact .nil
  | @word p gap word rest ts hgap hne hword hrest hlaid ih =>
    refine .cons (fun t ht ↦ ?_) ih
    have hlt := (hlaid.start_lt ht).2.2 hrest
    rwa [Place.byte_behind] at hlt

theorem pairwise_words (cs : List Char) : (words cs).Pairwise (·.stop < ·.start) :=
  (laid_words cs).pairwise

/-! ## Which words there are -/

theorem map_lexeme_at? (word : List Char) :
    (at? here word).map (·.lexeme.toList) = [word].filter (!·.isEmpty) := by
  cases word with
  | nil => rfl
  | cons c cs => simp [at?]

theorem exists_splitOnP_eq (cs : List Char) : ∃ pieces,
    cs.splitOnP isWordGap = (scan here cs).1 :: pieces ∧
      (scan here cs).2.map (·.lexeme.toList) = pieces.filter (!·.isEmpty) := by
  induction cs generalizing here with
  | nil => exact ⟨[], rfl, rfl⟩
  | cons c cs ih =>
    obtain ⟨pieces, hsplit, hwords⟩ := @ih (here.after c)
    rw [List.splitOnP_cons_eq_if_modifyHead, hsplit]
    by_cases hc : isWordGap c = true
    · refine ⟨_, by rw [if_pos hc, scan_gap hc], ?_⟩
      rw [scan_gap hc, wordsFrom, List.map_append, map_lexeme_at?, hwords, ← List.filter_append]
      rfl
    · rw [if_neg hc, scan_char (Bool.eq_false_iff.mpr hc)]
      exact ⟨pieces, rfl, hwords⟩

/-- **Words.** The words of a text are its longest runs of characters other than white space. -/
theorem map_lexeme_words (cs : List Char) :
    (words cs).map (·.lexeme.toList) = Text.runs isWordGap cs := by
  obtain ⟨pieces, hsplit, hwords⟩ := @exists_splitOnP_eq {} cs
  rw [words_eq, wordsFrom, List.map_append, map_lexeme_at?, hwords, Text.runs, hsplit,
    ← List.filter_append]
  rfl

end Token

end CorpusQuery

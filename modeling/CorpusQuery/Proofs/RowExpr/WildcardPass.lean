import CorpusQuery.Proofs.Lists
import CorpusQuery.Text.Split
import CorpusQuery.Wildcard

/-!
# What the wildcard pass finds

A text is like a pattern if it can be cut into pieces, one for each character of the pattern, such
that `%` has any piece, `_` one of a single character, and every other character itself. The pass
does not look for such pieces but keeps one point of return, and it takes a `%` of the text for a
`%` of the pattern wherever the two meet. So what it finds is described first: everything as above,
except that a `%` in front of a `%` has only that as its piece.

Two facts carry the proof that the pass finds exactly this. Since the last `%` it was returned to,
pattern and text have been used up in step, character by character. And a later start cannot
overtake an earlier one: wherever the same characters of the pattern lead to from further right, it
is not to the left of where they led in step. So nothing is lost when a new `%` makes the pass
forget the one before, nor when the text ends.

## Main statements

* `Wildcard.run_iff`: what the pass finds from a cursor.
* `wildcardMatch_iff_found`: what it finds in a text.
* `wildcardMatch_like`: whatever it finds is like the pattern, and the converse fails only where a
  `%` of the text can meet one of the pattern.
-/

namespace CorpusQuery

namespace Wildcard

/-! ## Patterns -/

/-- Whether a character of a pattern stands for a piece of a text. -/
def StandsFor (p : Char) (piece : List Char) : Prop :=
  p = '%' ∨ p = '_' ∧ piece.length = 1 ∨ p ≠ '_' ∧ piece = [p]

/-- A text is cut into pieces that the characters of a pattern stand for. -/
def Like (pattern text : List Char) : Prop :=
  ∃ pieces, List.Forall₂ StandsFor pattern pieces ∧ pieces.flatten = text

/-- Whether a character of a pattern is used up together with one of a text. -/
def Takes (p c : Char) : Prop := p = '_' ∨ p = c

/-- What the pass looks for: a `%` takes a `%` that it stands in front of, and else a run of
characters. -/
inductive Found : List Char → List Char → Prop
  | nil : Found [] []
  | char {p c : Char} {ps cs : List Char} (hp : Takes p c) (h : Found ps cs) :
    Found (p :: ps) (c :: cs)
  | run {ps cs rest : List Char} (hfirst : cs.head? ≠ some '%') (hrest : rest <:+ cs)
    (h : Found ps rest) : Found ('%' :: ps) cs

namespace Found

variable {p c : Char} {ps cs : List Char}

theorem char_iff (hp : Takes p c) : Found (p :: ps) (c :: cs) ↔ Found ps cs := by
  constructor
  · intro h
    cases h with
    | char _ h => exact h
    | run hfirst hrest h =>
      -- A `%` that takes the character is in front of a `%`.
      rcases hp with hp | rfl
      · exact absurd hp (by decide)
      · exact absurd rfl hfirst
  · exact .char hp

theorem run_iff (hfirst : cs.head? ≠ some '%') :
    Found ('%' :: ps) cs ↔ ∃ rest, rest <:+ cs ∧ Found ps rest := by
  constructor
  · intro h
    cases h with
    | char hp h =>
      rcases hp with hp | rfl
      · exact absurd hp (by decide)
      · exact absurd rfl hfirst
    | run _ hrest h => exact ⟨_, hrest, h⟩
  · rintro ⟨rest, hrest, h⟩
    exact .run hfirst hrest h

theorem not_cons (hp : ¬Takes p c) (hne : p ≠ '%') : ¬Found (p :: ps) (c :: cs) := by
  intro h
  cases h with
  | char htakes _ => exact hp htakes
  | run => exact hne rfl

theorem exists_suffix (h : Found ('%' :: ps) cs) : ∃ rest, rest <:+ cs ∧ Found ps rest := by
  cases h with
  | char _ h => exact ⟨_, List.suffix_cons _ _, h⟩
  | run _ hrest h => exact ⟨_, hrest, h⟩

theorem nil_right_iff : Found ps [] ↔ ps.all (· == '%') = true := by
  induction ps with
  | nil => exact ⟨fun _ ↦ rfl, fun _ ↦ .nil⟩
  | cons p ps ih =>
    rw [List.all_cons, Bool.and_eq_true, ← ih, beq_iff_eq]
    constructor
    · intro h
      cases h with
      | run _ hrest h => exact ⟨rfl, List.suffix_nil.mp hrest ▸ h⟩
    · rintro ⟨rfl, h⟩
      exact .run (by simp) (List.suffix_refl []) h

/-- **No overtaking.** Where characters of a pattern have been used up in step with a part of the
text, the same characters lead from no later place to an earlier one. -/
theorem exists_suffix_of_takes {seg part tail : List Char} (hstep : List.Forall₂ Takes seg part)
    (hcs : cs <:+ part ++ tail) (h : Found (seg ++ ps) cs) :
    ∃ rest, rest <:+ tail ∧ Found ps rest := by
  induction hstep generalizing cs with
  | nil => exact ⟨cs, hcs, h⟩
  | @cons p d seg part hp _ ih =>
    rw [List.cons_append] at h hcs
    cases h with
    | char _ h =>
      refine ih ?_ h
      rcases List.suffix_cons_iff.mp hcs with heq | hcs
      · obtain ⟨-, rfl⟩ := List.cons.inj heq
        exact List.suffix_refl _
      · exact (List.suffix_cons _ _).trans hcs
    | run hfirst hrest h =>
      refine ih ?_ h
      rcases List.suffix_cons_iff.mp hcs with rfl | hcs
      · -- From the same place the `%` stands in front of the `%` that it was in step with.
        rcases hp with hp | rfl
        · exact absurd hp (by decide)
        · exact absurd rfl hfirst
      · exact hrest.trans hcs

end Found

/-! ## Steps of a pass -/

variable {text pattern : Array Char} {c c' : Cursor}

/-- What one step of the pass can do. -/
inductive StepSpec (text pattern : Array Char) (c : Cursor) : Option Cursor → Prop
  | char {p d : Char}
    (hpattern : pattern.toList.drop c.pattern = p :: pattern.toList.drop (c.pattern + 1))
    (htext : text.toList.drop c.text = d :: text.toList.drop (c.text + 1)) (hp : Takes p d) :
    StepSpec text pattern c (some { c with text := c.text + 1, pattern := c.pattern + 1 })
  | wildcard
    (hpattern : pattern.toList.drop c.pattern = '%' :: pattern.toList.drop (c.pattern + 1))
    (hfirst : (text.toList.drop c.text).head? ≠ some '%') :
    StepSpec text pattern c
      (some { c with pattern := c.pattern + 1, wildcard := some (c.pattern, c.text) })
  | back {mark reach : Nat}
    (hnot : ¬Found (pattern.toList.drop c.pattern) (text.toList.drop c.text))
    (hwildcard : c.wildcard = some (mark, reach)) :
    StepSpec text pattern c
      (some { text := reach + 1, pattern := mark + 1, wildcard := some (mark, reach + 1) })
  | stop (hnot : ¬Found (pattern.toList.drop c.pattern) (text.toList.drop c.text))
    (hwildcard : c.wildcard = none) : StepSpec text pattern c none

theorem step_spec (pattern : Array Char) (hc : c.text < text.size) :
    StepSpec text pattern c (step text pattern c) := by
  have htext : text[c.text]? = some text[c.text] := Array.getElem?_eq_getElem hc
  have hdrop := drop_eq_cons htext
  rw [step]
  split
  case isTrue hmatch =>
    cases hp : pattern[c.pattern]? with
    | none => simp [hp] at hmatch
    | some p => exact .char (drop_eq_cons hp) hdrop (by simpa [hp, htext, Takes] using hmatch)
  case isFalse hmatch =>
    split
    case isTrue hpercent =>
      refine .wildcard (drop_eq_cons hpercent) ?_
      rw [hdrop]
      simpa [hpercent, htext, eq_comm] using hmatch
    case isFalse hpercent =>
      have hnot : ¬Found (pattern.toList.drop c.pattern) (text.toList.drop c.text) := by
        rw [hdrop]
        cases hp : pattern[c.pattern]? with
        | none =>
          rw [List.drop_eq_nil_of_le (by simpa using Array.getElem?_eq_none_iff.mp hp)]
          rintro ⟨⟩
        | some p =>
          rw [drop_eq_cons hp]
          refine Found.not_cons ?_ fun heq ↦ hpercent (heq ▸ hp)
          simpa [hp, htext, Takes] using hmatch
      split
      · next mark reach hwildcard => exact .back hnot hwildcard
      · next hwildcard => exact .stop hnot hwildcard

/-- Since its last wildcard a cursor has used up pattern and text in step. -/
def Cursor.InStep (text pattern : Array Char) (c : Cursor) : Prop :=
  ∀ mark reach, c.wildcard = some (mark, reach) → ∃ seg part,
    pattern.toList.drop (mark + 1) = seg ++ pattern.toList.drop c.pattern ∧
    text.toList.drop reach = part ++ text.toList.drop c.text ∧ List.Forall₂ Takes seg part

theorem Cursor.InStep.step (h : c.InStep text pattern) (hc : c.text < text.size)
    (hs : step text pattern c = some c') : c'.InStep text pattern := by
  have hspec := step_spec pattern hc
  rw [hs] at hspec
  intro mark reach hwildcard
  cases hspec with
  | @char p d hpattern htext hp =>
    obtain ⟨seg, part, hseg, hpart, hstep⟩ := h mark reach hwildcard
    refine ⟨seg ++ [p], part ++ [d], ?_, ?_, List.rel_append hstep (.cons hp .nil)⟩
    · rw [hseg, hpattern, List.append_assoc]
      rfl
    · rw [hpart, htext, List.append_assoc]
      rfl
  | wildcard hpattern hfirst =>
    obtain ⟨rfl, rfl⟩ := Prod.mk.inj (Option.some.inj hwildcard)
    exact ⟨[], [], rfl, rfl, .nil⟩
  | back hnot hback =>
    obtain ⟨rfl, rfl⟩ := Prod.mk.inj (Option.some.inj hwildcard)
    exact ⟨[], [], rfl, rfl, .nil⟩

/-! ## What is found from a cursor -/

/-- What is left of the pattern is found right here, or what is left behind the last wildcard is
found further on than it has reached. -/
def Cursor.Finds (text pattern : Array Char) (c : Cursor) : Prop :=
  Found (pattern.toList.drop c.pattern) (text.toList.drop c.text) ∨
    ∃ mark reach rest, c.wildcard = some (mark, reach) ∧ rest <:+ text.toList.drop (reach + 1) ∧
      Found (pattern.toList.drop (mark + 1)) rest

/-- What is found behind the last wildcard leads to an end of what is left of the text. -/
theorem Cursor.InStep.exists_suffix (h : c.InStep text pattern)
    (hfinds : c.Finds text pattern) : ∃ rest, rest <:+ text.toList.drop c.text ∧
      Found (pattern.toList.drop c.pattern) rest := by
  rcases hfinds with hfound | ⟨mark, reach, rest, hwildcard, hrest, hfound⟩
  · exact ⟨_, List.suffix_refl _, hfound⟩
  · obtain ⟨seg, part, hseg, hpart, hstep⟩ := h mark reach hwildcard
    rw [hseg] at hfound
    refine Found.exists_suffix_of_takes hstep ?_ hfound
    rw [← hpart]
    exact hrest.trans (List.drop_suffix_drop_left _ (Nat.le_succ reach))

/-- **One step.** A step keeps what is found. -/
theorem Cursor.InStep.finds_step (h : c.InStep text pattern) (hc : c.text < text.size)
    (hs : Wildcard.step text pattern c = some c') :
    c'.Finds text pattern ↔ c.Finds text pattern := by
  have hspec := step_spec pattern hc
  rw [hs] at hspec
  cases hspec with
  | char hpattern htext hp =>
    rw [Finds, Finds, hpattern, htext, Found.char_iff hp]
  | wildcard hpattern hfirst =>
    have hnew : Finds text pattern
        { c with pattern := c.pattern + 1, wildcard := some (c.pattern, c.text) } ↔
          ∃ rest, rest <:+ text.toList.drop c.text ∧
            Found (pattern.toList.drop (c.pattern + 1)) rest := by
      simp [Finds, suffix_drop_iff (i := c.text), or_and_right, exists_or]
    rw [hnew, ← Found.run_iff hfirst, ← hpattern]
    constructor
    · exact .inl
    · intro hfinds
      -- Whatever the wildcard before would still find, the new one finds too.
      obtain ⟨rest, hrest, hfound⟩ := h.exists_suffix hfinds
      rw [hpattern] at hfound ⊢
      obtain ⟨rest', hrest', hfound⟩ := hfound.exists_suffix
      exact .run hfirst (hrest'.trans hrest) hfound
  | @back mark reach hnot hwildcard =>
    simp only [Finds, hnot, hwildcard, false_or, Option.some.injEq, Prod.mk.injEq]
    constructor
    · rintro (hfound | ⟨_, _, rest, ⟨rfl, rfl⟩, hrest, hfound⟩)
      · exact ⟨mark, reach, _, ⟨rfl, rfl⟩, List.suffix_refl _, hfound⟩
      · exact ⟨mark, reach, rest, ⟨rfl, rfl⟩, suffix_drop_iff.mpr (.inr hrest), hfound⟩
    · rintro ⟨_, _, rest, ⟨rfl, rfl⟩, hrest, hfound⟩
      rcases suffix_drop_iff.mp hrest with rfl | hrest
      · exact .inl hfound
      · exact .inr ⟨mark, reach + 1, rest, ⟨rfl, rfl⟩, hrest, hfound⟩

/-- **The pass.** From a cursor on the pass finds what is there. -/
theorem run_iff (h : c.Valid text pattern) (hstep : c.InStep text pattern) :
    run text pattern c h = true ↔ c.Finds text pattern := by
  fun_induction run text pattern c h with
  | case1 c h hc c' hs ih => exact (ih (hstep.step hc hs)).trans (hstep.finds_step hc hs)
  | case2 c h hc hs =>
    have hspec := step_spec pattern hc
    rw [hs] at hspec
    cases hspec with
    | stop hnot hwildcard => simp [Cursor.Finds, hnot, hwildcard]
  | case3 c h hc =>
    have hend : text.toList.drop c.text = [] :=
      List.drop_eq_nil_of_le (by simpa using Nat.not_lt.mp hc)
    rw [← Found.nil_right_iff]
    constructor
    · intro hfound
      exact .inl (hend ▸ hfound)
    · intro hfinds
      obtain ⟨rest, hrest, hfound⟩ := hstep.exists_suffix hfinds
      rw [hend, List.suffix_nil] at hrest
      exact hrest ▸ hfound

/-! ## Pieces -/

theorem StandsFor.eq_singleton {p : Char} {piece : List Char} (h : StandsFor p piece)
    (hp : p ≠ '%') : ∃ c, piece = [c] := by
  rcases h.resolve_left hp with ⟨-, hlength⟩ | ⟨-, rfl⟩
  · exact List.length_eq_one_iff.mp hlength
  · exact ⟨p, rfl⟩

theorem Like.nil : Like [] [] := ⟨[], .nil, rfl⟩

theorem Like.cons {p : Char} {piece ps cs : List Char} (hp : StandsFor p piece) (h : Like ps cs) :
    Like (p :: ps) (piece ++ cs) := by
  obtain ⟨pieces, hpieces, rfl⟩ := h
  exact ⟨piece :: pieces, .cons hp hpieces, rfl⟩

theorem like_nil_iff {cs : List Char} : Like [] cs ↔ cs = [] := by
  constructor
  · rintro ⟨pieces, hpieces, rfl⟩
    cases hpieces
    rfl
  · rintro rfl
    exact .nil

theorem like_cons_iff {p : Char} {ps cs : List Char} :
    Like (p :: ps) cs ↔ ∃ piece rest, StandsFor p piece ∧ Like ps rest ∧ cs = piece ++ rest := by
  constructor
  · rintro ⟨pieces, hpieces, rfl⟩
    cases hpieces with
    | @cons _ piece _ pieces hp hpieces =>
      exact ⟨piece, pieces.flatten, hp, ⟨pieces, hpieces, rfl⟩, rfl⟩
  · rintro ⟨piece, rest, hp, h, rfl⟩
    exact h.cons hp

theorem Found.like {ps cs : List Char} (h : Found ps cs) : Like ps cs := by
  induction h with
  | nil => exact .nil
  | @char p c ps cs hp _ ih =>
    have hstands : StandsFor p [c] := by
      by_cases hp' : p = '_'
      · exact .inr (.inl ⟨hp', rfl⟩)
      · exact .inr (.inr ⟨hp', by rw [hp.resolve_left hp']⟩)
    exact ih.cons hstands
  | run _ hrest _ ih =>
    obtain ⟨skipped, rfl⟩ := hrest
    exact ih.cons (.inl rfl)

/-- What is like the pattern is found if no two `%` can meet. -/
theorem Like.found {ps cs : List Char} (h : Like ps cs) (hpercent : '%' ∉ cs ∨ '%' ∉ ps) :
    Found ps cs := by
  induction ps generalizing cs with
  | nil =>
    obtain rfl := like_nil_iff.mp h
    exact .nil
  | cons p ps ih =>
    obtain ⟨piece, rest, hp, hrest, rfl⟩ := like_cons_iff.mp h
    have hfound : Found ps rest := by
      refine ih hrest (hpercent.imp ?_ ?_)
      · exact mt (List.mem_append_right piece)
      · exact mt (List.mem_cons_of_mem p)
    rcases hp with rfl | ⟨rfl, hlength⟩ | ⟨hne, rfl⟩
    · have htext : '%' ∉ piece ++ rest := hpercent.resolve_right (by simp)
      exact .run (fun hhead ↦ htext (List.mem_of_head? hhead)) (List.suffix_append _ _) hfound
    · obtain ⟨c, rfl⟩ := List.length_eq_one_iff.mp hlength
      exact .char (.inl rfl) hfound
    · exact .char (.inr rfl) hfound

end Wildcard

/-! ## Texts -/

open Wildcard (Found Like StandsFor)

/-- The characters that are compared where the case of ASCII letters does not matter. -/
def foldedChars (s : String) : List Char := s.toList.map Char.toLower

/-- **In a text.** The pass finds a pattern in a text where it is found in the folded text. -/
theorem wildcardMatch_iff_found (text pattern : String) :
    wildcardMatch text pattern = true ↔ Found (foldedChars pattern) (foldedChars text) := by
  rw [wildcardMatch, Wildcard.run_iff .start (by simp [Wildcard.Cursor.InStep])]
  simp [Wildcard.Cursor.Finds, foldedChars]

theorem toLower_eq_iff {c d : Char} (hd : d.isAlpha = false) : c.toLower = d ↔ c = d := by
  by_cases h : c.val ≥ 'A'.val ∧ c.val ≤ 'Z'.val
  · have hcapitals : ∀ n ∈ List.range' 65 26,
        (Char.ofNat n).isAlpha = true ∧ (Char.ofNat n).toLower.isAlpha = true := by decide
    have hmem : c.toNat ∈ List.range' 65 26 := List.mem_range'_1.mpr ⟨h.1, Nat.lt_succ_of_le h.2⟩
    have hc := hcapitals c.toNat hmem
    rw [Char.ofNat_toNat] at hc
    refine iff_of_false ?_ ?_
    · rintro rfl
      exact Bool.false_ne_true (hd.symm.trans hc.2)
    · rintro rfl
      exact Bool.false_ne_true (hd.symm.trans hc.1)
  · have hsame : c.toLower = c := dif_neg h
    rw [hsame]

theorem mem_foldedChars {s : String} {d : Char} (hd : d.isAlpha = false) :
    d ∈ foldedChars s ↔ d ∈ s.toList := by
  simp [foldedChars, toLower_eq_iff hd]

theorem wildcardMatch_iff_like {text pattern : String}
    (h : '%' ∉ text.toList ∨ '%' ∉ pattern.toList) :
    wildcardMatch text pattern = true ↔ Like (foldedChars pattern) (foldedChars text) := by
  have hpercent : ('%').isAlpha = false := by decide
  rw [wildcardMatch_iff_found]
  constructor
  · exact Found.like
  · intro hlike
    exact hlike.found (h.imp (mt (mem_foldedChars hpercent).mp) (mt (mem_foldedChars hpercent).mp))

/-- **The pass and `LIKE`.** What the pass finds is known for every text and pattern. It is like the
pattern, and whatever is like the pattern is found, unless both the text and the pattern have a
`%`. -/
theorem wildcardMatch_like (text pattern : String) :
    (wildcardMatch text pattern = true ↔ Found (foldedChars pattern) (foldedChars text)) ∧
      (wildcardMatch text pattern = true → Like (foldedChars pattern) (foldedChars text)) ∧
      ('%' ∉ text.toList ∨ '%' ∉ pattern.toList →
        (wildcardMatch text pattern = true ↔ Like (foldedChars pattern) (foldedChars text))) := by
  refine ⟨wildcardMatch_iff_found text pattern, ?_, wildcardMatch_iff_like⟩
  intro h
  exact ((wildcardMatch_iff_found text pattern).mp h).like

/-- In a word without `%` a pattern with two runs is found, the second of which has to give up its
first place. -/
theorem wildcardMatch_like_katalla :
    '%' ∉ "Katalla".toList ∧ wildcardMatch "Katalla" "%TA%la" = true ∧
      Like (foldedChars "%TA%la") (foldedChars "Katalla") := by
  have hpercent : '%' ∉ "Katalla".toList := by decide
  obtain ⟨-, hsound, hiff⟩ := wildcardMatch_like "Katalla" "%TA%la"
  have hlike : Like (foldedChars "%TA%la") (foldedChars "Katalla") := by
    have hletter {p : Char} (hp : p ≠ '_') : StandsFor p [p] := .inr (.inr ⟨hp, rfl⟩)
    refine ⟨[['k', 'a'], ['t'], ['a'], ['l'], ['l'], ['a']], ?_, rfl⟩
    exact .cons (.inl rfl) <| .cons (hletter (by decide)) <| .cons (hletter (by decide)) <|
      .cons (.inl rfl) <| .cons (hletter (by decide)) <| .cons (hletter (by decide)) .nil
  exact ⟨hpercent, (hiff (.inl hpercent)).mpr hlike, hlike⟩

/-- A text that begins with `%` is like `%` as every other text, but the two use each other up and
what is left of the text is not covered. -/
theorem percent_uses_up_percent :
    Like (foldedChars "%") (foldedChars "%a") ∧ wildcardMatch "%a" "%" = false := by
  have hpattern : foldedChars "%" = ['%'] := rfl
  have htext : foldedChars "%a" = ['%', 'a'] := rfl
  rw [← Bool.not_eq_true, wildcardMatch_iff_found, hpattern, htext]
  constructor
  · exact ⟨[['%', 'a']], .cons (.inl rfl) .nil, rfl⟩
  · rw [Found.char_iff (.inr rfl)]
    rintro ⟨⟩

end CorpusQuery

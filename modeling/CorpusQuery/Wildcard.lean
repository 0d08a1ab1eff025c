/-!
# Wildcard patterns

A pattern is matched against a text in one pass with a single point of return: `_` stands for any
character, `%` for any run of characters, and everything else for itself up to ASCII case. A `%`
first takes no character at all; whenever the rest of the pattern fails, the most recent `%` takes
one character more. Earlier ones never have to be reconsidered, because a shorter match of what
stood between them leaves more text for the rest.

A pattern character that equals the text character is consumed as such before it is looked at as a
wildcard, so a `%` in the text can use up a `%` of the pattern.

The pass is a sequence of steps on a cursor. Its measure is lexicographic: the position of the
recorded wildcard, then how much it has taken, then the position in the text.
-/

namespace CorpusQuery.Wildcard

/-- The state of a pass: positions in the text and in the pattern, and the most recent `%` with the
position in the text up to which it reaches. -/
structure Cursor where
  text : Nat := 0
  pattern : Nat := 0
  wildcard : Option (Nat × Nat) := none
deriving DecidableEq, Repr

variable (text pattern : Array Char)

/-- One step from a position inside the text, or a refusal. -/
def step (c : Cursor) : Option Cursor :=
  if pattern[c.pattern]? = some '_'
      ∨ pattern[c.pattern]?.isSome ∧ pattern[c.pattern]? = text[c.text]? then
    some { c with text := c.text + 1, pattern := c.pattern + 1 }
  else if pattern[c.pattern]? = some '%' then
    some { c with pattern := c.pattern + 1, wildcard := some (c.pattern, c.text) }
  else match c.wildcard with
    | some (mark, reach) =>
      some { text := reach + 1, pattern := mark + 1, wildcard := some (mark, reach + 1) }
    | none => none

/-! ## Termination -/

/-- What holds of every cursor of a pass: it is in range, and its wildcard is a `%` before the
pattern position that reaches no further than the text position. -/
structure Cursor.Valid (c : Cursor) : Prop where
  text_le : c.text ≤ text.size
  pattern_le : c.pattern ≤ pattern.size
  wildcard_spec : ∀ mark reach, c.wildcard = some (mark, reach) →
    pattern[mark]? = some '%' ∧ mark < c.pattern ∧ reach ≤ c.text

variable {text pattern}

theorem Cursor.Valid.start : Cursor.Valid text pattern {} :=
  ⟨Nat.zero_le _, Nat.zero_le _, by simp⟩

theorem Cursor.Valid.step {c c' : Cursor} (h : c.Valid text pattern) (hc : c.text < text.size)
    (hs : step text pattern c = some c') : c'.Valid text pattern := by
  unfold Wildcard.step at hs
  split at hs
  · next hm =>
    obtain rfl := Option.some.inj hs
    have hp : c.pattern < pattern.size := by
      rcases hm with hm | ⟨hm, -⟩
      · exact (Array.getElem?_eq_some_iff.1 hm).1
      · simpa using hm
    exact ⟨hc, hp, fun mark reach hw ↦
      have ⟨h₁, h₂, h₃⟩ := h.wildcard_spec mark reach hw
      ⟨h₁, Nat.lt_succ_of_lt h₂, Nat.le_succ_of_le h₃⟩⟩
  · split at hs
    · next hm =>
      obtain rfl := Option.some.inj hs
      have hp : c.pattern < pattern.size := (Array.getElem?_eq_some_iff.1 hm).1
      refine ⟨h.text_le, hp, fun mark reach hw ↦ ?_⟩
      obtain ⟨rfl, rfl⟩ := Prod.mk.inj (Option.some.inj hw)
      exact ⟨hm, Nat.lt_succ_self _, Nat.le_refl _⟩
    · split at hs
      · next mark reach hw =>
        obtain rfl := Option.some.inj hs
        obtain ⟨h₁, h₂, h₃⟩ := h.wildcard_spec mark reach hw
        refine ⟨by simp; omega, by have := h.pattern_le; simp; omega, fun mark' reach' hw' ↦ ?_⟩
        obtain ⟨rfl, rfl⟩ := Prod.mk.inj (Option.some.inj hw')
        exact ⟨h₁, Nat.lt_succ_self _, Nat.le_refl _⟩
      · simp at hs

variable (text pattern)

/-- The measure of a cursor: the pattern behind its wildcard, the text behind its reach, and the
text behind its position. -/
def Cursor.rank (c : Cursor) : Nat × Nat × Nat :=
  match c.wildcard with
  | some (mark, reach) => (pattern.size - mark, text.size - reach, text.size - c.text)
  | none => (pattern.size + 1, 0, text.size - c.text)

variable {text pattern}

theorem Cursor.Valid.rank_step_lt {c c' : Cursor} (h : c.Valid text pattern)
    (hc : c.text < text.size) (hs : Wildcard.step text pattern c = some c') :
    Prod.Lex (· < ·) (Prod.Lex (· < ·) (· < ·)) (c'.rank text pattern) (c.rank text pattern) := by
  have hw := h.wildcard_spec
  unfold Wildcard.step at hs
  rcases c with ⟨t, p, _ | ⟨mark, reach⟩⟩ <;> simp only [Cursor.rank] at hc hw hs ⊢
  · split at hs
    · obtain rfl := Option.some.inj hs
      exact .right _ (.right _ (Nat.sub_succ_lt_self _ _ hc))
    · split at hs
      · next hm =>
        obtain rfl := Option.some.inj hs
        have hp : p < pattern.size := (Array.getElem?_eq_some_iff.1 hm).1
        exact .left _ _ (by omega)
      · simp at hs
  · obtain ⟨-, hmark, hreach⟩ := hw mark reach rfl
    split at hs
    · obtain rfl := Option.some.inj hs
      exact .right _ (.right _ (Nat.sub_succ_lt_self _ _ hc))
    · split at hs
      · next hm =>
        obtain rfl := Option.some.inj hs
        have hp : p < pattern.size := (Array.getElem?_eq_some_iff.1 hm).1
        exact .left _ _ (by omega)
      · obtain rfl := Option.some.inj hs
        exact .right _ (.left _ _ (by omega))

/-! ## Matching -/

variable (text pattern) in
/-- Runs the pass to the end of the text; what is left of the pattern then has to be `%` only. -/
def run (c : Cursor) (h : c.Valid text pattern) : Bool :=
  if hc : c.text < text.size then
    match hs : step text pattern c with
    | some c' => run c' (h.step hc hs)
    | none => false
  else (pattern.toList.drop c.pattern).all (· == '%')
termination_by c.rank text pattern
decreasing_by exact h.rank_step_lt hc hs

end CorpusQuery.Wildcard

namespace CorpusQuery

/-- Whether a text matches a pattern. -/
def wildcardMatch (text pattern : String) : Bool :=
  Wildcard.run (text.toList.map Char.toLower).toArray (pattern.toList.map Char.toLower).toArray {}
    .start

end CorpusQuery

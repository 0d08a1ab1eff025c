/-!
# Patterns in statements

Both kinds of patterns are sequences of parts, each of which takes one character of a class or any
run of characters; they differ in how they are written. `LIKE` has `%` and `_` and does not tell the
case of ASCII letters; `GLOB` has `*`, `?` and classes in brackets and tells it.

In a class a closing bracket in front stands for itself, a hyphen between two characters makes a
range, and `^` in front of all stands for the opposite. A class without an end takes no character.
-/

namespace CorpusQuery.Sql

/-- A range of characters by code point. -/
structure CharRange where
  first : Char
  last : Char
deriving DecidableEq, Repr

def CharRange.holds (r : CharRange) (c : Char) : Bool := r.first ≤ c && c ≤ r.last

/-- A part of a pattern. -/
inductive PatternPart where
  /-- Any run of characters, an empty one too. -/
  | run
  /-- Any one character. -/
  | any
  /-- This character. -/
  | exactly (c : Char)
  /-- This character up to ASCII case. -/
  | folded (c : Char)
  /-- A character inside one of the ranges, or inside none of them. -/
  | oneOf (negated : Bool) (ranges : List CharRange)
  /-- No character at all. -/
  | never
deriving DecidableEq, Repr

/-- Whether a part takes a character. -/
def PatternPart.takes : PatternPart → Char → Bool
  | run, _ => false
  | any, _ => true
  | exactly d, c => c == d
  | folded d, c => c.toLower == d.toLower
  | oneOf negated ranges, c => ranges.any (·.holds c) != negated
  | never, _ => false

/-- A pattern. -/
abbrev Pattern := List PatternPart

namespace Pattern

/-! ## Matching -/

/-- Whether some end of a text passes a test. -/
def anyEnd (test : List Char → Bool) : List Char → Bool
  | [] => test []
  | c :: cs => test (c :: cs) || anyEnd test cs

/-- Whether a pattern covers a text. -/
def covers : Pattern → List Char → Bool
  | [], cs => cs.isEmpty
  | .run :: parts, cs => anyEnd (covers parts) cs
  | _ :: _, [] => false
  | part :: parts, c :: cs => part.takes c && covers parts cs

/-! ## Reading patterns -/

/-- A pattern as `LIKE` writes it. -/
def ofLike (pattern : List Char) : Pattern :=
  pattern.map fun c ↦ if c == '%' then .run else if c == '_' then .any else .folded c

/-- The rest of a class; `before` is the character that a hyphen would make a range from. -/
def readClass (before : Option Char) : List Char → Option (List CharRange × List Char)
  | [] => none
  | ']' :: cs => some ([], cs)
  | '-' :: c :: cs =>
    match before with
    | some b =>
      if c == ']' then some ([⟨'-', '-'⟩], cs)
      else (readClass none cs).map fun (ranges, rest) ↦ (⟨b, c⟩ :: ranges, rest)
    | none => (readClass (some '-') (c :: cs)).map fun (ranges, rest) ↦ (⟨'-', '-'⟩ :: ranges, rest)
  | c :: cs => (readClass (some c) cs).map fun (ranges, rest) ↦ (⟨c, c⟩ :: ranges, rest)

/-- A class from its first character on, which may be a closing bracket. -/
def readRanges : List Char → Option (List CharRange × List Char)
  | ']' :: cs => (readClass none cs).map fun (ranges, rest) ↦ (⟨']', ']'⟩ :: ranges, rest)
  | cs => readClass none cs

/-- What stands behind an opening bracket. -/
def readBracket : List Char → Option (PatternPart × List Char)
  | '^' :: cs => (readRanges cs).map fun (ranges, rest) ↦ (.oneOf true ranges, rest)
  | cs => (readRanges cs).map fun (ranges, rest) ↦ (.oneOf false ranges, rest)

theorem length_readClass {before : Option Char} {cs : List Char}
    {r : List CharRange × List Char} (h : readClass before cs = some r) :
    r.2.length < cs.length := by
  fun_induction readClass before cs generalizing r with
  | case1 => simp at h
  | case2 => simp_all [← Option.some.inj h]
  | case3 =>
    obtain rfl := Option.some.inj h
    simp only [List.length_cons]
    omega
  | case4 c cs b hc ih =>
    obtain ⟨q, hq, rfl⟩ := Option.map_eq_some_iff.1 h
    have := ih hq
    simp only [List.length_cons]
    omega
  | case5 c cs ih =>
    obtain ⟨q, hq, rfl⟩ := Option.map_eq_some_iff.1 h
    have := ih hq
    simp only [List.length_cons] at this ⊢
    omega
  | case6 b c cs h₀ h₁ ih =>
    obtain ⟨q, hq, rfl⟩ := Option.map_eq_some_iff.1 h
    have := ih hq
    simp only [List.length_cons]
    omega

theorem length_readRanges {cs : List Char} {r : List CharRange × List Char}
    (h : readRanges cs = some r) : r.2.length < cs.length := by
  unfold readRanges at h
  split at h
  · obtain ⟨q, hq, rfl⟩ := Option.map_eq_some_iff.1 h
    have := length_readClass hq
    simp only [List.length_cons]
    omega
  · exact length_readClass h

theorem length_readBracket {cs : List Char} {r : PatternPart × List Char}
    (h : readBracket cs = some r) : r.2.length < cs.length := by
  unfold readBracket at h
  split at h <;>
  · obtain ⟨q, hq, rfl⟩ := Option.map_eq_some_iff.1 h
    have := length_readRanges hq
    simp only [List.length_cons]
    omega

/-- A pattern as `GLOB` writes it. -/
def ofGlob (pattern : List Char) : Pattern :=
  match pattern with
  | [] => []
  | '*' :: cs => .run :: ofGlob cs
  | '?' :: cs => .any :: ofGlob cs
  | '[' :: cs =>
    match h : readBracket cs with
    | some (part, rest) =>
      have : rest.length < cs.length := length_readBracket h
      part :: ofGlob rest
    | none => [.never]
  | c :: cs => .exactly c :: ofGlob cs
termination_by pattern.length

/-! ## Lemmas -/

theorem anyEnd_iff {test : List Char → Bool} {cs : List Char} :
    anyEnd test cs = true ↔ ∃ rest, rest <:+ cs ∧ test rest = true := by
  induction cs with
  | nil => simp [anyEnd]
  | cons c cs ih =>
    rw [anyEnd, Bool.or_eq_true, ih]
    constructor
    · rintro (h | ⟨rest, hr, ht⟩)
      · exact ⟨c :: cs, List.suffix_refl _, h⟩
      · exact ⟨rest, hr.trans (List.suffix_cons c cs), ht⟩
    · rintro ⟨rest, hr, ht⟩
      rcases List.suffix_cons_iff.1 hr with rfl | hr
      · exact .inl ht
      · exact .inr ⟨rest, hr, ht⟩

end Pattern

end CorpusQuery.Sql

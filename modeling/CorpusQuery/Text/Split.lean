/-!
# Parts of a text

Prefix, suffix and infix tests and splitting, all on lists of characters.
-/

namespace CorpusQuery.Text

/-- Whether `part` occurs somewhere in `cs`. -/
def isInfix (part : List Char) : List Char → Bool
  | [] => part.isEmpty
  | c :: cs => part.isPrefixOf (c :: cs) || isInfix part cs

/-- Whether the text starts with `part`. -/
def startsWith (s part : String) : Bool := part.toList.isPrefixOf s.toList

/-- What stands behind `part`, if `cs` starts with it. -/
def dropPrefix? (part cs : List Char) : Option (List Char) :=
  if part.isPrefixOf cs then some (cs.drop part.length) else none

/-- Whether the text ends with `part`. -/
def endsWith (s part : String) : Bool := part.toList.isSuffixOf s.toList

/-- Whether `part` occurs in the text. -/
def contains (s part : String) : Bool := isInfix part.toList s.toList

/-- Whether the character occurs in the text. -/
def hasChar (s : String) (c : Char) : Bool := s.toList.contains c

/-- The text without a character. -/
def without (s : String) (c : Char) : String := .ofList (s.toList.filter (· != c))

/-- The text with every occurrence of a character replaced by a text. -/
def substitute (s : String) (c : Char) (by' : String) : String :=
  .ofList (s.toList.flatMap fun d ↦ if d == c then by'.toList else [d])

/-- The pieces between the separators; one more than there are separators. -/
def splitOn (sep : Char) : List Char → List (List Char)
  | [] => [[]]
  | c :: cs =>
    if c == sep then [] :: splitOn sep cs
    else match splitOn sep cs with
      | [] => [[c]]
      | piece :: pieces => (c :: piece) :: pieces

/-! ## Lemmas -/

theorem isInfix_iff {part cs : List Char} : isInfix part cs = true ↔ part <:+: cs := by
  induction cs with
  | nil => simp [isInfix, List.isEmpty_iff]
  | cons c cs ih =>
    rw [isInfix, Bool.or_eq_true, List.isPrefixOf_iff_prefix, ih, List.infix_cons_iff]

theorem dropPrefix?_eq_some_iff {part cs rest : List Char} :
    dropPrefix? part cs = some rest ↔ cs = part ++ rest := by
  unfold dropPrefix?
  split
  · next h =>
    obtain ⟨tail, rfl⟩ := List.isPrefixOf_iff_prefix.1 h
    simp
  · next h =>
    simp only [reduceCtorEq, false_iff]
    rintro rfl
    exact h (List.isPrefixOf_iff_prefix.2 (List.prefix_append _ _))

end CorpusQuery.Text

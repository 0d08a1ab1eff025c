import CorpusQuery.Glob
import CorpusQuery.Sql.Pattern

/-!
# What escaped patterns match

Positional conditions are `GLOB` patterns made from a text of the user. Escaping is right if reading
the pattern back gives one part for every character of the text, a part that takes this character
and no other, whatever stands behind it. From there on matching is about lists of characters: a
pattern that goes on with anything matches by prefix, one that starts with anything by suffix, and
one between two runs by infix.
-/

namespace CorpusQuery.Sql.Pattern

/-! ## Reading escaped characters -/

/-- The part that an escaped character is read as. -/
def literal (c : Char) : PatternPart :=
  if c == '*' || c == '?' || c == '[' then .oneOf false [⟨c, c⟩] else .exactly c

theorem takes_literal (c d : Char) : (literal c).takes d = (d == c) := by
  rw [literal]
  split
  · have hrange : (CharRange.mk c c).holds d = (d == c) := by
      rw [Bool.eq_iff_iff, CharRange.holds, Bool.and_eq_true, decide_eq_true_iff,
        decide_eq_true_iff, beq_iff_eq]
      constructor
      · rintro ⟨hle, hge⟩
        exact Char.le_antisymm hge hle
      · rintro rfl
        exact ⟨Char.le_refl d, Char.le_refl d⟩
    rw [PatternPart.takes, List.any_cons, hrange]
    simp
  · rfl

theorem readBracket_wildcard {c : Char} (h : c = '*' ∨ c = '?' ∨ c = '[') (rest : List Char) :
    readBracket (c :: ']' :: rest) = some (.oneOf false [⟨c, c⟩], rest) := by
  rcases h with rfl | rfl | rfl <;> rfl

theorem ofGlob_bracket {cs rest : List Char} {part : PatternPart}
    (h : readBracket cs = some (part, rest)) : ofGlob ('[' :: cs) = part :: ofGlob rest := by
  rw [ofGlob.eq_def]
  simp only
  split
  · next found hfound =>
    rw [h] at hfound
    obtain ⟨rfl, rfl⟩ := Prod.mk.inj (Option.some.inj hfound)
    rfl
  · next hnone =>
    rw [h] at hnone
    cases hnone

theorem ofGlob_exactly {c : Char} (h : ¬(c = '*' ∨ c = '?' ∨ c = '[')) (cs : List Char) :
    ofGlob (c :: cs) = .exactly c :: ofGlob cs := by
  rw [not_or, not_or] at h
  rw [ofGlob.eq_def]
  split
  · next heq => cases heq
  · next heq => exact absurd (List.cons.inj heq).1 h.1
  · next heq => exact absurd (List.cons.inj heq).1 h.2.1
  · next heq => exact absurd (List.cons.inj heq).1 h.2.2
  · next heq =>
    obtain ⟨rfl, rfl⟩ := List.cons.inj heq
    rfl

theorem ofGlob_escapeChar (c : Char) (rest : List Char) :
    ofGlob (Glob.escapeChar c ++ rest) = literal c :: ofGlob rest := by
  have hspecial : (c == '*' || c == '?' || c == '[') = true ↔ c = '*' ∨ c = '?' ∨ c = '[' := by
    simp [or_assoc]
  rw [Glob.escapeChar, literal]
  -- A wildcard is read back from its brackets, any other character is read as it is.
  by_cases h : c = '*' ∨ c = '?' ∨ c = '['
  · rw [if_pos (hspecial.mpr h), if_pos (hspecial.mpr h)]
    exact ofGlob_bracket (readBracket_wildcard h rest)
  · rw [if_neg (mt hspecial.mp h), if_neg (mt hspecial.mp h)]
    exact ofGlob_exactly h rest

/-- **Escaping is right.** An escaped text is read as one part per character, whatever stands behind
it. -/
theorem ofGlob_escape (s : String) (rest : List Char) :
    ofGlob ((Glob.escape s).toList ++ rest) = s.toList.map literal ++ ofGlob rest := by
  rw [Glob.escape, String.toList_ofList]
  induction s.toList with
  | nil => rfl
  | cons c cs ih =>
    rw [List.flatMap_cons, List.append_assoc, ofGlob_escapeChar, ih, List.map_cons,
      List.cons_append]

theorem ofGlob_star (cs : List Char) : ofGlob ('*' :: cs) = .run :: ofGlob cs := by
  rw [ofGlob.eq_def]
  rfl

theorem ofGlob_nil : ofGlob [] = [] := by
  rw [ofGlob.eq_def]

/-! ## Matching -/

theorem covers_literal_cons (c : Char) (p : Pattern) (cs : List Char) :
    covers (literal c :: p) cs = true ↔ ∃ rest, cs = c :: rest ∧ covers p rest = true := by
  have htakes := takes_literal c
  cases cs with
  | nil =>
    have hempty : covers (literal c :: p) [] = false := by
      rw [literal]
      split <;> rfl
    rw [hempty]
    simp
  | cons d cs =>
    have hcons : covers (literal c :: p) (d :: cs) = ((literal c).takes d && covers p cs) := by
      rw [literal]
      split <;> rfl
    rw [hcons, htakes, Bool.and_eq_true, beq_iff_eq]
    constructor
    · rintro ⟨rfl, h⟩
      exact ⟨cs, rfl, h⟩
    · rintro ⟨rest, heq, h⟩
      obtain ⟨rfl, rfl⟩ := List.cons.inj heq
      exact ⟨rfl, h⟩

theorem covers_literals_append (part : List Char) (p : Pattern) (cs : List Char) :
    covers (part.map literal ++ p) cs = true
      ↔ ∃ rest, cs = part ++ rest ∧ covers p rest = true := by
  induction part generalizing cs with
  | nil =>
    constructor
    · intro h
      exact ⟨cs, rfl, h⟩
    · rintro ⟨rest, rfl, h⟩
      exact h
  | cons c part ih =>
    rw [List.map_cons, List.cons_append, covers_literal_cons]
    constructor
    · rintro ⟨rest, rfl, h⟩
      obtain ⟨tail, rfl, htail⟩ := (ih rest).mp h
      exact ⟨tail, rfl, htail⟩
    · rintro ⟨tail, rfl, h⟩
      exact ⟨part ++ tail, rfl, (ih _).mpr ⟨tail, rfl, h⟩⟩

theorem covers_nil (cs : List Char) : covers [] cs = true ↔ cs = [] := by
  rw [covers, List.isEmpty_iff]

theorem covers_run_cons (p : Pattern) (cs : List Char) :
    covers (.run :: p) cs = true ↔ ∃ rest, rest <:+ cs ∧ covers p rest = true := by
  rw [covers]
  exact anyEnd_iff

theorem covers_run (cs : List Char) : covers [.run] cs = true :=
  (covers_run_cons [] cs).mpr ⟨[], List.nil_suffix, rfl⟩

/-! ## The three patterns -/

theorem covers_startingWith (s : String) (cs : List Char) :
    (ofGlob (Glob.startingWith s).toList).covers cs = s.toList.isPrefixOf cs := by
  have hread : ofGlob (Glob.startingWith s).toList = s.toList.map literal ++ [.run] := by
    rw [Glob.startingWith, String.toList_append, ofGlob_escape]
    exact congrArg (_ ++ ·) ((ofGlob_star []).trans (congrArg _ ofGlob_nil))
  rw [hread, Bool.eq_iff_iff, covers_literals_append, List.isPrefixOf_iff_prefix]
  constructor
  · rintro ⟨rest, rfl, -⟩
    exact List.prefix_append _ rest
  · rintro ⟨rest, rfl⟩
    exact ⟨rest, rfl, covers_run rest⟩

theorem covers_endingWith (s : String) (cs : List Char) :
    (ofGlob (Glob.endingWith s).toList).covers cs = s.toList.isSuffixOf cs := by
  have hread : ofGlob (Glob.endingWith s).toList = .run :: (s.toList.map literal ++ []) := by
    rw [Glob.endingWith, String.toList_append]
    refine (ofGlob_star (Glob.escape s).toList).trans (congrArg _ ?_)
    rw [← ofGlob_nil, ← ofGlob_escape, List.append_nil]
  rw [hread, Bool.eq_iff_iff, covers_run_cons, List.isSuffixOf_iff_suffix]
  constructor
  · rintro ⟨rest, hsuffix, h⟩
    obtain ⟨tail, rfl, htail⟩ := (covers_literals_append _ _ _).mp h
    obtain rfl := (covers_nil tail).mp htail
    rwa [List.append_nil] at hsuffix
  · intro hsuffix
    refine ⟨s.toList, hsuffix, (covers_literals_append _ _ _).mpr ⟨[], ?_, rfl⟩⟩
    rw [List.append_nil]

theorem covers_containing (s : String) (cs : List Char) :
    (ofGlob (Glob.containing s).toList).covers cs = Text.isInfix s.toList cs := by
  have hread : ofGlob (Glob.containing s).toList = .run :: (s.toList.map literal ++ [.run]) := by
    rw [Glob.containing, String.toList_append, String.toList_append, List.append_assoc]
    refine (ofGlob_star _).trans (congrArg _ ?_)
    refine (ofGlob_escape s _).trans (congrArg (_ ++ ·) ?_)
    exact (ofGlob_star []).trans (congrArg _ ofGlob_nil)
  rw [hread, Bool.eq_iff_iff, covers_run_cons, Text.isInfix_iff]
  constructor
  · rintro ⟨rest, ⟨before, rfl⟩, h⟩
    obtain ⟨tail, rfl, -⟩ := (covers_literals_append _ _ _).mp h
    refine ⟨before, tail, ?_⟩
    rw [List.append_assoc]
  · rintro ⟨before, tail, rfl⟩
    refine ⟨s.toList ++ tail, ⟨before, ?_⟩, ?_⟩
    · rw [List.append_assoc]
    · exact (covers_literals_append _ _ _).mpr ⟨tail, rfl, covers_run tail⟩

theorem covers_startingWith_reversed (s : String) (cs : List Char) :
    (ofGlob (Glob.startingWith (Glob.reversed s)).toList).covers cs.reverse
      = s.toList.isSuffixOf cs := by
  rw [covers_startingWith, Glob.reversed, String.toList_ofList, Bool.eq_iff_iff,
    List.isPrefixOf_iff_prefix, List.isSuffixOf_iff_suffix, List.reverse_prefix]

end CorpusQuery.Sql.Pattern

import CorpusQuery.Proofs.Catalog.Layout
import CorpusQuery.Sql.Select
import Mathlib.Data.List.Forall2

/-!
# Letter case of identifiers

A database reads the identifiers of a statement without regard to the case of their letters. Two
statements that select the same columns in different spellings are therefore the same to it, and
their texts are the same once all letters are small: quotes are put around a name, or not, whatever
the case of its letters is.

## Main statements

* `Sql.asciiLower_quote`: an identifier is quoted alike in all spellings.
* `Sql.Select.sameLetters_lower`: the text of a statement with its selected columns in small
  letters.
-/

namespace CorpusQuery

namespace Text

theorem asciiLower_append (s t : String) : asciiLower (s ++ t) = asciiLower s ++ asciiLower t := by
  rw [asciiLower, String.toList_append, List.map_append, String.ofList_append]
  rfl

theorem sort_toLower (c : Char) : c.toLower.isAlpha = c.isAlpha ∧ c.toLower.isDigit = c.isDigit ∧
    (c.toLower == '_') = (c == '_') ∧ (c.toLower == '"') = (c == '"') := by
  by_cases h : c.val ≥ 'A'.val ∧ c.val ≤ 'Z'.val
  · have hcapitals : ∀ n ∈ List.range' 65 26, let c := Char.ofNat n
        c.toLower.isAlpha = c.isAlpha ∧ c.toLower.isDigit = c.isDigit ∧
          (c.toLower == '_') = (c == '_') ∧ (c.toLower == '"') = (c == '"') := by decide
    have hmem : c.toNat ∈ List.range' 65 26 := List.mem_range'_1.mpr ⟨h.1, Nat.lt_succ_of_le h.2⟩
    have hc := hcapitals c.toNat hmem
    rwa [Char.ofNat_toNat] at hc
  · have hsame : c.toLower = c := dif_neg h
    rw [hsame]
    exact ⟨rfl, rfl, rfl, rfl⟩

theorem asciiLower_substitute_quote (name : String) :
    asciiLower (substitute name '"' "\"\"") = substitute (asciiLower name) '"' "\"\"" := by
  rw [substitute, substitute, asciiLower, asciiLower, String.toList_ofList, String.toList_ofList,
    String.toList_ofList, List.map_flatMap, List.flatMap_map]
  refine congrArg (fun f ↦ String.ofList (name.toList.flatMap f)) (funext fun c ↦ ?_)
  rw [(sort_toLower c).2.2.2]
  split
  · rfl
  · rfl

end Text

namespace Sql

theorem isPlain_asciiLower (name : String) : isPlain (Text.asciiLower name) = isPlain name := by
  have hstart (c : Char) : isWordStart c.toLower = isWordStart c := by
    obtain ⟨halpha, -, hline, -⟩ := Text.sort_toLower c
    rw [isWordStart, isWordStart, halpha, hline]
  have hpart (c : Char) : isWordPart c.toLower = isWordPart c := by
    obtain ⟨halpha, hdigit, hline, -⟩ := Text.sort_toLower c
    rw [isWordPart, isWordPart, Char.isAlphanum, Char.isAlphanum, halpha, hdigit, hline]
  have hparts (cs : List Char) : (cs.map Char.toLower).all isWordPart = cs.all isWordPart := by
    rw [List.all_map]
    exact congrArg cs.all (funext hpart)
  rw [isPlain, isPlain, Text.asciiLower, String.toList_ofList]
  rcases name.toList with _ | ⟨c, cs⟩
  · rfl
  · change (isWordStart c.toLower && ((c :: cs).map Char.toLower).all isWordPart) = _
    rw [hstart, hparts]

/-- **Identifiers.** An identifier is quoted alike in all spellings. -/
theorem asciiLower_quote (name : String) :
    Text.asciiLower (quote name) = quote (Text.asciiLower name) := by
  rw [quote, quote, isPlain_asciiLower]
  split
  · rfl
  · rw [Text.asciiLower_append, Text.asciiLower_append, Text.asciiLower_substitute_quote]
    rfl

/-! ## Selected columns in small letters -/

/-- A column in small letters; other expressions stay. -/
def Expr.lowerColumn : Expr → Expr
  | .column qualifier name => .column (qualifier.map Text.asciiLower) (Text.asciiLower name)
  | e => e

theorem Expr.lowerColumn_of (aliasName name : String) : (Expr.of aliasName name).lowerColumn
    = .of (Text.asciiLower aliasName) (Text.asciiLower name) := rfl

/-- The selected column and its name in small letters. -/
def SelectItem.lower (i : SelectItem) : SelectItem where
  expr := i.expr.lowerColumn
  aliasName := i.aliasName.map Text.asciiLower

/-- The statement with its selected columns in small letters. -/
def Select.lower (s : Select) : Select := { s with items := s.items.map (·.lower) }

/-! ## Texts in small letters -/

/-- Two fragments have the same text but for letter case. -/
def Fragment.SameLetters (f g : Fragment) : Prop := Text.asciiLower f.sql = Text.asciiLower g.sql

namespace Fragment.SameLetters

variable {f f' g g' : Fragment}

theorem refl (f : Fragment) : f.SameLetters f := rfl

theorem append (hf : f.SameLetters f') (hg : g.SameLetters g') :
    (f ++ g).SameLetters (f' ++ g') := by
  rw [SameLetters, sql_append, sql_append, Text.asciiLower_append, Text.asciiLower_append, hf, hg]

theorem commas {fs gs : List Fragment} (h : List.Forall₂ SameLetters fs gs) :
    (Fragment.commas fs).SameLetters (Fragment.commas gs) := by
  induction h with
  | nil => exact refl _
  | @cons f g fs gs hfirst hrest ih =>
    rcases hrest with _ | ⟨hnext, hrest⟩
    · exact hfirst
    · exact (hfirst.append (refl _)).append ih

theorem name (s : String) : (Fragment.name s).SameLetters (Fragment.name (Text.asciiLower s)) := by
  have hsql (s : String) : (Fragment.name s).sql = quote s := by
    simp [Fragment.name, Fragment.text, sql, Piece.sql]
  rw [SameLetters, hsql, hsql, asciiLower_quote, asciiLower_quote, Text.asciiLower_asciiLower]

theorem column (qualifier : Option String) (name : String) :
    SameLetters [.column ⟨qualifier, name⟩]
      [.column ⟨qualifier.map Text.asciiLower, Text.asciiLower name⟩] := by
  have hsql (p : Piece) : sql [p] = p.sql := by simp [sql]
  rw [SameLetters, hsql, hsql]
  rcases qualifier with _ | qualifier
  · rw [Option.map_none, Piece.sql, Piece.sql, asciiLower_quote, asciiLower_quote,
      Text.asciiLower_asciiLower]
  · rw [Option.map_some, Piece.sql, Piece.sql]
    simp only [Text.asciiLower_append, asciiLower_quote, Text.asciiLower_asciiLower]

end Fragment.SameLetters

theorem SelectItem.sameLetters_lower (i : SelectItem) :
    i.fragment.SameLetters i.lower.fragment := by
  obtain ⟨e, aliasName⟩ := i
  refine .append ?_ ?_
  · cases e with
    | column qualifier name =>
      rw [lower, Expr.lowerColumn, Expr.fragment, Expr.fragment]
      exact .column qualifier name
    | value v => exact .refl _
    | binary l op r => exact .refl _
    | inList e items negated => exact .refl _
    | call function args => exact .refl _
    | not e => exact .refl _
    | group e => exact .refl _
  · rcases aliasName with _ | aliasName
    · exact .refl _
    · exact .append (.refl _) (.name aliasName)

/-- **Selected columns.** The text of a statement is the same with its selected columns in small
letters, but for letter case. -/
theorem Select.sameLetters_lower (s : Select) : s.fragment.SameLetters s.lower.fragment := by
  have hitems : s.itemsFragment.SameLetters s.lower.itemsFragment := by
    rw [itemsFragment, itemsFragment, lower, List.map_map]
    refine .commas ?_
    rw [List.forall₂_map_left_iff, List.forall₂_map_right_iff]
    exact List.forall₂_same.mpr fun i _ ↦ i.sameLetters_lower
  exact ((((((Fragment.SameLetters.refl s.head).append hitems).append (.refl s.fromPart)).append
    (.refl s.conditionPart)).append (.refl s.orderPart)).append (.refl s.limitPart))

end Sql

end CorpusQuery

import CorpusQuery.Text.CaseTable
import CorpusQuery.Text.CaseContext

/-!
# Letter case

Names are compared without regard to ASCII case, while values are folded with the full case
mappings: a mapping may lengthen the text, as `ß` becomes `SS`. Values are mapped character by
character; only column names, which are folded as whole words, take the final form of sigma.
-/

namespace CorpusQuery.Text

/-! ## ASCII case -/

/-- Lowers the ASCII letters and leaves everything else alone. -/
def asciiLower (s : String) : String := .ofList (s.toList.map Char.toLower)

/-- Whether two texts agree up to the case of ASCII letters. -/
def sameIgnoringCase (a b : String) : Bool := asciiLower a == asciiLower b

/-! ## Full case mappings -/

/-- Applies the first run that covers the character, if any does. -/
def mapByRuns (runs : List CaseRun) (c : Char) : Char :=
  match runs.find? (·.covers c.toNat) with
  | some run => Char.ofNat (run.image c.toNat)
  | none => c

/-- The capital form of a character, possibly several characters long. -/
def upperChar (c : Char) : List Char :=
  if c.toNat < 0x80 then [c.toUpper]
  else match upperExpansions.lookup c.toNat with
    | some expansion => expansion.map Char.ofNat
    | none => [mapByRuns upperRuns c]

/-- The small form of a character. Only the dotted capital I takes two characters. -/
def lowerChar (c : Char) : List Char :=
  if c.toNat < 0x80 then [c.toLower]
  else if c.toNat == 0x130 then ['i', '\u0307']
  else [mapByRuns lowerRuns c]

/-- Every character in its capital form. -/
def upper (s : String) : String := .ofList (s.toList.flatMap upperChar)

/-- The first character in its capital form and the rest in small form. A lone `_` stays, since it
is a placeholder. -/
def titleCase (s : String) : String :=
  match s.toList with
  | ['_'] => s
  | [] => s
  | c :: cs => .ofList (upperChar c ++ cs.flatMap lowerChar)

/-! ## Small form of a whole word -/

/-- Lowers a text whose characters before it are `before`, nearest first. A capital sigma that ends
a word takes its final form. -/
def lowerAfter (before : List Char) : List Char → List Char
  | [] => []
  | c :: cs =>
    (if c == 'Σ' then
      [if startsCased before && !startsCased cs then 'ς' else 'σ']
    else lowerChar c) ++ lowerAfter (c :: before) cs

/-- The small form of a whole text. -/
def lower (s : String) : String := .ofList (lowerAfter [] s.toList)

end CorpusQuery.Text

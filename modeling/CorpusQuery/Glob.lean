import CorpusQuery.Text.Split

/-!
# Glob patterns

A text becomes a glob pattern for itself by putting its wildcard characters into classes of one
character. A closing bracket needs none, since it is special only inside a class.
-/

namespace CorpusQuery.Glob

/-- The pattern for one character. -/
def escapeChar (c : Char) : List Char :=
  if c == '*' || c == '?' || c == '[' then ['[', c, ']'] else [c]

/-- The pattern that only the text itself matches. -/
def escape (s : String) : String := .ofList (s.toList.flatMap escapeChar)

/-- The pattern of the texts that start with a text. -/
def startingWith (s : String) : String := escape s ++ "*"

/-- The pattern of the texts that end with a text. -/
def endingWith (s : String) : String := "*" ++ escape s

/-- The pattern of the texts that contain a text. -/
def containing (s : String) : String := "*" ++ escape s ++ "*"

/-- The characters of a text from last to first. -/
def reversed (s : String) : String := .ofList s.toList.reverse

end CorpusQuery.Glob

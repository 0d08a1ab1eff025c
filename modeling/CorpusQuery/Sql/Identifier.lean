import CorpusQuery.Text.Split

/-!
# Identifiers in statements

A plain word stands for itself. Any other name is put in double quotes, with the quotes inside
doubled, so a column can have whatever name a feature has.
-/

namespace CorpusQuery.Sql

/-- Whether a character can start a plain word. -/
def isWordStart (c : Char) : Bool := c.isAlpha || c == '_'

/-- Whether a character can stand in a plain word. -/
def isWordPart (c : Char) : Bool := c.isAlphanum || c == '_'

/-- Whether a name needs no quotes. -/
def isPlain (name : String) : Bool :=
  match name.toList with
  | [] => false
  | c :: cs => isWordStart c && (c :: cs).all isWordPart

/-- A name as it is written in a statement. -/
def quote (name : String) : String :=
  if isPlain name then name else "\"" ++ Text.substitute name '"' "\"\"" ++ "\""

/-- The text in place of a bound value. -/
def placeholder : String := "?"

/-- The name of the dialect. -/
def dialect : String := "SQLite"

end CorpusQuery.Sql

import CorpusQuery.Text.Blank
import CorpusQuery.Text.Case
import CorpusQuery.Text.Span

/-!
# Clauses

A query text is a sequence of words, and the word `and` in any letter case parts it into clauses.
Every text is a sequence of clauses, if only of one empty clause: a word is a longest run of
characters other than the four that separate words, so `android` and `a&b` are words like any other.

Words remember where they stand. The words of a text are read from the right: each character either
extends the word behind it or ends it, which needs no bookkeeping of the word so far.
-/

namespace CorpusQuery

/-- The characters between words. -/
def isWordGap (c : Char) : Bool := c == ' ' || c == '\t' || c == '\r' || c == '\n'

/-- A place in a text: bytes before it, and the column on its line, counted from one. -/
structure Place where
  byte : Nat := 0
  column : Nat := 1
deriving DecidableEq, Repr

/-- The place behind a character. A line ends at a line feed. -/
def Place.after (p : Place) (c : Char) : Place :=
  { byte := p.byte + c.utf8Size
    column := if c == '\n' then 1 else p.column + 1 }

/-- A word of a query and where it stands, in bytes and in its column. -/
structure Token where
  lexeme : String
  column : Nat
  start : Nat
  stop : Nat
deriving DecidableEq, Repr

/-- The words between two separators. An empty clause stands where the next separator, or the end of
the text, stands. -/
structure Clause where
  tokens : List Token
  text : String
  start : Nat
  stop : Nat
deriving DecidableEq, Repr

/-! ## Words -/

namespace Token

/-- The word with these characters at this place; no characters make no word. -/
def at? (p : Place) : List Char → List Token
  | [] => []
  | c :: cs =>
    [{ lexeme := .ofList (c :: cs), column := p.column, start := p.byte
       stop := p.byte + Text.byteLength (c :: cs) }]

/-- The characters of the word that begins right here, and the words after it. -/
def scan (here : Place) : List Char → List Char × List Token
  | [] => ([], [])
  | c :: cs =>
    let next := here.after c
    let (word, tokens) := scan next cs
    if isWordGap c then ([], at? next word ++ tokens) else (c :: word, tokens)

/-- The words of a text. -/
def words (cs : List Char) : List Token :=
  let (word, tokens) := scan {} cs
  at? {} word ++ tokens

/-- Whether the word separates clauses. -/
def isSeparator (t : Token) : Bool := Text.sameIgnoringCase t.lexeme "and"

end Token

/-! ## Clauses -/

namespace Clause

/-- Groups words into clauses. Each group comes with the place where it stands if it is empty. -/
def group (stop : Nat) : List Token → List (List Token × Nat)
  | [] => [([], stop)]
  | t :: ts =>
    if t.isSeparator then ([], t.start) :: group stop ts
    else match group stop ts with
      | [] => [([t], stop)]
      | (tokens, place) :: rest => (t :: tokens, place) :: rest

/-- The clause with these words, cut out of the text. -/
def ofTokens (text : List Char) (tokens : List Token) (place : Nat) : Clause :=
  let start := (tokens.head?.map (·.start)).getD place
  let stop := (tokens.getLast?.map (·.stop)).getD place
  { tokens, text := .ofList (Text.trimChars (Text.slice start stop text)), start, stop }

/-- The clauses of a query text, at least one. -/
def ofText (input : String) : List Clause :=
  let text := input.toList
  (group (Text.byteLength text) (Token.words text)).map fun (tokens, place) ↦
    ofTokens text tokens place

/-- The words of a clause. -/
def words (c : Clause) : List String := c.tokens.map (·.lexeme)

def isEmpty (c : Clause) : Bool := c.tokens.isEmpty

theorem group_ne_nil (stop : Nat) (ts : List Token) : group stop ts ≠ [] := by
  cases ts with
  | nil => simp [group]
  | cons t ts =>
    rw [group]
    split
    · simp
    · split <;> simp

end Clause

end CorpusQuery

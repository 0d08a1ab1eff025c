import CorpusQuery.Clause
import CorpusQuery.Grammar

/-!
# The lexer

Clauses can also be read off the tree that matching the grammar leaves behind: every clause of the
tree becomes a clause of words, cut out of the text. A lexer keeps the clauses of the text that it
was given last, and nothing of the texts before.

That a text does not match, or that a clause has something else in it than words, is refused here
because the tree alone does not exclude it.
-/

namespace CorpusQuery

/-- The column behind these characters, if they begin in a column. A line ends at a line feed, alone
or behind a carriage return. -/
def Text.columnBehind (column : Nat) : List Char → Nat
  | [] => column
  | '\r' :: '\n' :: cs => columnBehind 1 cs
  | c :: cs => columnBehind (if c == '\n' then 1 else column + 1) cs

/-- Why a text is not cut into clauses. -/
inductive LexerError where
  | noMatch
  | unexpectedRule (rule : Grammar.Rule) (column : Nat)
deriving DecidableEq, Repr

/-- A lexer with the clauses of its last text. -/
structure Lexer where
  clauses : List Clause := []

namespace Lexer

open Grammar (Node)

/-- The word at a node. -/
def token (text : List Char) : Node → Except LexerError Token
  | .mk rule start stop _ =>
    let column := Text.columnBehind 1 (Text.takeBytes start text)
    if rule = .word then
      .ok { lexeme := .ofList (Text.slice start stop text), column, start, stop }
    else .error (.unexpectedRule rule column)

/-- The clause at a node. -/
def clause (text : List Char) : Node → Except LexerError Clause
  | .mk _ start stop children => do
    let tokens ← children.mapM (token text)
    return { tokens, text := .ofList (Text.trimChars (Text.slice start stop text)), start, stop }

/-- Adds the clauses among the nodes, up to the first that is refused. -/
def collect (text : List Char) (lexer : Lexer) : List Node → Except LexerError Unit × Lexer
  | [] => (.ok (), lexer)
  | node :: nodes =>
    if node.rule = .clause then
      match clause text node with
      | .error e => (.error e, lexer)
      | .ok c => collect text { clauses := lexer.clauses ++ [c] } nodes
    else collect text lexer nodes

/-- Cuts a text into clauses. -/
def tokenize (lexer : Lexer) (input : String) : Except LexerError (List Clause) × Lexer :=
  let text := input.toList
  let cleared := { lexer with clauses := [] }
  match Grammar.parse text with
  | none => (.error .noMatch, cleared)
  | some nodes =>
    match collect text cleared (Node.flattenAll nodes) with
    | (.error e, lexer) => (.error e, lexer)
    | (.ok (), lexer) => (.ok lexer.clauses, lexer)

end Lexer

end CorpusQuery

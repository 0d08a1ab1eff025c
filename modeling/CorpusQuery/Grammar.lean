/-!
# The grammar of query texts

A grammar is made of parsing expressions. Alternatives are tried in their order, a repetition takes
as much as it can and gives nothing back, and looking ahead takes nothing. White space may stand
between the parts of a sequence and between repetitions, but neither before the first nor behind the
last one, and nowhere inside an atomic expression.

Matching leaves a tree of nodes behind: one for every match of a rule that is recorded, with its
place in bytes. Under the grammar of query texts the node of the whole text has a node for each
clause, and the separators between them, and the node of a clause has one for each word.
-/

namespace CorpusQuery.Grammar

/-- The rules whose matches are recorded. -/
inductive Rule where
  | query
  | clause
  | word
  | separator
  | finish
deriving DecidableEq, Repr

/-- The match of a rule, from one byte to another, and the matches inside it. -/
inductive Node where
  | mk (rule : Rule) (start stop : Nat) (children : List Node)

namespace Node

def rule : Node → Rule
  | mk rule _ _ _ => rule

mutual

/-- The node and all nodes inside it, each one before those inside it. -/
def flatten : Node → List Node
  | mk rule start stop children => mk rule start stop children :: flattenAll children

/-- The nodes and all nodes inside them. -/
def flattenAll : List Node → List Node
  | [] => []
  | node :: nodes => node.flatten ++ flattenAll nodes

end

end Node

/-- How far matching has come: the bytes before and the characters ahead. -/
structure Spot where
  byte : Nat
  rest : List Char

/-- Tries to match from a spot on. It leaves nodes behind and stops at a spot, or it fails. -/
abbrev Matcher := Spot → Option (List Node × Spot)

/-! ## Matching -/

/-- One character. -/
def accept (p : Char → Bool) : Matcher
  | ⟨byte, c :: rest⟩ => if p c then some ([], ⟨byte + c.utf8Size, rest⟩) else none
  | ⟨_, []⟩ => none

/-- A text, in any case of its ASCII letters. -/
def acceptCaseless : List Char → Matcher
  | [], s => some ([], s)
  | d :: ds, ⟨byte, c :: rest⟩ =>
    if c.toLower == d.toLower then acceptCaseless ds ⟨byte + c.utf8Size, rest⟩ else none
  | _ :: _, ⟨_, []⟩ => none

/-- Matches as often as possible. A match of nothing is not repeated. -/
def many (m : Matcher) (s : Spot) : List Node × Spot :=
  match m s with
  | none => ([], s)
  | some (nodes, next) =>
    if next.rest.length < s.rest.length then
      let (more, last) := many m next
      (nodes ++ more, last)
    else (nodes, next)
termination_by s.rest.length

/-! ## Parsing expressions -/

/-- Parsing expressions. -/
inductive Expr where
  | start
  | finish
  | any
  | char (c : Char)
  | caseless (s : String)
  | seq (first next : Expr)
  | choice (first other : Expr)
  | star (e : Expr)
  /-- Succeeds where the expression fails, and takes nothing. -/
  | notAhead (e : Expr)
  | record (rule : Rule) (e : Expr)
  /-- No white space between the parts of the expression. -/
  | atomic (e : Expr)

namespace Expr

/-- Once or more often. -/
def plus (e : Expr) : Expr := .seq e (.star e)

/-- The spot behind the white space, unless the expression is atomic. -/
def skip (space : Matcher) (isAtomic : Bool) (s : Spot) : Spot :=
  if isAtomic then s else (many space s).2

/-- Matches an expression, with a matcher for white space. -/
def run (space : Matcher) : Bool → Expr → Matcher
  | _, .start, s => if s.byte == 0 then some ([], s) else none
  | _, .finish, s => if s.rest.isEmpty then some ([.mk .finish s.byte s.byte []], s) else none
  | _, .any, s => accept (fun _ ↦ true) s
  | _, .char c, s => accept (· == c) s
  | _, .caseless text, s => acceptCaseless text.toList s
  | isAtomic, .seq first next, s => do
    let (nodes, s) ← run space isAtomic first s
    let (more, s) ← run space isAtomic next (skip space isAtomic s)
    return (nodes ++ more, s)
  | isAtomic, .choice first other, s =>
    (run space isAtomic first s).orElse fun _ ↦ run space isAtomic other s
  | isAtomic, .star e, s =>
    match run space isAtomic e s with
    | none => some ([], s)
    | some (nodes, next) =>
      let (more, last) := many (fun t ↦ run space isAtomic e (skip space isAtomic t)) next
      some (nodes ++ more, last)
  | isAtomic, .notAhead e, s => if (run space isAtomic e s).isSome then none else some ([], s)
  | isAtomic, .record rule e, s =>
    (run space isAtomic e s).map fun (nodes, last) ↦ ([.mk rule s.byte last.byte nodes], last)
  | _, .atomic e, s => run space true e s

end Expr

/-! ## Query texts -/

/-- White space between words. -/
def whitespace : Expr :=
  .choice (.char ' ') (.choice (.char '\t') (.choice (.char '\r') (.char '\n')))

/-- A character of a word. -/
def wordChar : Expr := .seq (.notAhead whitespace) .any

/-- The word `and`, if it ends there. -/
def separator : Expr := .record .separator (.atomic (.seq (.caseless "and") (.notAhead wordChar)))

def word : Expr := .record .word (.atomic wordChar.plus)

/-- Words that are not separators, possibly none. -/
def clause : Expr := .record .clause (.star (.seq (.notAhead separator) word))

/-- Clauses with separators between them, up to the end of the text. -/
def query : Expr :=
  .record .query (.seq .start (.seq clause (.seq (.star (.seq separator clause)) .finish)))

/-- The matcher for white space, which has no white space in itself. -/
def space : Matcher := whitespace.run (fun _ ↦ none) true

/-- Matches a whole text. -/
def parse (text : List Char) : Option (List Node) := (query.run space false ⟨0, text⟩).map (·.1)

end CorpusQuery.Grammar

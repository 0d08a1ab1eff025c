import CorpusQuery.Text.Case

/-!
# Comparators and operators

A clause is written with a comparator. Compiling works on operators, of which there are fewer: the
negative comparators become a positive operator and a negation flag, and three operators that no
comparator spells come from the positional fields.
-/

namespace CorpusQuery

/-- What a clause may compare with. -/
inductive Comparator where
  | equal
  | notEqual
  | less
  | greater
  | atMost
  | atLeast
  | like
  | notLike
  | isIn
  | notIn
deriving DecidableEq, Repr

/-- What a predicate tests, apart from its negation. -/
inductive Operator where
  | equal
  | less
  | greater
  | atMost
  | atLeast
  | like
  | isIn
  | startsWith
  | middle
  | endsWith
deriving DecidableEq, Repr

namespace Operator

/-- All operators. -/
def all : List Operator :=
  [.equal, .less, .greater, .atMost, .atLeast, .like, .isIn, .startsWith, .middle, .endsWith]

/-- The spelling in displayed queries. -/
def text : Operator → String
  | .equal => "="
  | .less => "<"
  | .greater => ">"
  | .atMost => "<="
  | .atLeast => ">="
  | .like => "like"
  | .isIn => "in"
  | .startsWith => "start"
  | .middle => "middle"
  | .endsWith => "end"

def isRange : Operator → Bool
  | .less | .greater | .atMost | .atLeast => true
  | _ => false

/-- Whether the operator tests the place of a text inside the word form. -/
def isPositional : Operator → Bool
  | .startsWith | .middle | .endsWith => true
  | _ => false

/-- The operator displayed with this spelling. -/
def ofText? (s : String) : Option Operator := all.find? (·.text == s)

end Operator

namespace Comparator

/-- Reads a comparator that is one word, in any letter case. -/
def read? (word : String) : Option Comparator :=
  match Text.asciiLower word with
  | "=" | "==" => some .equal
  | "!=" | "<>" => some .notEqual
  | "<" => some .less
  | ">" => some .greater
  | "<=" => some .atMost
  | ">=" => some .atLeast
  | "like" => some .like
  | "in" => some .isIn
  | "notin" => some .notIn
  | _ => none

/-- Reads a comparator that is `not` and another word. -/
def readPair? (first second : String) : Option Comparator :=
  if Text.sameIgnoringCase first "not" then
    match Text.asciiLower second with
    | "in" => some .notIn
    | "like" => some .notLike
    | _ => none
  else none

/-- The canonical spelling. -/
def text : Comparator → String
  | .equal => "="
  | .notEqual => "!="
  | .less => "<"
  | .greater => ">"
  | .atMost => "<="
  | .atLeast => ">="
  | .like => "like"
  | .notLike => "not like"
  | .isIn => "in"
  | .notIn => "notin"

/-- The operator a comparator tests. -/
def operator : Comparator → Operator
  | .equal | .notEqual => .equal
  | .less => .less
  | .greater => .greater
  | .atMost => .atMost
  | .atLeast => .atLeast
  | .like | .notLike => .like
  | .isIn | .notIn => .isIn

/-- Whether the comparator asks for its operator to fail. -/
def negates : Comparator → Bool
  | .notEqual | .notLike | .notIn => true
  | _ => false

/-- Whether the comparator takes a list of values. -/
def isSet : Comparator → Bool
  | .isIn | .notIn => true
  | _ => false

def isRange (c : Comparator) : Bool := c.operator.isRange

end Comparator

end CorpusQuery

import CorpusQuery.Comparator
import CorpusQuery.Value

/-!
# Queries

A query is a conjunction of predicates, optionally narrowed to the most frequent rows of each word
form.
-/

namespace CorpusQuery

/-- What a predicate compares with. -/
inductive Operand where
  | number (v : Value)
  | text (s : String)
  | texts (ss : List String)
deriving DecidableEq

namespace Operand

/-- The operand as texts. -/
def asTexts : Operand → List String
  | .number v => v.asText?.toList
  | .text s => [s]
  | .texts ss => ss

/-- The operand as values. -/
def values : Operand → List Value
  | .number v => [v]
  | .text s => [.text s]
  | .texts ss => ss.map .text

def toNumber? : Operand → Option Float
  | .number v => v.toNumber?
  | _ => none

/-- Whether a text holds the placeholder for a missing feature. -/
def hasPlaceholder : Operand → Bool
  | .number _ => false
  | .text s => Text.hasChar s '_'
  | .texts ss => ss.any (Text.hasChar · '_')

/-- The operand with its texts changed. -/
def mapTexts (f : String → String) : Operand → Operand
  | .number v => .number v
  | .text s => .text (f s)
  | .texts ss => .texts (ss.map f)

def display : Operand → String
  | .number v => v.display
  | .text s => s
  | .texts ss => ",".intercalate ss

end Operand

/-- A test on one field. -/
structure Predicate where
  field : String
  operator : Operator
  operand : Operand
  negated : Bool := false
deriving DecidableEq

namespace Predicate

/-- Whether the predicate is a pattern that may start with any text, so that no index helps. -/
def isUnanchoredLike (p : Predicate) : Bool :=
  p.operator == .like && p.operand.asTexts.any fun s ↦
    s.toList.head? == some '%' || s.toList.head? == some '_'

def display (p : Predicate) : String :=
  (if p.negated then "not " else "")
    ++ p.field ++ " " ++ p.operator.text ++ " " ++ p.operand.display

end Predicate

/-- A conjunction of predicates, and the number of rows kept per word form. -/
structure Query where
  predicates : List Predicate := []
  top : Option Nat := none
deriving DecidableEq

namespace Query

def isEmpty (q : Query) : Bool := q.predicates.isEmpty

def display (q : Query) : String :=
  " and ".intercalate (q.predicates.map (·.display))
    ++ (match q.top with
      | some n => " top " ++ toString n
      | none => "")

end Query

end CorpusQuery

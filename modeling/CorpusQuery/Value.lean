import CorpusQuery.Number.Reading
import CorpusQuery.Number.Shortest
import CorpusQuery.Text.Blank
import CorpusQuery.Text.Split

/-!
# Values

A cell holds a whole number, a real number, a text or nothing. Numbers of both kinds compare with
each other by size and texts by code point; a number and a text do not compare, and nothing compares
with a missing value. That order is partial, and so is equality by it: it is not the equality of
identical cells, which also tells `1` from `1.0`. Where cells are keys of a hash table, cells of one
kind with equal content are the same key, except for the two zeros.
-/

namespace CorpusQuery

/-- The content of a cell. -/
inductive Value where
  | int (n : Int)
  | real (x : Float)
  | text (s : String)
  | null
deriving DecidableEq

namespace Value

/-! ## Numbers -/

/-- A double as a value: whole numbers in the 64-bit range become whole values. -/
def ofNumber (x : Float) : Value :=
  match Number.exactInt? x with
  | some n => if n.natAbs < Nat.pow 2 63 then .int n else .real x
  | none => .real x

/-- The number a value stands for. A text counts when it reads as a decimal once trimmed. -/
def toNumber? : Value → Option Float
  | .int n => some (Float.ofInt n)
  | .real x => some x
  | .text s => Number.readFloat? (Text.trimChars s.toList)
  | .null => none

/-! ## Texts -/

/-- The text of a value that is a text. -/
def text? : Value → Option String
  | .text s => some s
  | _ => none

/-- The value as text; a missing value has none. -/
def asText? : Value → Option String
  | .int n => some (toString n)
  | .real x => some (Number.text x)
  | .text s => some s
  | .null => none

/-- The value as it is displayed: texts in single quotes, with quotes inside doubled. -/
def display : Value → String
  | .int n => toString n
  | .real x => Number.text x
  | .text s => "'" ++ Text.substitute s '\'' "''" ++ "'"
  | .null => "NULL"

def isNull : Value → Bool
  | .null => true
  | _ => false

/-! ## Order -/

/-- How two values compare, if they do. -/
def order? : Value → Value → Option Ordering
  | .int a, .int b => some (compare a b)
  | .real a, .real b => Number.order a b
  | .int a, .real b => Number.order (Float.ofInt a) b
  | .real a, .int b => Number.order a (Float.ofInt b)
  | .text a, .text b => some (compare a b)
  | _, _ => none

/-- Equality of content: the same kind of value with equal content. Content that is not a number
equals nothing, and the two zeros are equal. -/
def same : Value → Value → Bool
  | .int a, .int b => a == b
  | .real a, .real b => a == b
  | .text a, .text b => a == b
  | .null, .null => true
  | _, _ => false

/-- Whether two values are one key of a hash table: they are equal and hash alike. A real number is
hashed by its bits, so the two zeros are different keys. -/
def sameKey : Value → Value → Bool
  | .real a, .real b => a == b && a.toBits == b.toBits
  | a, b => a.same b

@[simp] theorem isNull_iff {v : Value} : v.isNull = true ↔ v = .null := by
  cases v <;> simp [isNull]

@[simp] theorem asText?_eq_none {v : Value} : v.asText? = none ↔ v = .null := by
  cases v <;> simp [asText?]

end Value

end CorpusQuery

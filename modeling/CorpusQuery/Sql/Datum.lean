import CorpusQuery.Number.Embedded
import CorpusQuery.Number.Significant
import CorpusQuery.Text.Utf8
import CorpusQuery.Truth
import CorpusQuery.Value

/-!
# Data in a database

A database stores the same values that queries know, and bytes besides. Its data are totally
ordered: a missing datum comes first, then the numbers by size, then the texts by code point and
then the bytes. Whole and real numbers are compared exactly, without rounding either.

A condition is a datum too, one that is missing when the truth is unknown.
-/

namespace CorpusQuery

/-- How a whole number compares with a double that is a number. -/
def Number.compareInt (n : Int) (x : Float) : Ordering :=
  match magnitude x with
  | .undefined => .gt
  | .infinite => if isNegative x then .gt else .lt
  | .finite significand exponent =>
    let m : Int := if isNegative x then -(significand : Int) else significand
    compare (n * Int.pow 2 (-exponent).toNat) (m * Int.pow 2 exponent.toNat)

namespace Sql

/-- A stored or computed datum. -/
inductive Datum where
  | null
  | int (n : Int)
  /-- A double, which is never the one that is no number. -/
  | real (x : Float)
  | text (s : String)
  | bytes (bs : List UInt8)
deriving DecidableEq

namespace Datum

/-! ## Values -/

/-- The datum of a value. A double that is no number is stored as nothing. -/
def ofValue : Value → Datum
  | .int n => .int n
  | .real x => if x.isNaN then .null else .real x
  | .text s => .text s
  | .null => .null

/-- The value that a datum is shown as. Bytes are shown as text, as far as they are text. -/
def toValue : Datum → Value
  | null => .null
  | int n => .int n
  | real x => .real x
  | text s => .text s
  | bytes bs => .text (Text.decodeLossy bs)

/-- The datum as text; a missing one has none. -/
def asText? : Datum → Option String
  | null => none
  | int n => some (toString n)
  | real x => some (Number.significantText x)
  | text s => some s
  | bytes bs => some (Text.decodeLossy bs)

def isNull : Datum → Bool
  | null => true
  | _ => false

/-! ## Order -/

/-- The class of a datum; every datum of a lower class comes first. -/
def rank : Datum → Nat
  | null => 0
  | int _ | real _ => 1
  | text _ => 2
  | bytes _ => 3

/-- How two data are ordered. -/
def order : Datum → Datum → Ordering
  | int a, int b => compare a b
  | real a, real b => (Number.order a b).getD .eq
  | int a, real b => Number.compareInt a b
  | real a, int b => (Number.compareInt b a).swap
  | text a, text b => compare a b
  | bytes a, bytes b => compare (a.map (·.toNat)) (b.map (·.toNat))
  | a, b => compare a.rank b.rank

/-! ## Truth -/

/-- A truth as a datum. -/
def ofTruth : Truth → Datum
  | some true => .int 1
  | some false => .int 0
  | none => .null

/-- A datum as a truth. A text is as true as the number it starts with. -/
def truth : Datum → Truth
  | null => none
  | int n => some (n != 0)
  | real x => some (x != 0.0)
  | text s => some (Number.leadingFloat s.toList != 0.0)
  | bytes bs => some (Number.leadingFloat (Text.decodeLossy bs).toList != 0.0)

@[simp] theorem truth_ofTruth (t : Truth) : (ofTruth t).truth = t := by
  rcases t with _ | _ | _ <;> rfl

@[simp] theorem isNull_iff {d : Datum} : d.isNull = true ↔ d = .null := by
  cases d <;> simp [isNull]

end Datum

end Sql

end CorpusQuery

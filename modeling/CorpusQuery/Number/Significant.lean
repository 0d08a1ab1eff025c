import CorpusQuery.Number.Binary

/-!
# Numbers to fifteen digits

A database writes a double with at most fifteen significant digits, a half being rounded up, and
always with a point. Numbers of sixteen or more places before the point, or of more than three zeros
behind it, are written with an exponent of at least two digits.

The digits are found by exact arithmetic on a quotient of natural numbers.
-/

namespace CorpusQuery.Number

/-- The number of significant digits. -/
def significantDigits : Nat := 15

/-- The exponent of the leading digit of a positive quotient. The logarithms give it up to two
places, and the right one is the largest whose power of ten does not exceed the quotient. -/
def leadingExponent (num den : Nat) : Int :=
  let bound : Int := ((Nat.log2 num : Int) - Nat.log2 den + 1) * 30103 / 100000 + 2
  let fits (k : Int) : Bool := Nat.pow 10 k.toNat * den ≤ num * Nat.pow 10 (-k).toNat
  (((List.range 8).map fun (i : Nat) ↦ bound - i).find? fits).getD 0

/-- The significant digits of a positive quotient without trailing zeros, and the exponent of the
leading one. Rounding may carry into a new leading digit. -/
def roundedDigits (num den : Nat) : List Char × Int :=
  let unit : Int := leadingExponent num den - (significantDigits - 1)
  let scaled := num * Nat.pow 10 (-unit).toNat
  let mesh := den * Nat.pow 10 unit.toNat
  let ds := Nat.toDigits 10 ((2 * scaled + mesh) / (2 * mesh))
  ((ds.reverse.dropWhile (· == '0')).reverse, unit + (ds.length - 1 : Nat))

/-- Digits with a point behind the first `places`, and a digit on both sides of it. -/
def pointed (places : Nat) (ds : List Char) : List Char :=
  let whole := ds.take places ++ List.replicate (places - ds.length) '0'
  whole ++ '.' :: (if (ds.drop places).isEmpty then ['0'] else ds.drop places)

/-- An exponent of at least two digits with its sign. -/
def exponentText (e : Int) : List Char :=
  let ds := Nat.toDigits 10 e.natAbs
  'e' :: (if e < 0 then '-' else '+') :: (List.replicate (2 - ds.length) '0' ++ ds)

/-- The text of digits whose leading one has this exponent. -/
def layOut (ds : List Char) (e : Int) : List Char :=
  if e < -4 ∨ (significantDigits : Int) ≤ e then pointed 1 ds ++ exponentText e
  else if e < 0 then '0' :: '.' :: (List.replicate (-e - 1).toNat '0' ++ ds)
  else pointed (e.toNat + 1) ds

/-- The text of a double to fifteen significant digits. Zero has no sign. -/
def significantText (x : Float) : String :=
  let sign := if isNegative x then "-" else ""
  match magnitude x with
  | .undefined => ""
  | .infinite => sign ++ "Inf"
  | .finite 0 _ => "0.0"
  | .finite significand exponent =>
    let (ds, e) :=
      roundedDigits (significand * Nat.pow 2 exponent.toNat) (Nat.pow 2 (-exponent).toNat)
    sign ++ .ofList (layOut ds e)

end CorpusQuery.Number

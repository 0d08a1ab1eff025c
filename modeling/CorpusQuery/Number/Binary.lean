/-!
# Doubles as exact numbers

A finite double is a significand times a power of two, read off its bits. Whether it is whole, and
which whole number it is, is decided on that form, without any rounding.
-/

namespace CorpusQuery.Number

/-- What a double stands for, apart from its sign. -/
inductive Magnitude where
  | infinite
  | undefined
  /-- The number `significand · 2 ^ exponent`. -/
  | finite (significand : Nat) (exponent : Int)
deriving DecidableEq

/-- Whether the sign bit is set. -/
def isNegative (x : Float) : Bool := x.toBits.toNat / Nat.pow 2 63 == 1

/-- The number a double stands for, apart from its sign. -/
def magnitude (x : Float) : Magnitude :=
  let bits := x.toBits.toNat
  let biased : Nat := bits / Nat.pow 2 52 % Nat.pow 2 11
  let fraction : Nat := bits % Nat.pow 2 52
  if biased == Nat.pow 2 11 - 1 then
    if fraction == 0 then .infinite else .undefined
  else if biased == 0 then .finite fraction (-1074)
  else .finite (Nat.pow 2 52 + fraction) ((biased : Int) - 1075)

/-- The whole number a double is equal to, if there is one. -/
def exactInt? (x : Float) : Option Int :=
  match magnitude x with
  | .finite significand exponent =>
    let signed (n : Nat) : Int := if isNegative x then -n else n
    if 0 ≤ exponent then some (signed (significand * Nat.pow 2 exponent.toNat))
    else if significand % Nat.pow 2 (-exponent).toNat == 0 then
      some (signed (significand / Nat.pow 2 (-exponent).toNat))
    else none
  | _ => none

/-- How two doubles compare; `none` when either is not a number. The two zeros are equal. -/
def order (x y : Float) : Option Ordering :=
  if x < y then some .lt
  else if y < x then some .gt
  else if x == y then some .eq
  else none

end CorpusQuery.Number

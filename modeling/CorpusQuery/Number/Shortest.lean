import CorpusQuery.Number.Binary

/-!
# The shortest decimal of a double

The reals that round to a given double form an interval, closed exactly when the significand is
even. Among the grids of multiples of a power of ten, the coarsest one with a point in that interval
gives the fewest digits; of its points the one nearest to the double is taken, and the upper one of
two equally near.

All comparisons are made between natural numbers over one common denominator. The text is always
positional: it has no exponent, however long that makes it, and a whole number has no point.
-/

namespace CorpusQuery.Number

/-- The decimal `digits · 10 ^ exponent`. -/
structure Decimal where
  digits : Nat
  exponent : Int
deriving DecidableEq, Repr

/-! ## The interval of a double -/

/-- An interval around a number, as numerators over one denominator. -/
structure Interval where
  lower : Nat
  centre : Nat
  upper : Nat
  denominator : Nat
  closed : Bool

namespace Interval

/-- The reals that round to `significand · 2 ^ exponent`. Below a power of two the doubles lie
twice as close, so the lower half is narrower there. -/
def around (significand : Nat) (exponent : Int) : Interval :=
  let narrow := significand == Nat.pow 2 52 && exponent > -1074
  let scale := Nat.pow 2 (exponent - 2).toNat
  { lower := (4 * significand - if narrow then 1 else 2) * scale
    centre := 4 * significand * scale
    upper := (4 * significand + 2) * scale
    denominator := Nat.pow 2 (2 - exponent).toNat
    closed := significand % 2 == 0 }

/-- Whether the number with this numerator over the denominator times `unit` lies inside. -/
def holds (i : Interval) (unit n : Nat) : Bool :=
  if i.closed then i.lower * unit ≤ n && n ≤ i.upper * unit
  else i.lower * unit < n && n < i.upper * unit

/-- The multiple of `10 ^ k` nearest to the centre among those inside, if any is. Only the two
neighbours of the centre need a test. -/
def onGrid? (i : Interval) (k : Int) : Option Nat :=
  let unit := Nat.pow 10 (-k).toNat
  let mesh := i.denominator * Nat.pow 10 k.toNat
  let below := i.centre * unit / mesh
  let low := i.holds unit (below * mesh)
  let high := i.holds unit ((below + 1) * mesh)
  let lowNearer := 2 * (i.centre * unit - below * mesh) < mesh
  if low && (!high || lowNearer) then some below
  else if high then some (below + 1)
  else none

/-- An exponent of ten above which no grid has a point other than zero in the interval. -/
def coarsest (i : Interval) : Int :=
  ((Nat.log2 i.upper : Int) - Nat.log2 i.denominator + 1) * 30103 / 100000 + 2

end Interval

/-- The shortest decimal that rounds to `significand · 2 ^ exponent`. Seventeen digits always
suffice, and a few grids more are tried because the first ones may be too coarse. -/
def shortest (significand : Nat) (exponent : Int) : Decimal :=
  let i := Interval.around significand exponent
  let grid (step : Nat) : Int := i.coarsest - step
  let hit := (List.range 24).findSome? fun step ↦ (i.onGrid? (grid step)).map (⟨·, grid step⟩)
  hit.getD ⟨0, 0⟩

/-! ## Positional text -/

/-- The decimal written out with a point where it is needed and no exponent. -/
def Decimal.text (d : Decimal) : String :=
  let ds := Nat.toDigits 10 d.digits
  if 0 ≤ d.exponent then .ofList (ds ++ List.replicate d.exponent.toNat '0')
  else
    let places := (-d.exponent).toNat
    let padded := List.replicate (places + 1 - ds.length) '0' ++ ds
    let whole := padded.take (padded.length - places)
    .ofList (whole ++ '.' :: padded.drop (padded.length - places))

/-- The text of a double: the shortest decimal that reads back, written positionally. -/
def text (x : Float) : String :=
  let sign := if isNegative x then "-" else ""
  match magnitude x with
  | .undefined => "NaN"
  | .infinite => sign ++ "inf"
  | .finite 0 _ => sign ++ "0"
  | .finite significand exponent => sign ++ (shortest significand exponent).text

end CorpusQuery.Number

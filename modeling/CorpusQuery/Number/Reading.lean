/-!
# Reading numbers

A whole number is an optional sign and ASCII digits, and must lie in the range of its type. A
decimal is an optional sign, digits with an optional point and an optional exponent, or one of the
words for infinity and for no number; it is rounded to the nearest double. Nothing else is a
number: no blanks, no digit grouping, no other radix.
-/

namespace CorpusQuery.Number

/-! ## Digits -/

/-- The number a digit stands for. -/
def digitValue (c : Char) : Nat := c.toNat - '0'.toNat

/-- The number written by a run of digits. -/
def ofDigits (ds : List Char) : Nat := ds.foldl (fun n d ↦ 10 * n + digitValue d) 0

/-- Whether the characters are digits, at least one. -/
def isDigits (cs : List Char) : Bool := !cs.isEmpty && cs.all Char.isDigit

/-- Splits off an optional sign; `true` stands for a minus. -/
def splitSign : List Char → Bool × List Char
  | '-' :: cs => (true, cs)
  | '+' :: cs => (false, cs)
  | cs => (false, cs)

/-! ## Whole numbers -/

/-- Reads a signed whole number between `least` and `greatest`. -/
def readInt? (least greatest : Int) (cs : List Char) : Option Int :=
  let (negative, ds) := splitSign cs
  if isDigits ds then
    let n : Int := if negative then -(ofDigits ds : Int) else ofDigits ds
    if least ≤ n ∧ n ≤ greatest then some n else none
  else none

/-- Reads a signed 64-bit number. -/
def readInt64? (cs : List Char) : Option Int := readInt? (-Int.pow 2 63) (Int.pow 2 63 - 1) cs

/-- Reads an unsigned number up to `greatest`. A plus is allowed and a minus is not. -/
def readNat? (greatest : Nat) (cs : List Char) : Option Nat :=
  let ds := match cs with
    | '+' :: rest => rest
    | _ => cs
  if isDigits ds && ofDigits ds ≤ greatest then some (ofDigits ds) else none

/-! ## Decimals -/

/-- The double nearest to `significand · 10 ^ exponent`. Numbers far outside the range of doubles
are decided from their number of digits, so that no huge power is formed. -/
def ofDecimal (significand : Nat) (exponent : Int) : Float :=
  if significand == 0 then 0.0
  else
    let magnitude := (Nat.toDigits 10 significand).length + exponent
    if magnitude > 400 then 1.0 / 0.0
    else if magnitude < -400 then 0.0
    else if exponent < 0 then Float.ofScientific significand true (-exponent).toNat
    else Float.ofScientific significand false exponent.toNat

/-- Reads the exponent part, which is empty or starts with `e`. -/
def readExponent? : List Char → Option Int
  | [] => some 0
  | c :: cs =>
    if c == 'e' || c == 'E' then
      let (negative, ds) := splitSign cs
      if isDigits ds then some (if negative then -(ofDigits ds : Int) else ofDigits ds) else none
    else none

/-- Reads digits with an optional point and an optional exponent: the significand and the power of
ten it is scaled by. -/
def readScaled? (cs : List Char) : Option (Nat × Int) :=
  let whole := cs.takeWhile Char.isDigit
  let rest := cs.dropWhile Char.isDigit
  let (fraction, rest) := match rest with
    | '.' :: tail => (tail.takeWhile Char.isDigit, tail.dropWhile Char.isDigit)
    | _ => ([], rest)
  if whole.isEmpty && fraction.isEmpty then none
  else (readExponent? rest).map fun e ↦ (ofDigits (whole ++ fraction), e - fraction.length)

/-- Reads a decimal as a double. -/
def readFloat? (cs : List Char) : Option Float :=
  let (negative, body) := splitSign cs
  let word := body.map Char.toLower
  let magnitude :=
    if word == ['i', 'n', 'f'] || word == ['i', 'n', 'f', 'i', 'n', 'i', 't', 'y'] then
      some (1.0 / 0.0)
    else if word == ['n', 'a', 'n'] then some (0.0 / 0.0)
    else (readScaled? body).map fun (significand, exponent) ↦ ofDecimal significand exponent
  magnitude.map fun x ↦ if negative then -x else x

end CorpusQuery.Number

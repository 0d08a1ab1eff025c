import CorpusQuery.Number.Reading

/-!
# Numbers inside texts

A database takes a text for a number when nothing but white space stands around the number. Where it
has to have a number anyway it takes the longest one that the text starts with, and zero if there is
none. Digits may stand on either side of the point only, and an exponent without digits does not
belong to the number.
-/

namespace CorpusQuery.Number

/-- The white space around a number. -/
def isNumberSpace (c : Char) : Bool := c == ' ' || (0x9 ≤ c.toNat && c.toNat ≤ 0xD)

/-- A number at the front of a text: its digits before and behind the point, and its exponent. -/
structure Embedded where
  negative : Bool
  whole : List Char
  fraction : List Char
  exponent : Int
  /-- Whether it has neither a point nor an exponent. -/
  isWhole : Bool
  rest : List Char

/-- Splits off the digits behind a point; `false` stands for no point. -/
def splitFraction : List Char → Bool × List Char × List Char
  | '.' :: cs => (true, cs.takeWhile Char.isDigit, cs.dropWhile Char.isDigit)
  | cs => (false, [], cs)

/-- Splits off an exponent, if there is one with digits. -/
def splitExponent : List Char → Option Int × List Char
  | [] => (none, [])
  | c :: cs =>
    let (negative, tail) := splitSign cs
    let ds := tail.takeWhile Char.isDigit
    if (c == 'e' || c == 'E') && !ds.isEmpty then
      (some (if negative then -(ofDigits ds : Int) else ofDigits ds), tail.dropWhile Char.isDigit)
    else (none, c :: cs)

namespace Embedded

/-- The number that a text starts with, which may be without digits. -/
def ofFront (cs : List Char) : Embedded :=
  let (negative, cs) := splitSign (cs.dropWhile isNumberSpace)
  let (hasPoint, fraction, rest) := splitFraction (cs.dropWhile Char.isDigit)
  let (exponent, rest) := splitExponent rest
  { negative, whole := cs.takeWhile Char.isDigit, fraction, exponent := exponent.getD 0
    isWhole := !hasPoint && exponent.isNone, rest }

/-- Whether there are digits and only white space behind them. -/
def isWholeText (n : Embedded) : Bool :=
  !(n.whole.isEmpty && n.fraction.isEmpty) && n.rest.all isNumberSpace

/-- The number as a double. -/
def toFloat (n : Embedded) : Float :=
  let x := ofDecimal (ofDigits (n.whole ++ n.fraction)) (n.exponent - n.fraction.length)
  if n.negative then -x else x

/-- The number as a signed 64-bit number, if it is one. -/
def toInt64? (n : Embedded) : Option Int :=
  if n.isWhole then readInt64? ((if n.negative then ['-'] else []) ++ n.whole) else none

end Embedded

/-- The double that a text starts with, or zero. -/
def leadingFloat (cs : List Char) : Float := (Embedded.ofFront cs).toFloat

end CorpusQuery.Number

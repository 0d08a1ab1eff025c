import CorpusQuery.Number.Reading
import CorpusQuery.Text.Split
import CorpusQuery.Toml
import CorpusQuery.Toml.Quoted

/-!
# Numbers, truths and dates of a document

A plain value reaches up to the next blank, comma, bracket or comment. Digits may be grouped by
single underscores. A whole number has no leading zeros and fits into 64 bits; a real number has a
point or an exponent, with digits on both sides of the point.
-/

namespace CorpusQuery.Toml

/-- Whether a character ends a plain value. -/
def endsPlain (c : Char) : Bool :=
  [' ', '\t', '\r', '\n', ',', ']', '}', '#'].contains c

/-! ## Numbers -/

/-- The digits without the underscores between them. -/
def ungroup? (isDigit : Char → Bool) (cs : List Char) : Option (List Char) :=
  let groups := Text.splitOn '_' cs
  if groups.all fun g ↦ !g.isEmpty && g.all isDigit then some groups.flatten else none

/-- Digits that are alone or do not start with a zero. -/
def wholeDigits? (cs : List Char) : Option (List Char) :=
  (ungroup? Char.isDigit cs).filter fun ds ↦ ds.head? != some '0' || ds.length == 1

/-- A whole number in another base. -/
def readRadix? (radix : Nat) (cs : List Char) : Option Int := do
  let value? (c : Char) : Option Nat := (hexDigit? c).filter (· < radix)
  let ds ← (← ungroup? (fun c ↦ (value? c).isSome) cs).mapM value?
  let n : Nat := ds.foldl (fun n d ↦ radix * n + d) 0
  if n < Nat.pow 2 63 then some (n : Int) else none

/-- A whole number. -/
def readWhole? (cs : List Char) : Option Int :=
  match cs with
  | '0' :: 'x' :: ds => readRadix? 16 ds
  | '0' :: 'o' :: ds => readRadix? 8 ds
  | '0' :: 'b' :: ds => readRadix? 2 ds
  | _ => do
    let (negative, ds) := Number.splitSign cs
    Number.readInt64? ((if negative then ['-'] else []) ++ (← wholeDigits? ds))

/-- The digits of an exponent with their sign; no exponent has none. -/
def exponentDigits? : List Char → Option (List Char)
  | [] => some []
  | c :: cs =>
    let (negative, ds) := Number.splitSign cs
    (ungroup? Char.isDigit ds).map fun ds ↦ (c :: if negative then ['-'] else []) ++ ds

/-- The digits behind a point; without a point there are none. -/
def fractionDigits? : List Char → Option (List Char)
  | [] => some []
  | c :: cs => (ungroup? Char.isDigit cs).map (c :: ·)

/-- A real number in digits, which is not too large. -/
def readDigits? (cs : List Char) : Option Float := do
  let isMark (c : Char) : Bool := c == 'e' || c == 'E'
  let mantissa := cs.takeWhile (!isMark ·)
  let whole := mantissa.takeWhile (· != '.')
  let fraction := mantissa.dropWhile (· != '.')
  let exponent := cs.dropWhile (!isMark ·)
  if fraction.isEmpty && exponent.isEmpty then none
  else
    Number.readFloat?
      ((← wholeDigits? whole) ++ (← fractionDigits? fraction) ++ (← exponentDigits? exponent))

/-- A real number. A positive number beyond all doubles is refused. -/
def readReal? (cs : List Char) : Option Float :=
  let (negative, ds) := Number.splitSign cs
  let signed (x : Float) : Float := if negative then -x else x
  if ds == ['i', 'n', 'f'] then some (signed (1.0 / 0.0))
  else if ds == ['n', 'a', 'n'] then some (signed (0.0 / 0.0))
  else ((readDigits? ds).map signed).filter (· != 1.0 / 0.0)

/-! ## Dates and times -/

/-- The number written by so many digits. -/
def fixedDigits? (width : Nat) (cs : List Char) : Option Nat :=
  if cs.length == width && Number.isDigits cs then some (Number.ofDigits cs) else none

/-- Whether the characters are so many digits for a number in a range. -/
def isInRange (width least greatest : Nat) (cs : List Char) : Bool :=
  match fixedDigits? width cs with
  | some n => least ≤ n && n ≤ greatest
  | none => false

/-- The number of days in a month. -/
def daysInMonth (year month : Nat) : Nat :=
  if month == 2 then
    if year % 4 == 0 && (year % 100 != 0 || year % 400 == 0) then 29 else 28
  else if [4, 6, 9, 11].contains month then 30
  else 31

/-- Whether the characters are a date. -/
def isDate (cs : List Char) : Bool :=
  match Text.splitOn '-' cs with
  | [y, m, d] =>
    match fixedDigits? 4 y, fixedDigits? 2 m with
    | some year, some month =>
      1 ≤ month && month ≤ 12 && isInRange 2 1 (daysInMonth year month) d
    | _, _ => false
  | _ => false

/-- Whether the characters are seconds with an optional fraction. -/
def isSeconds (cs : List Char) : Bool :=
  match Text.splitOn '.' cs with
  | [s] => isInRange 2 0 60 s
  | [s, fraction] => isInRange 2 0 60 s && Number.isDigits fraction
  | _ => false

/-- Whether the characters are a time of the day. -/
def isTime (cs : List Char) : Bool :=
  match Text.splitOn ':' cs with
  | [h, m, s] => isInRange 2 0 23 h && isInRange 2 0 59 m && isSeconds s
  | _ => false

/-- Whether the characters are an offset from universal time. -/
def isOffset (cs : List Char) : Bool :=
  match cs with
  | [z] => z == 'Z' || z == 'z'
  | sign :: rest =>
    (sign == '+' || sign == '-') &&
      match Text.splitOn ':' rest with
      | [h, m] => isInRange 2 0 23 h && isInRange 2 0 59 m
      | _ => false
  | [] => false

/-- Whether the characters are a time of the day with an optional offset. -/
def isTimeWithOffset (cs : List Char) : Bool :=
  let startsOffset (c : Char) : Bool := c == 'Z' || c == 'z' || c == '+' || c == '-'
  let offset := cs.dropWhile (!startsOffset ·)
  isTime (cs.takeWhile (!startsOffset ·)) && (offset.isEmpty || isOffset offset)

/-- Whether the characters are a date, a time, or both in one word. -/
def isMoment (cs : List Char) : Bool :=
  let date := cs.take 10
  match cs.drop 10 with
  | [] => isDate date || isTime cs
  | t :: time => isTime cs || (t == 'T' || t == 't') && isDate date && isTimeWithOffset time

/-! ## Plain values -/

/-- The value of a plain word. -/
def ofPlain? (cs : List Char) : Option Toml :=
  if cs == ['t', 'r', 'u', 'e'] then some (.bool true)
  else if cs == ['f', 'a', 'l', 's', 'e'] then some (.bool false)
  else if isMoment cs then some .moment
  else ((readReal? cs).map Toml.real).orElse fun _ ↦ (readWhole? cs).map Toml.int

/-- A plain value, and what stands behind it. A date and a time may also be two words with one blank
between them. -/
def readPlain? (cs : List Char) : Option (Toml × List Char) :=
  let word := cs.takeWhile (!endsPlain ·)
  let rest := cs.dropWhile (!endsPlain ·)
  let time := match rest with
    | ' ' :: more => more.takeWhile (!endsPlain ·)
    | _ => []
  if isDate word && isTimeWithOffset time then some (.moment, rest.drop (1 + time.length))
  else (ofPlain? word).map (·, rest)

end CorpusQuery.Toml

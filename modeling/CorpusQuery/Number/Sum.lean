/-!
# Sums

Whole numbers are added exactly as long as the sum fits into 64 bits. From the first real number or
the first sum that does not fit on, doubles are added, and what each addition rounds off is
collected and added at the end. Whole numbers of more than 53 bits enter in two parts, so that
neither is rounded.
-/

namespace CorpusQuery.Number

/-- A sum of doubles, and what was rounded off on the way. -/
structure RoundedSum where
  sum : Float
  lost : Float

/-- Adds a double. -/
def RoundedSum.add (s : RoundedSum) (x : Float) : RoundedSum :=
  let t := s.sum + x
  let error := if s.sum.abs > x.abs then (s.sum - t) + x else (x - t) + s.sum
  ⟨t, s.lost + error⟩

/-- A whole number as a double and a remainder. Numbers that may not be doubles are cut at a
multiple of a power of two. -/
def splitWhole (n : Int) : Int × Int :=
  if n.natAbs < Nat.pow 2 52 then (n, 0)
  else (n - n.tmod (Int.pow 2 14), n.tmod (Int.pow 2 14))

/-- Adds a whole number. -/
def RoundedSum.addWhole (s : RoundedSum) (n : Int) : RoundedSum :=
  let (large, small) := splitWhole n
  let t := s.add (Float.ofInt large)
  if small == 0 then t else t.add (Float.ofInt small)

/-- A sum on the way: exact, or already rounded. -/
inductive RunningSum where
  | exact (n : Int)
  | rounded (s : RoundedSum)

namespace RunningSum

/-- The sum as a rounded one. -/
def toRounded : RunningSum → RoundedSum
  | exact n => ⟨Float.ofInt (splitWhole n).1, Float.ofInt (splitWhole n).2⟩
  | rounded s => s

/-- Adds a whole number. -/
def addWhole (s : RunningSum) (n : Int) : RunningSum :=
  match s with
  | exact m =>
    if -Int.pow 2 63 ≤ m + n ∧ m + n < Int.pow 2 63 then exact (m + n)
    else rounded ((exact m).toRounded.addWhole n)
  | rounded t => rounded (t.addWhole n)

/-- Adds a double. -/
def addReal (s : RunningSum) (x : Float) : RunningSum := rounded (s.toRounded.add x)

/-- The sum as a double. What was lost counts unless it has overflowed itself. -/
def toFloat : RunningSum → Float
  | exact n => Float.ofInt n
  | rounded s => if s.lost.isFinite then s.sum + s.lost else s.sum

end RunningSum

end CorpusQuery.Number

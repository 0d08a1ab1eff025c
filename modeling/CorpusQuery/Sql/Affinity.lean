import CorpusQuery.Sql.Datum
import CorpusQuery.Text.Case

/-!
# Affinities

The declared type of a column does not fix the kind of its data, but it draws them towards one:
texts that read as numbers become numbers in a numeric column, and numbers become texts in a textual
one. When a column is compared with a datum of no type, the datum is drawn the same way first.
-/

namespace CorpusQuery.Sql

/-- What the data of a column are drawn towards. -/
inductive Affinity where
  | text
  /-- Numbers, whole ones where they are equal to the number. -/
  | numeric
  /-- Numbers, which are always real. -/
  | real
  /-- Nothing. -/
  | raw
deriving DecidableEq, Repr

namespace Affinity

/-- The affinity of a declared type, which is found by the words in it. -/
def ofType (type : String) : Affinity :=
  let has (word : String) : Bool := Text.contains (Text.asciiLower type) word
  if has "int" then numeric
  else if has "char" || has "clob" || has "text" then text
  else if has "blob" || type.isEmpty then raw
  else if has "real" || has "floa" || has "doub" then real
  else numeric

def isNumeric : Affinity → Bool
  | numeric | real => true
  | text | raw => false

end Affinity

namespace Datum

/-! ## Numbers and texts -/

/-- The number that a text stands for, if it stands for one. -/
def number? (cs : List Char) : Option Datum :=
  let n := Number.Embedded.ofFront cs
  if n.isWholeText then
    some (match n.toInt64? with
      | some i => .int i
      | none => .real n.toFloat)
  else none

/-- A text that stands for a number becomes that number. -/
def numbered : Datum → Datum
  | text s => (number? s.toList).getD (.text s)
  | d => d

/-- A real number that is equal to a whole number inside the 64-bit range becomes that one. -/
def wholeIfEqual : Datum → Datum
  | real x =>
    match Number.exactInt? x with
    | some n => if n.natAbs < Nat.pow 2 63 then .int n else .real x
    | none => .real x
  | d => d

/-- A whole number becomes a real one. -/
def asReal : Datum → Datum
  | int n => .real (Float.ofInt n)
  | d => d

/-- A number becomes a text. -/
def spelled : Datum → Datum
  | int n => .text (toString n)
  | real x => .text (Number.significantText x)
  | d => d

/-! ## Storing -/

/-- The datum as a column of this affinity stores it. -/
def stored (a : Affinity) (d : Datum) : Datum :=
  match a with
  | .text => d.spelled
  | .numeric => d.numbered.wholeIfEqual
  | .real => d.numbered.wholeIfEqual.asReal
  | .raw => d

/-! ## Comparing -/

def isText : Datum → Bool
  | text _ => true
  | _ => false

/-- What two operands are drawn towards before they are compared, where an operand that is no column
has no affinity. Two columns are drawn towards numbers if either is numeric, and else left alone. -/
def commonAffinity : Option Affinity → Option Affinity → Affinity
  | some a, some b => if a.isNumeric || b.isNumeric then .numeric else .raw
  | some a, none | none, some a => a
  | none, none => .raw

/-- Draws two operands. Numbers are spelled out only beside a text. -/
def drawn (a : Affinity) (l r : Datum) : Datum × Datum :=
  if a.isNumeric then (l.numbered, r.numbered)
  else if a = .text ∧ (l.isText || r.isText) then (l.spelled, r.spelled)
  else (l, r)

/-- How two operands compare; nothing compares with a missing datum. -/
def compareAs (a : Affinity) (l r : Datum) : Option Ordering :=
  if l.isNull || r.isNull then none
  else
    let (l, r) := drawn a l r
    some (l.order r)

/-- The truth of membership, which is unknown when it hangs on a missing datum. An empty list has no
members, whatever the datum is. -/
def memberTruth (a : Affinity) (d : Datum) (items : List Datum) : Truth :=
  items.foldr (fun item t ↦ Truth.or ((d.compareAs a item).map (· == .eq)) t) (some false)

/-! ## Lemmas -/

theorem compareAs_null_left (a : Affinity) (r : Datum) : compareAs a .null r = none := rfl

theorem compareAs_null_right (a : Affinity) (l : Datum) : compareAs a l .null = none := by
  cases l <;> rfl

theorem compareAs_text_text (a : Affinity) (ha : a.isNumeric = false) (s t : String) :
    compareAs a (.text s) (.text t) = some (compare s t) := by
  cases a <;> first | rfl | simp [Affinity.isNumeric] at ha

end Datum

end CorpusQuery.Sql

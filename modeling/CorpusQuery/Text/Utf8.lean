/-!
# UTF-8

Bytes are cut into units: characters, and the longest stretches that a character could have begun
with but that no character goes on from. A text is well formed when all its units are characters;
otherwise each bad stretch can be shown as one replacement character.

The units are found by a machine that reads one byte at a time. Between characters it holds nothing;
inside one it holds what the next byte has to be.
-/

namespace CorpusQuery.Text

/-- A character that has begun: its bytes so far, the bits in them, the number of bytes to come and
the range of the next one. -/
structure Begun where
  size : Nat
  bits : Nat
  owed : Nat
  low : Nat := 0x80
  high : Nat := 0xBF
deriving DecidableEq, Repr

/-- A character, or `none` for a bad stretch, and its number of bytes. -/
abbrev Utf8Unit := Option Char × Nat

/-- What the first byte of a unit makes: a whole unit, or a character that has begun. -/
def beginUnit (b : Nat) : Utf8Unit ⊕ Begun :=
  if b < 0x80 then .inl (some (Char.ofNat b), 1)
  else if 0xC2 ≤ b ∧ b ≤ 0xDF then .inr { size := 1, bits := b % 0x20, owed := 1 }
  else if b = 0xE0 then .inr { size := 1, bits := 0, owed := 2, low := 0xA0 }
  else if b = 0xED then .inr { size := 1, bits := 0xD, owed := 2, high := 0x9F }
  else if 0xE1 ≤ b ∧ b ≤ 0xEF then .inr { size := 1, bits := b % 0x10, owed := 2 }
  else if b = 0xF0 then .inr { size := 1, bits := 0, owed := 3, low := 0x90 }
  else if b = 0xF4 then .inr { size := 1, bits := 4, owed := 3, high := 0x8F }
  else if 0xF1 ≤ b ∧ b ≤ 0xF3 then .inr { size := 1, bits := b % 8, owed := 3 }
  else .inl (none, 1)

/-- The units that end with a byte, and the character that goes on behind it. -/
def feedByte (begun : Option Begun) (b : Nat) : List Utf8Unit × Option Begun :=
  let fresh : List Utf8Unit × Option Begun := match beginUnit b with
    | .inl u => ([u], none)
    | .inr next => ([], some next)
  match begun with
  | none => fresh
  | some p =>
    if p.low ≤ b ∧ b ≤ p.high then
      let bits := p.bits * 0x40 + b % 0x40
      if p.owed ≤ 1 then ([(some (Char.ofNat bits), p.size + 1)], none)
      else ([], some { size := p.size + 1, bits, owed := p.owed - 1 })
    else ((none, p.size) :: fresh.1, fresh.2)

/-- The units of a sequence of bytes, some of which may have been read before. -/
def unitsAfter (begun : Option Begun) : List UInt8 → List Utf8Unit
  | [] =>
    match begun with
    | some p => [(none, p.size)]
    | none => []
  | b :: bs =>
    let (units, begun) := feedByte begun b.toNat
    units ++ unitsAfter begun bs

/-- The units of a sequence of bytes. -/
def utf8Units (bytes : List UInt8) : List Utf8Unit := unitsAfter none bytes

/-- The text, or else the number of bytes before the first bad stretch. -/
def decodeUtf8 (bytes : List UInt8) : Except Nat String :=
  let units := utf8Units bytes
  if units.all (·.1.isSome) then .ok (.ofList (units.filterMap (·.1)))
  else .error ((units.takeWhile (·.1.isSome)).foldr (·.2 + ·) 0)

/-- The text with a replacement character for every bad stretch. -/
def decodeLossy (bytes : List UInt8) : String :=
  .ofList ((utf8Units bytes).map fun (c, _) ↦ c.getD '\uFFFD')

end CorpusQuery.Text

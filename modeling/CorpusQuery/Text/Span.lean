/-!
# Places in a text

A place is counted in bytes of the UTF-8 form of a text, while a column is counted in characters.
-/

namespace CorpusQuery.Text

/-- The number of bytes the characters take. -/
def byteLength (cs : List Char) : Nat := cs.foldr (·.utf8Size + ·) 0

/-- Drops characters until `n` bytes are gone. -/
def dropBytes : Nat → List Char → List Char
  | 0, cs => cs
  | _ + 1, [] => []
  | n + 1, c :: cs => dropBytes (n + 1 - c.utf8Size) cs

/-- Takes characters until `n` bytes are taken. -/
def takeBytes : Nat → List Char → List Char
  | 0, _ => []
  | _ + 1, [] => []
  | n + 1, c :: cs => c :: takeBytes (n + 1 - c.utf8Size) cs

/-- The characters between two byte positions. -/
def slice (start stop : Nat) (cs : List Char) : List Char :=
  takeBytes (stop - start) (dropBytes start cs)

@[simp] theorem byteLength_nil : byteLength [] = 0 := rfl

@[simp] theorem byteLength_cons (c : Char) (cs : List Char) :
    byteLength (c :: cs) = c.utf8Size + byteLength cs := rfl

@[simp] theorem byteLength_append (as bs : List Char) :
    byteLength (as ++ bs) = byteLength as + byteLength bs := by
  induction as with
  | nil => simp
  | cons a as ih => simp [ih, Nat.add_assoc]

/-- Dropping the bytes of a character drops the character. -/
theorem dropBytes_utf8Size_add (n : Nat) (c : Char) (cs : List Char) :
    dropBytes (c.utf8Size + n) (c :: cs) = dropBytes n cs := by
  obtain ⟨k, hk⟩ := Nat.exists_eq_add_of_lt c.utf8Size_pos
  rw [show c.utf8Size + n = k + n + 1 by omega, dropBytes,
    show k + n + 1 - c.utf8Size = n by omega]

/-- Taking the bytes of a character takes the character. -/
theorem takeBytes_utf8Size_add (n : Nat) (c : Char) (cs : List Char) :
    takeBytes (c.utf8Size + n) (c :: cs) = c :: takeBytes n cs := by
  obtain ⟨k, hk⟩ := Nat.exists_eq_add_of_lt c.utf8Size_pos
  rw [show c.utf8Size + n = k + n + 1 by omega, takeBytes,
    show k + n + 1 - c.utf8Size = n by omega]

@[simp] theorem dropBytes_byteLength_append (as bs : List Char) :
    dropBytes (byteLength as) (as ++ bs) = bs := by
  induction as with
  | nil => simp [dropBytes]
  | cons a as ih => rw [byteLength_cons, List.cons_append, dropBytes_utf8Size_add, ih]

@[simp] theorem takeBytes_byteLength_append (as bs : List Char) :
    takeBytes (byteLength as) (as ++ bs) = as := by
  induction as with
  | nil => simp [takeBytes]
  | cons a as ih => rw [byteLength_cons, List.cons_append, takeBytes_utf8Size_add, ih]

end CorpusQuery.Text

/-!
# White space

Words and cells are trimmed of every character with the `White_Space` property, not only of the
ASCII ones. The grammar of queries is narrower: it separates words at four characters only, so a
no-break space can sit inside a word and still be trimmed from the text of a clause.
-/

namespace CorpusQuery.Text

/-- The characters with the `White_Space` property. -/
def isBlank (c : Char) : Bool :=
  let n := c.toNat
  (0x9 ≤ n && n ≤ 0xD) || n == 0x20 || n == 0x85 || n == 0xA0 || n == 0x1680 ||
    (0x2000 ≤ n && n ≤ 0x200A) || n == 0x2028 || n == 0x2029 || n == 0x202F || n == 0x205F ||
    n == 0x3000

/-! ## Trimming -/

/-- Drops characters from both ends as long as they satisfy `p`. -/
def dropAround (p : Char → Bool) (cs : List Char) : List Char :=
  ((cs.dropWhile p).reverse.dropWhile p).reverse

/-- Drops the white space around a text. -/
def trimChars (cs : List Char) : List Char := dropAround isBlank cs

end CorpusQuery.Text

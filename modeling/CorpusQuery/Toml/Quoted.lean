/-!
# Quoted texts of a document

A text stands in double quotes, where a backslash escapes, or in single quotes, where nothing does.
Three quotes open a text of several lines: a line end right behind them does not count, every other
one counts as a line feed, and up to two quotes may stand before the closing three.
-/

namespace CorpusQuery.Toml

/-- Whether a character may stand in a text or a comment: control characters may not, except for the
tab. -/
def isTextChar (c : Char) : Bool :=
  c == '\t' || (0x20 ≤ c.toNat && c.toNat ≠ 0x7F)

/-- A text, and what stands behind it. -/
abbrev ReadText := Option (List Char × List Char)

/-- The text with one more character in front. -/
def withChar (c : Char) (r : ReadText) : ReadText := r.map fun (s, rest) ↦ (c :: s, rest)

/-! ## Escapes -/

/-- The character that a backslash and a letter stand for. -/
def escape? (c : Char) : Option Char :=
  match c with
  | 'b' => some '\x08'
  | 't' => some '\t'
  | 'n' => some '\n'
  | 'f' => some '\x0c'
  | 'r' => some '\r'
  | '"' => some '"'
  | '\\' => some '\\'
  | _ => none

/-- The value of a hexadecimal digit. -/
def hexDigit? (c : Char) : Option Nat :=
  if c.isDigit then some (c.toNat - '0'.toNat)
  else if 'a' ≤ c ∧ c ≤ 'f' then some (c.toNat - 'a'.toNat + 10)
  else if 'A' ≤ c ∧ c ≤ 'F' then some (c.toNat - 'A'.toNat + 10)
  else none

/-- The character with a number in hexadecimal digits, if there is one. -/
def charOfHex? (digits : List Char) : Option Char := do
  let n := (← digits.mapM hexDigit?).foldl (fun n d ↦ 16 * n + d) 0
  if n.isValidChar then some (Char.ofNat n) else none

/-! ## Texts of one line -/

/-- The rest of a text in double quotes. -/
def readEscaped : List Char → ReadText
  | [] => none
  | '"' :: cs => some ([], cs)
  | '\\' :: 'u' :: a :: b :: c :: d :: cs => do
    withChar (← charOfHex? [a, b, c, d]) (readEscaped cs)
  | '\\' :: 'U' :: a :: b :: c :: d :: e :: f :: g :: h :: cs => do
    withChar (← charOfHex? [a, b, c, d, e, f, g, h]) (readEscaped cs)
  | '\\' :: c :: cs => do withChar (← escape? c) (readEscaped cs)
  | c :: cs => if c != '\\' && isTextChar c then withChar c (readEscaped cs) else none

/-- The rest of a text in single quotes. -/
def readLiteral : List Char → ReadText
  | [] => none
  | '\'' :: cs => some ([], cs)
  | c :: cs => if isTextChar c then withChar c (readLiteral cs) else none

/-! ## Texts of several lines -/

/-- Drops a line end. -/
def dropLineEnd : List Char → List Char
  | '\n' :: cs => cs
  | '\r' :: '\n' :: cs => cs
  | cs => cs

/-- Whether only blanks stand before the end of the line. -/
def endsLine : List Char → Bool
  | ' ' :: cs => endsLine cs
  | '\t' :: cs => endsLine cs
  | '\n' :: _ => true
  | '\r' :: '\n' :: _ => true
  | _ => false

/-- The rest of a text of several lines in double quotes. A backslash at the end of a line joins it
to the next word, and `joining` is set on the way there. -/
def readEscapedLines (joining : Bool) : List Char → ReadText
  | [] => none
  | '"' :: '"' :: '"' :: '"' :: '"' :: cs => some (['"', '"'], cs)
  | '"' :: '"' :: '"' :: '"' :: cs => some (['"'], cs)
  | '"' :: '"' :: '"' :: cs => some ([], cs)
  | '\\' :: 'u' :: a :: b :: c :: d :: cs => do
    withChar (← charOfHex? [a, b, c, d]) (readEscapedLines false cs)
  | '\\' :: 'U' :: a :: b :: c :: d :: e :: f :: g :: h :: cs => do
    withChar (← charOfHex? [a, b, c, d, e, f, g, h]) (readEscapedLines false cs)
  | '\\' :: c :: cs =>
    if endsLine (c :: cs) then readEscapedLines true (c :: cs)
    else do withChar (← escape? c) (readEscapedLines false cs)
  | '\r' :: '\n' :: cs =>
    if joining then readEscapedLines true cs else withChar '\n' (readEscapedLines false cs)
  | c :: cs =>
    if joining && (c == ' ' || c == '\t' || c == '\n') then readEscapedLines true cs
    else if c == '\n' || c != '\\' && isTextChar c then withChar c (readEscapedLines false cs)
    else none

/-- The rest of a text of several lines in single quotes. -/
def readLiteralLines : List Char → ReadText
  | [] => none
  | '\'' :: '\'' :: '\'' :: '\'' :: '\'' :: cs => some (['\'', '\''], cs)
  | '\'' :: '\'' :: '\'' :: '\'' :: cs => some (['\''], cs)
  | '\'' :: '\'' :: '\'' :: cs => some ([], cs)
  | '\r' :: '\n' :: cs => withChar '\n' (readLiteralLines cs)
  | c :: cs => if c == '\n' || isTextChar c then withChar c (readLiteralLines cs) else none

/-! ## All texts -/

/-- A text of one line, as a key or a value. -/
def readLine? : List Char → ReadText
  | '"' :: cs => readEscaped cs
  | '\'' :: cs => readLiteral cs
  | _ => none

/-- A quoted text. -/
def readQuoted? : List Char → ReadText
  | '"' :: '"' :: '"' :: cs => readEscapedLines false (dropLineEnd cs)
  | '\'' :: '\'' :: '\'' :: cs => readLiteralLines (dropLineEnd cs)
  | cs => readLine? cs

end CorpusQuery.Toml

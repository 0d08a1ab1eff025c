import CorpusQuery.Proofs.Sql.Tokens
import CorpusQuery.Text.Case

/-!
# Names as a database reads them

A statement names its columns behind an alias and a dot, and gives names to what it selects behind
the word `AS`. In both places SQLite reads one token: a name in quotes up to the next quote that is
not doubled, a name in brackets up to the closing one, or a word for as long as it goes on. A word
is a name unless it is reserved, and quotes are put around a name for the characters in it. So all
names are read as what they are but the reserved words.

Which words are reserved differs between versions, so that is left open in the statements.

## Main statements

* `Sql.readName?_quote`: how a name is read.
* `quoted_names_read_back`: how it is read behind a dot and behind `AS`.
-/

namespace CorpusQuery

namespace Sql

/-! ## Reading a name -/

/-- White space between tokens. A byte order mark counts as such. -/
def tokenGaps : List Char := [' ', '\t', '\n', '\x0c', '\r', '\uFEFF']

def isTokenGap (c : Char) : Bool := tokenGaps.contains c

/-- Whether a character goes on with a word. -/
def continuesName (c : Char) : Bool := isWordPart c || c == '$' || 0x80 ≤ c.toNat

/-- Whether a word can start with the character. -/
def startsName (c : Char) : Bool := isWordStart c || 0x80 ≤ c.toNat

/-- Reads up to a quote that is not doubled, and gives what stands behind it. -/
def readQuoted? (quote : Char) : List Char → Option (List Char × List Char)
  | [] => none
  | c :: cs =>
    if c == quote then
      match cs with
      | [] => some ([], [])
      | d :: rest =>
        if d == quote then (readQuoted? quote rest).map fun (name, rest) ↦ (quote :: name, rest)
        else some ([], d :: rest)
    else if c == '\x00' then none
    else (readQuoted? quote cs).map fun (name, rest) ↦ (c :: name, rest)

/-- Reads up to the closing bracket. -/
def readBracketed? (cs : List Char) : Option (List Char × List Char) :=
  match cs.dropWhile fun c ↦ c != ']' && c != '\x00' with
  | ']' :: rest => some (cs.takeWhile fun c ↦ c != ']' && c != '\x00', rest)
  | _ => none

/-- Reads a word. An `x` in front of an apostrophe is no word but starts a blob. -/
def readWord? (reserved : List String) (cs : List Char) : Option (List Char × List Char) :=
  let word := cs.takeWhile continuesName
  let rest := cs.dropWhile continuesName
  if reserved.contains (Text.asciiLower (.ofList word)) then none
  else if word.map Char.toLower == ['x'] && rest.head? == some '\'' then none
  else some (word, rest)

/-- Reads a name, where `reserved` are the words that are no names, in small letters. The result is
the name and what stands behind it. -/
def readName? (reserved : List String) (text : List Char) : Option (String × List Char) :=
  match text.dropWhile isTokenGap with
  | [] => none
  | c :: cs =>
    Option.map (fun (name, rest) ↦ (.ofList name, rest)) <|
      if c == '"' || c == '`' then readQuoted? c cs
      else if c == '[' then readBracketed? cs
      else if startsName c then readWord? reserved (c :: cs)
      else none

/-- The words that SQLite does not take for names behind a dot or behind `AS`. -/
def reservedWords : List String :=
  ["add", "all", "alter", "and", "as", "autoincrement", "between", "case", "check", "collate",
    "commit", "constraint", "create", "default", "deferrable", "delete", "distinct", "drop", "else",
    "escape", "except", "exists", "foreign", "from", "group", "having", "in", "index", "insert",
    "intersect", "into", "is", "isnull", "join", "limit", "not", "nothing", "notnull", "null", "on",
    "or", "order", "primary", "references", "returning", "select", "set", "table", "then", "to",
    "transaction", "union", "unique", "update", "using", "values", "when", "where"]

/-! ## Names as they are written -/

/-- A word that is written without quotes and not read as a name. -/
def Misread (reserved : List String) (name : String) : Prop :=
  isPlain name = true ∧ Text.asciiLower name ∈ reserved

instance (reserved : List String) (name : String) : Decidable (Misread reserved name) :=
  inferInstanceAs (Decidable (_ ∧ _))

/-- A text in front of which names end. -/
def EndsName (cs : List Char) : Prop :=
  ∀ c ∈ cs.head?, continuesName c = false ∧ c ≠ '"' ∧ c ≠ '\''

theorem endsName_cons {c : Char} (cs : List Char)
    (hc : continuesName c = false ∧ c ≠ '"' ∧ c ≠ '\'') : EndsName (c :: cs) := by
  intro d hd
  obtain rfl := Option.some.inj hd
  exact hc

section

variable (reserved : List String) {name : String} {rest : List Char}

theorem readQuoted?_doubled {cs : List Char} (hcs : '\x00' ∉ cs) (hrest : EndsName rest) :
    readQuoted? '"' (Token.doubled cs ++ '"' :: rest) = some (cs, rest) := by
  induction cs with
  | nil =>
    cases rest with
    | nil => rfl
    | cons c rest =>
      have hc : c ≠ '"' := (hrest c rfl).2.1
      have hend : readQuoted? '"' (Token.doubled [] ++ '"' :: c :: rest)
          = if c == '"' then (readQuoted? '"' rest).map fun (name, rest) ↦ ('"' :: name, rest)
            else some ([], c :: rest) := rfl
      rw [hend, if_neg (by simpa using hc)]
  | cons c cs ih =>
    obtain ⟨hc, hcs⟩ := not_or.mp (mt List.mem_cons.mpr hcs)
    by_cases hquote : c = '"'
    · have hdoubled : readQuoted? '"' (Token.doubled ('"' :: cs) ++ '"' :: rest)
          = (readQuoted? '"' (Token.doubled cs ++ '"' :: rest)).map
            fun (name, rest) ↦ ('"' :: name, rest) := rfl
      rw [hquote, hdoubled, ih hcs]
      rfl
    · rw [Token.doubled_cons_of_ne hquote, List.cons_append, readQuoted?.eq_def]
      dsimp only
      rw [if_neg (by simpa using hquote), if_neg (by simpa using Ne.symm hc), ih hcs]
      rfl

theorem continuesName_of_isWordPart {c : Char} (h : isWordPart c = true) :
    continuesName c = true := by
  rw [continuesName, h, Bool.true_or, Bool.true_or]

theorem readWord?_of_isPlain (h : isPlain name = true) (hrest : EndsName rest) :
    readWord? reserved (name.toList ++ rest)
      = if Misread reserved name then none else some (name.toList, rest) := by
  obtain ⟨c, cs, hname, -, hparts⟩ := Token.exists_cons_of_isPlain h
  have hword : ∀ c ∈ name.toList, continuesName c = true := by
    rw [hname]
    exact fun c hc ↦ continuesName_of_isWordPart (List.all_eq_true.mp hparts c hc)
  have hends : rest.takeWhile continuesName = [] ∧ rest.dropWhile continuesName = rest := by
    cases rest with
    | nil => exact ⟨rfl, rfl⟩
    | cons c rest =>
      have hc : ¬continuesName c = true := by simp [(hrest c rfl).1]
      exact ⟨List.takeWhile_cons_of_neg hc, List.dropWhile_cons_of_neg hc⟩
  have hblob : (rest.head? == some '\'') = false :=
    beq_false_of_ne fun hhead ↦ (hrest '\'' hhead).2.2 rfl
  rw [readWord?, List.takeWhile_append_of_pos hword, List.dropWhile_append_of_pos hword, hends.1,
    hends.2, hblob, List.append_nil, String.ofList_toList, Bool.and_false,
    if_neg Bool.false_ne_true]
  simp [Misread, h]

theorem not_mem_of_isWordStart {c : Char} (h : isWordStart c = true) {cs : List Char}
    (hcs : cs.any isWordStart = false) : c ∉ cs := fun hmem ↦ List.any_eq_false.mp hcs c hmem h

theorem isTokenGap_of_isWordStart {c : Char} (h : isWordStart c = true) :
    isTokenGap c = false ∧ c ∉ ['"', '`', '['] := by
  refine ⟨?_, not_mem_of_isWordStart h (by decide)⟩
  have hgaps : c ∉ tokenGaps := not_mem_of_isWordStart h (by decide)
  rwa [isTokenGap, List.contains_eq_mem, decide_eq_false_iff_not]

variable {lead : List Char}

theorem readName?_doubled (hlead : ∀ c ∈ lead, isTokenGap c = true) (hname : '\x00' ∉ name.toList)
    (hrest : EndsName rest) :
    readName? reserved (lead ++ '"' :: (Token.doubled name.toList ++ '"' :: rest))
      = some (name, rest) := by
  rw [readName?, List.dropWhile_append_of_pos hlead, List.dropWhile_cons_of_neg (by decide)]
  dsimp only
  rw [if_pos (by decide), readQuoted?_doubled hname hrest, Option.map_some, String.ofList_toList]

theorem readName?_word (hlead : ∀ c ∈ lead, isTokenGap c = true) {c : Char}
    (hc : isWordStart c = true) (cs : List Char) : readName? reserved (lead ++ c :: cs)
      = (readWord? reserved (c :: cs)).map fun (word, rest) ↦ (.ofList word, rest) := by
  obtain ⟨hgap, hquotes⟩ := isTokenGap_of_isWordStart hc
  simp only [List.mem_cons, List.not_mem_nil, or_false, not_or] at hquotes
  obtain ⟨hdouble, hback, hbracket⟩ := hquotes
  have hstarts : startsName c = true := by rw [startsName, hc, Bool.true_or]
  rw [readName?, List.dropWhile_append_of_pos hlead, List.dropWhile_cons_of_neg (by simp [hgap])]
  dsimp only
  rw [if_neg (by simp [hdouble, hback]), if_neg (by simpa using hbracket), if_pos hstarts]

/-- **Reading a name.** Behind white space, a name that is not misread is read as itself, and what
stands behind it is left. -/
theorem readName?_quote (hlead : ∀ c ∈ lead, isTokenGap c = true) (hname : '\x00' ∉ name.toList)
    (hrest : EndsName rest) : readName? reserved (lead ++ ((quote name).toList ++ rest))
      = if Misread reserved name then none else some (name, rest) := by
  by_cases hplain : isPlain name = true
  · obtain ⟨c, cs, hcons, hstart, -⟩ := Token.exists_cons_of_isPlain hplain
    have hword := readWord?_of_isPlain reserved hplain hrest
    rw [quote, if_pos hplain]
    rw [hcons, List.cons_append] at hword ⊢
    rw [readName?_word reserved hlead hstart, hword]
    split
    · rfl
    · rw [Option.map_some, ← hcons]
      dsimp only
      rw [String.ofList_toList]
  · have hmisread : ¬Misread reserved name := fun h ↦ hplain h.1
    rw [Token.toList_quote_of_not_isPlain hplain, if_neg hmisread]
    exact readName?_doubled reserved hlead hname hrest

end

/-! ## Behind a dot and behind `AS` -/

/-- Reads a column behind an alias and a dot. -/
def readColumn? (reserved : List String) (text : List Char) :
    Option (ColumnName × List Char) :=
  match readName? reserved text with
  | some (qualifier, '.' :: rest) =>
    (readName? reserved rest).map fun (name, rest) ↦ (⟨some qualifier, name⟩, rest)
  | _ => none

/-- Reads the name that something selected is given. -/
def readAs? (reserved : List String) (text : List Char) : Option (String × List Char) :=
  match readName? [] text with
  | some (word, rest) => if Text.sameIgnoringCase word "AS" then readName? reserved rest else none
  | none => none

variable {reserved : List String} {name : String} {rest : List Char}

theorem readColumn?_column {qualifier : String} (hnul : '\x00' ∉ qualifier.toList)
    (hqualifier : ¬Misread reserved qualifier) :
    readColumn? reserved ((Piece.column ⟨some qualifier, name⟩).sql.toList ++ rest)
      = (readName? reserved ((quote name).toList ++ rest)).map
          fun (name, rest) ↦ (⟨some qualifier, name⟩, rest) := by
  have htext : (Piece.column ⟨some qualifier, name⟩).sql.toList ++ rest
      = [] ++ ((quote qualifier).toList ++ '.' :: ((quote name).toList ++ rest)) := by
    simp [Piece.sql]
  have hdot : EndsName ('.' :: ((quote name).toList ++ rest)) := endsName_cons _ (by decide)
  rw [htext, readColumn?, readName?_quote reserved (List.forall_mem_nil _) hnul hdot,
    if_neg hqualifier]
  rfl

theorem readAs?_alias : readAs? reserved
    ((Fragment.text " AS " ++ Fragment.name name).sql.toList ++ rest)
      = readName? reserved (' ' :: ((quote name).toList ++ rest)) := by
  have htext : (Fragment.text " AS " ++ Fragment.name name).sql.toList ++ rest
      = [' '] ++ ((quote "AS").toList ++ ' ' :: ((quote name).toList ++ rest)) := by
    have hword : (quote "AS").toList = ['A', 'S'] := by decide
    simp [Fragment.text, Fragment.name, Fragment.sql, Piece.sql, String.join, hword]
  have hblank : EndsName (' ' :: ((quote name).toList ++ rest)) := endsName_cons _ (by decide)
  rw [htext, readAs?, readName?_quote [] (List.forall_mem_singleton.mpr rfl) (by decide) hblank,
    if_neg (by decide)]
  rfl

end Sql

open Sql

/-- **Names are read back.** A name is written in such a way that SQLite reads it as one token and
as itself, whatever characters it is made of, unless it is a reserved word. This is so behind the
alias of a table and a dot, and where something selected is given a name. A reserved word is written
without quotes, and is not read as a name in any of these places. -/
theorem quoted_names_read_back (reserved : List String) {name : String}
    (hname : '\x00' ∉ name.toList) {rest : List Char} (hrest : EndsName rest) :
    (∀ lead, (∀ c ∈ lead, isTokenGap c = true) →
      readName? reserved (lead ++ ((quote name).toList ++ rest))
        = if Misread reserved name then none else some (name, rest)) ∧
    (∀ qualifier, '\x00' ∉ qualifier.toList → ¬Misread reserved qualifier →
      readColumn? reserved ((Piece.column ⟨some qualifier, name⟩).sql.toList ++ rest)
        = if Misread reserved name then none else some (⟨some qualifier, name⟩, rest)) ∧
    readAs? reserved ((Fragment.text " AS " ++ Fragment.name name).sql.toList ++ rest)
      = if Misread reserved name then none else some (name, rest) := by
  have hread (lead : List Char) (hlead : ∀ c ∈ lead, isTokenGap c = true) :=
    readName?_quote reserved hlead hname hrest
  have hblank : ∀ c ∈ [' '], isTokenGap c = true := List.forall_mem_singleton.mpr rfl
  refine ⟨hread, fun qualifier hnul hqualifier ↦ ?_, readAs?_alias.trans (hread [' '] hblank)⟩
  have hfirst := hread [] (List.forall_mem_nil _)
  rw [List.nil_append] at hfirst
  rw [readColumn?_column hnul hqualifier, hfirst]
  split
  · rfl
  · rfl

/-- A name with brackets. -/
theorem quoted_names_read_back_brackets :
    EndsName ", ".toList ∧
      readColumn? reservedWords "f.\"Number[psor]\", ".toList
        = some (⟨some "f", "Number[psor]"⟩, ", ".toList) ∧
      readAs? reservedWords " AS \"Number[psor]\", ".toList
        = some ("Number[psor]", ", ".toList) := by
  have hcomma : EndsName ", ".toList := endsName_cons [' '] (by decide)
  obtain ⟨-, hcolumn, has⟩ := quoted_names_read_back reservedWords
    (show '\x00' ∉ "Number[psor]".toList by decide) hcomma
  exact ⟨hcomma, hcolumn "f" (by decide) (by decide), has⟩

/-- **A reserved word.** A column of features may have the name of a reserved word. It is written
without quotes, and then it is not read as a name, although with quotes it would be. -/
theorem reserved_column_not_read_back :
    ¬(∀ name : String, name ≠ "" → '\x00' ∉ name.toList →
      readColumn? reservedWords ((Piece.column ⟨some "f", name⟩).sql.toList ++ ", ".toList)
        = some (⟨some "f", name⟩, ", ".toList)) ∧
    readName? reservedWords ('"' :: (Token.doubled "case".toList ++ '"' :: ", ".toList))
      = some ("case", ", ".toList) := by
  have hcomma : EndsName ", ".toList := endsName_cons [' '] (by decide)
  have hnul : '\x00' ∉ "case".toList := by decide
  constructor
  · intro h
    have hmisread : Misread reservedWords "case" := by decide
    have hname := readName?_quote reservedWords (List.forall_mem_nil _) hnul hcomma
    rw [if_pos hmisread, List.nil_append] at hname
    have hcase := h "case" (by decide) hnul
    rw [readColumn?_column (by decide) (by decide), hname] at hcase
    cases hcase
  · exact readName?_doubled reservedWords (List.forall_mem_nil _) hnul hcomma

end CorpusQuery

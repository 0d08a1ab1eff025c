import CorpusQuery.Sql.Fragment

/-!
# The tokens of a condition

The text of a condition is read in two steps, and the first one cuts it into tokens, one character
after another. A word goes on as long as its characters do, a name in quotes up to a quote that is
not doubled, and a sign may be followed by a second one. Nothing but these, placeholders and
punctuation occurs in conditions; all else becomes tokens that no condition is read from.

Fragments are put together piece by piece, and so are their tokens, as long as no piece flows into
the next one. Words and names in quotes are the only pieces that could. So we say of a fragment that
it can be tokenized before every text that stops a word, or before every text whatever.
-/

namespace CorpusQuery.Sql

/-- The tokens that conditions are made of. -/
inductive Token where
  | word (s : String)
  | quoted (s : String)
  | placeholder
  | dot
  | comma
  | opening
  | closing
  | comparison (op : BinaryOp)
  /-- A character that no condition has. -/
  | other (c : Char)
deriving DecidableEq, Repr

namespace Token

/-- What is known of the token that is being read. -/
inductive Pending where
  | nothing
  /-- The characters of a word, the last one first. -/
  | word (cs : List Char)
  /-- The characters of a name in quotes, the last one first. -/
  | quoted (cs : List Char)
  /-- The same, and a quote, which ends the name unless it is doubled. -/
  | quoteMet (cs : List Char)
  /-- A sign that another one may follow. -/
  | sign (c : Char)
deriving DecidableEq, Repr

/-! ## Tokenizing -/

/-- The token of one sign. -/
def ofSign : Char → Token
  | '=' => comparison .eq
  | '<' => comparison .lt
  | '>' => comparison .gt
  | c => other c

/-- The token of two signs. -/
def ofSigns? : Char → Char → Option Token
  | '=', '=' => some (comparison .eq)
  | '!', '=' => some (comparison .ne)
  | '<', '>' => some (comparison .ne)
  | '<', '=' => some (comparison .le)
  | '>', '=' => some (comparison .ge)
  | _, _ => none

/-- The token that ends here, if one is being read. -/
def Pending.finish : Pending → List Token
  | nothing => []
  | word cs => [.word (.ofList cs.reverse)]
  | quoted _ => [other '"']
  | quoteMet cs => [.quoted (.ofList cs.reverse)]
  | sign c => [ofSign c]

/-- A character that is not part of a word, while no token is being read. -/
def punctuation : Char → List Token × Pending
  | ' ' | '\t' | '\n' | '\r' => ([], .nothing)
  | '"' => ([], .quoted [])
  | '=' => ([], .sign '=')
  | '!' => ([], .sign '!')
  | '<' => ([], .sign '<')
  | '>' => ([], .sign '>')
  | '?' => ([placeholder], .nothing)
  | '.' => ([dot], .nothing)
  | ',' => ([comma], .nothing)
  | '(' => ([opening], .nothing)
  | ')' => ([closing], .nothing)
  | c => ([other c], .nothing)

/-- A character while no token is being read. -/
def begin (c : Char) : List Token × Pending :=
  if isWordStart c then ([], .word [c]) else punctuation c

/-- A character that is not part of the token that is being read. -/
def beginAfter (p : Pending) (c : Char) : List Token × Pending :=
  (p.finish ++ (begin c).1, (begin c).2)

/-- One more character: the tokens that end with it, and what is being read then. -/
def step (p : Pending) (c : Char) : List Token × Pending :=
  match p with
  | .nothing => begin c
  | .word cs => if isWordPart c then ([], .word (c :: cs)) else beginAfter p c
  | .quoted cs => if c == '"' then ([], .quoteMet cs) else ([], .quoted (c :: cs))
  | .quoteMet cs => if c == '"' then ([], .quoted (c :: cs)) else beginAfter p c
  | .sign s =>
    match ofSigns? s c with
    | some t => ([t], .nothing)
    | none => beginAfter p c

/-- The tokens of a text, in the middle of one. -/
def scan (p : Pending) : List Char → List Token
  | [] => p.finish
  | c :: cs => (step p c).1 ++ scan (step p c).2 cs

/-- The tokens of a text. -/
def ofText (s : String) : List Token := scan .nothing s.toList

/-- The token of a name, as the name is written. -/
def ofName (name : String) : Token := if isPlain name then word name else quoted name

/-! ## Words and names -/

/-- A text in front of which words and names in quotes end. -/
def Stops (cs : List Char) : Prop := ∀ c ∈ cs.head?, isWordPart c = false ∧ c ≠ '"'

theorem stops_nil : Stops [] := fun _ h ↦ nomatch h

theorem stops_cons {c : Char} (cs : List Char) (hc : isWordPart c = false) (hquote : c ≠ '"') :
    Stops (c :: cs) := by
  intro d hd
  obtain rfl := Option.some.inj hd
  exact ⟨hc, hquote⟩

theorem scan_beginAfter (p : Pending) {c : Char} (h : step p c = beginAfter p c) (cs : List Char) :
    scan p (c :: cs) = p.finish ++ scan .nothing (c :: cs) := by
  rw [scan, h, scan, beginAfter, List.append_assoc]
  rfl

theorem scan_word {cs : List Char} (hcs : cs.all isWordPart = true) (read : List Char)
    {rest : List Char} (hrest : Stops rest) :
    scan (.word read) (cs ++ rest) = word (.ofList (read.reverse ++ cs)) :: scan .nothing rest := by
  induction cs generalizing read with
  | nil =>
    rw [List.nil_append, List.append_nil]
    cases rest with
    | nil => rfl
    | cons c rest =>
      have hc : isWordPart c = false := (hrest c rfl).1
      exact scan_beginAfter (.word read) (by rw [step, if_neg (by simp [hc])]) rest
  | cons c cs ih =>
    rw [List.all_cons, Bool.and_eq_true] at hcs
    rw [List.cons_append, scan, step, if_pos hcs.1, ih hcs.2]
    simp

theorem exists_cons_of_isPlain {name : String} (h : isPlain name = true) :
    ∃ c cs, name.toList = c :: cs ∧ isWordStart c = true ∧ (c :: cs).all isWordPart = true := by
  rw [isPlain] at h
  cases hname : name.toList with
  | nil =>
    rw [hname] at h
    cases h
  | cons c cs =>
    rw [hname] at h
    exact ⟨c, cs, rfl, (Bool.and_eq_true _ _).mp h⟩

theorem scan_of_isPlain {name : String} (h : isPlain name = true) {rest : List Char}
    (hrest : Stops rest) :
    scan .nothing (name.toList ++ rest) = word name :: scan .nothing rest := by
  obtain ⟨c, cs, hname, hstart, hparts⟩ := exists_cons_of_isPlain h
  rw [List.all_cons, Bool.and_eq_true] at hparts
  rw [hname, List.cons_append, scan, step, begin, if_pos hstart, scan_word hparts.2 [c] hrest]
  rw [List.reverse_singleton, List.singleton_append, ← hname, String.ofList_toList]
  rfl

/-- The characters of a name in quotes, with the quotes among them doubled. -/
def doubled (cs : List Char) : List Char := cs.flatMap fun c ↦ if c == '"' then ['"', '"'] else [c]

theorem doubled_cons_of_ne {c : Char} (h : c ≠ '"') (cs : List Char) :
    doubled (c :: cs) = c :: doubled cs := by simp [doubled, h]

theorem scan_doubled (cs read : List Char) {rest : List Char} (hrest : Stops rest) :
    scan (.quoted read) (doubled cs ++ '"' :: rest)
      = quoted (.ofList (read.reverse ++ cs)) :: scan .nothing rest := by
  induction cs generalizing read with
  | nil =>
    rw [List.append_nil]
    have hend : scan (.quoted read) (doubled [] ++ '"' :: rest) = scan (.quoteMet read) rest := rfl
    rw [hend]
    cases rest with
    | nil => rfl
    | cons c rest =>
      have hc : c ≠ '"' := (hrest c rfl).2
      exact scan_beginAfter (.quoteMet read) (by rw [step, if_neg (by simpa using hc)]) rest
  | cons c cs ih =>
    have hread : quoted (.ofList (read.reverse ++ c :: cs))
        = quoted (.ofList ((c :: read).reverse ++ cs)) := by simp
    rw [hread, ← ih (c :: read)]
    by_cases hc : c = '"'
    · rw [hc]
      rfl
    · rw [doubled_cons_of_ne hc, List.cons_append, scan, step, if_neg (by simpa using hc)]
      rfl

theorem toList_quote_of_not_isPlain {name : String} (h : ¬isPlain name = true) (rest : List Char) :
    (quote name).toList ++ rest = '"' :: (doubled name.toList ++ '"' :: rest) := by
  rw [quote, if_neg h]
  simp [Text.substitute, doubled]

/-- **Names.** A name is written as one token. -/
theorem scan_quote (name : String) {rest : List Char} (hrest : Stops rest) :
    scan .nothing ((quote name).toList ++ rest) = ofName name :: scan .nothing rest := by
  rw [ofName]
  by_cases hplain : isPlain name = true
  · rw [quote, if_pos hplain, if_pos hplain]
    exact scan_of_isPlain hplain hrest
  · rw [toList_quote_of_not_isPlain hplain, if_neg hplain]
    refine (scan_doubled name.toList [] hrest).trans ?_
    rw [List.reverse_nil, List.nil_append, String.ofList_toList]

end Token

/-! ## Pieces and fragments -/

open Sql.Token (Stops scan)

/-- The tokens of an operator. -/
def BinaryOp.tokens : BinaryOp → List Token
  | and => [.word "AND"]
  | or => [.word "OR"]
  | like => [.word "LIKE"]
  | notLike => [.word "NOT", .word "LIKE"]
  | glob => [.word "GLOB"]
  | op => [.comparison op]

/-- The tokens of a piece. -/
def Piece.tokens : Piece → List Token
  | text s => Token.ofText s
  | column ⟨some qualifier, name⟩ => [.ofName qualifier, .dot, .ofName name]
  | column ⟨none, name⟩ => [.ofName name]
  | bound _ => [.placeholder]

namespace Fragment

/-- The tokens of a fragment, piece by piece. -/
def tokens (f : Fragment) : List Token := f.flatMap Piece.tokens

@[simp] theorem tokens_append (f g : Fragment) : tokens (f ++ g) = tokens f ++ tokens g :=
  List.flatMap_append

/-- The text of the fragment has its tokens before every text that satisfies a condition. -/
def TokenizesBefore (P : List Char → Prop) (f : Fragment) : Prop :=
  ∀ rest, P rest → scan .nothing (f.sql.toList ++ rest) = f.tokens ++ scan .nothing rest

/-- The text of the fragment has its tokens before every text that stops a word. -/
def Tokenizes (f : Fragment) : Prop := f.TokenizesBefore Stops

/-- The text of the fragment has its tokens whatever follows it. -/
def Closed (f : Fragment) : Prop := f.TokenizesBefore fun _ ↦ True

theorem Closed.tokenizes {f : Fragment} (h : f.Closed) : f.Tokenizes := fun rest _ ↦ h rest trivial

theorem Closed.append {P : List Char → Prop} {f g : Fragment} (hf : f.Closed)
    (hg : g.TokenizesBefore P) : TokenizesBefore P (f ++ g) := by
  intro rest hrest
  rw [sql_append, String.toList_append, List.append_assoc, hf _ trivial, hg rest hrest,
    tokens_append, List.append_assoc]

theorem Tokenizes.ofText_sql {f : Fragment} (h : f.Tokenizes) : Token.ofText f.sql = f.tokens := by
  have hall := h [] Token.stops_nil
  rw [List.append_nil] at hall
  rw [Token.ofText, hall]
  exact List.append_nil _

theorem tokenizes_nil : Tokenizes [] := fun _ _ ↦ rfl

theorem tokenizes_column (c : ColumnName) : Tokenizes [.column c] := by
  intro rest hrest
  rcases c with ⟨_ | qualifier, name⟩
  · have hsql : sql [.column ⟨none, name⟩] = quote name := by simp [sql, Piece.sql, String.join]
    rw [hsql, Token.scan_quote name hrest]
    rfl
  · have hsql : (sql [.column ⟨some qualifier, name⟩]).toList ++ rest
        = (quote qualifier).toList ++ '.' :: ((quote name).toList ++ rest) := by
      simp [sql, Piece.sql, String.join]
    have hdot : scan .nothing ('.' :: ((quote name).toList ++ rest))
        = .dot :: scan .nothing ((quote name).toList ++ rest) := rfl
    rw [hsql, Token.scan_quote qualifier (Token.stops_cons _ (by decide) (by decide)), hdot,
      Token.scan_quote name hrest]
    rfl

@[simp] theorem sql_singleton (p : Piece) : sql [p] = p.sql := by simp [sql, String.join]

theorem closed_bound (v : Value) : Closed [.bound v] := by
  intro rest _
  have hsql : (sql [.bound v]).toList = ['?'] := by
    rw [sql_singleton, Piece.sql, placeholder]
    decide
  rw [hsql]
  rfl

theorem closed_text {s : String}
    (h : ∀ rest, scan .nothing (s.toList ++ rest) = Token.ofText s ++ scan .nothing rest) :
    Closed (text s) := by
  intro rest _
  have htokens : tokens (text s) = Token.ofText s := List.append_nil _
  rw [text, sql_singleton, Piece.sql, ← text, htokens]
  exact h rest

/-! ### Separators -/

/-- A fragment that ends what stands before it and does not touch what stands behind it. -/
structure Separates (f : Fragment) : Prop where
  closed : f.Closed
  stops : ∀ rest, Stops (f.sql.toList ++ rest)

theorem Tokenizes.separated {f g : Fragment} (hf : f.Tokenizes) (hg : g.Separates) :
    (f ++ g).Closed := by
  intro rest _
  rw [sql_append, String.toList_append, List.append_assoc, hf _ (hg.stops rest),
    hg.closed rest trivial, tokens_append, List.append_assoc]

theorem separates_text {s : String}
    (hscan : ∀ rest, scan .nothing (s.toList ++ rest) = Token.ofText s ++ scan .nothing rest)
    (hstops : ∀ rest, Stops (s.toList ++ rest)) : (text s).Separates := by
  refine ⟨closed_text hscan, fun rest ↦ ?_⟩
  rw [text, sql_singleton]
  exact hstops rest

theorem separates_opening : (text "(").Separates :=
  separates_text (fun _ ↦ rfl) fun rest ↦ Token.stops_cons rest (by decide) (by decide)

theorem separates_closing : (text ")").Separates :=
  separates_text (fun _ ↦ rfl) fun rest ↦ Token.stops_cons rest (by decide) (by decide)

theorem separates_comma : (text ", ").Separates :=
  separates_text (fun _ ↦ rfl) fun rest ↦ Token.stops_cons (' ' :: rest) (by decide) (by decide)

theorem separates_operator (op : BinaryOp) : (text (" " ++ op.text ++ " ")).Separates := by
  have hblank (cs : List Char) : Stops (' ' :: cs) := Token.stops_cons cs (by decide) (by decide)
  apply separates_text
  · cases op <;> exact fun _ ↦ rfl
  · intro rest
    rw [String.append_assoc, String.toList_append]
    exact hblank _

theorem separates_membership (negated : Bool) :
    (text (if negated then " NOT IN(" else " IN(")).Separates := by
  have hblank (cs : List Char) : Stops (' ' :: cs) := Token.stops_cons cs (by decide) (by decide)
  cases negated with
  | false => exact separates_text (fun _ ↦ rfl) fun _ ↦ hblank _
  | true => exact separates_text (fun _ ↦ rfl) fun _ ↦ hblank _

theorem tokens_operator (op : BinaryOp) : tokens (text (" " ++ op.text ++ " ")) = op.tokens := by
  cases op <;> decide

theorem tokens_membership (negated : Bool) :
    tokens (text (if negated then " NOT IN(" else " IN("))
      = (if negated then [.word "NOT"] else []) ++ [.word "IN", .opening] := by
  cases negated <;> decide

/-! ### Lists and functions -/

theorem closed_parens {f : Fragment} (h : f.Tokenizes) : (parens f).Closed :=
  Tokenizes.separated (separates_opening.closed.append h) separates_closing

theorem tokens_parens (f : Fragment) :
    tokens (parens f) = .opening :: (tokens f ++ [.closing]) := by
  rw [parens, tokens_append, tokens_append, List.append_assoc]
  rfl

theorem tokenizes_commas {fs : List Fragment} (h : ∀ f ∈ fs, f.Tokenizes) :
    (commas fs).Tokenizes := by
  match fs with
  | [] => exact tokenizes_nil
  | [f] => exact h f (List.mem_singleton_self f)
  | f :: next :: fs =>
    have hrest : (commas (next :: fs)).Tokenizes :=
      tokenizes_commas fun g hg ↦ h g (List.mem_cons_of_mem f hg)
    exact ((h f List.mem_cons_self).separated separates_comma).append hrest

theorem tokens_word {s : String} (h : isPlain s = true) : tokens (text s) = [.word s] := by
  have hword := Token.scan_of_isPlain h Token.stops_nil
  rw [List.append_nil] at hword
  exact (List.append_nil _).trans hword

theorem tokenizes_word {s : String} (h : isPlain s = true) : Tokenizes (text s) := by
  intro rest hrest
  have hsql : sql (text s) = s := sql_singleton _
  rw [tokens_word h, hsql]
  exact Token.scan_of_isPlain h hrest

end Fragment

end CorpusQuery.Sql

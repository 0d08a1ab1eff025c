import CorpusQuery.Proofs.Query.OneClause
import Mathlib.Data.List.Forall2
import Mathlib.Logic.Relation

/-!
# Spellings of a clause

The same clause can be written in several ways. Letter case does not matter in the words of the
language and in the names of fields, a field may go by a short form, two comparators have a second
spelling, and `notin` may be written as two words. One such change gives a relation between lists of
words, and the chains of changes, back and forth, are its equivalence closure.

Clauses of three words and of four are read by different functions, which make their checks in
different orders, and the clauses for `top` and for compound words are told apart before that. So a
change can take a clause from one function to another. What it cannot change is the part that the
clause is read as, or the kind of error that it is refused with. The words an error names do change,
since errors quote what was written.

## Main statements

* `Query.readAlike_of_change`: one change leaves the outcome of a clause alone.
* `Query.readAlike_of_respelled`: so does a chain of them.
* `respelled_clauses_read_alike`: whole queries whose clauses are spelled differently.
-/

open Relation (EqvGen)

namespace CorpusQuery

/-! ## Outcomes -/

/-- What is wrong with a clause, whichever words it is wrong with. -/
inductive ClauseError.Kind where
  | unknownField
  | illegalComparator
  | notANumber
  | emptySet
  | invalidTop
  | invalidPart
deriving DecidableEq, Repr

def ClauseError.kind : ClauseError → Kind
  | unknownField _ => .unknownField
  | illegalComparator _ _ => .illegalComparator
  | notANumber _ _ => .notANumber
  | emptySet _ => .emptySet
  | invalidTop _ => .invalidTop
  | invalidPart _ => .invalidPart

/-- The same result, or an error of the same kind. -/
def ReadAlike {α : Type} (x y : Except ClauseError α) : Prop :=
  x.mapError ClauseError.kind = y.mapError ClauseError.kind

namespace ReadAlike

variable {α β : Type} {x y z : Except ClauseError α}

theorem refl (x : Except ClauseError α) : ReadAlike x x := rfl

theorem symm (h : ReadAlike x y) : ReadAlike y x := Eq.symm h

theorem trans (h : ReadAlike x y) (h' : ReadAlike y z) : ReadAlike x z := Eq.trans h h'

theorem error {e e' : ClauseError} (h : e.kind = e'.kind) :
    ReadAlike (.error e : Except ClauseError α) (.error e') := congrArg Except.error h

/-- Results are the same, and so are kinds of errors. -/
theorem cases (h : ReadAlike x y) :
    (∃ a, x = .ok a ∧ y = .ok a) ∨ ∃ e e', x = .error e ∧ y = .error e' ∧ e.kind = e'.kind := by
  cases x with
  | error e =>
    cases y with
    | error e' => exact .inr ⟨e, e', rfl, rfl, Except.error.inj h⟩
    | ok b => cases h
  | ok a =>
    cases y with
    | error e' => cases h
    | ok b =>
      obtain rfl := Except.ok.inj h
      exact .inl ⟨a, rfl, rfl⟩

theorem bind (h : ReadAlike x y) {f g : α → Except ClauseError β}
    (hfg : ∀ a, ReadAlike (f a) (g a)) : ReadAlike (x >>= f) (y >>= g) := by
  rcases h.cases with ⟨a, rfl, rfl⟩ | ⟨e, e', rfl, rfl, hkind⟩
  · exact hfg a
  · exact error hkind

end ReadAlike

/-! ## Changes of spelling -/

namespace Comparator

/-- Another spelling of a comparator that is one word. -/
inductive Respelled : String → String → Prop
  | letters {s s' : String} (h : Text.asciiLower s = Text.asciiLower s') : Respelled s s'
  | equal : Respelled "=" "=="
  | notEqual : Respelled "!=" "<>"

theorem read?_congr {s s' : String} (h : Text.asciiLower s = Text.asciiLower s') :
    read? s = read? s' := by
  rw [read?.eq_def, read?.eq_def, h]

theorem readPair?_congr {s s' t t' : String} (hs : Text.asciiLower s = Text.asciiLower s')
    (ht : Text.asciiLower t = Text.asciiLower t') : readPair? s t = readPair? s' t' := by
  rw [readPair?.eq_def, readPair?.eq_def, Text.sameIgnoringCase, Text.sameIgnoringCase, hs, ht]

theorem Respelled.read?_eq {s s' : String} (h : Respelled s s') : read? s = read? s' := by
  cases h with
  | letters h => exact read?_congr h
  | equal => rfl
  | notEqual => rfl

theorem readPair?_eq_of_notIn {spelling first second : String}
    (hspelling : Text.asciiLower spelling = "notin") (hfirst : Text.asciiLower first = "not")
    (hsecond : Text.asciiLower second = "in") :
    read? spelling = some .notIn ∧ readPair? first second = some .notIn := by
  have hword : Text.asciiLower "notin" = "notin" := by decide
  have hnot : Text.asciiLower "not" = "not" := by decide
  have hin : Text.asciiLower "in" = "in" := by decide
  rw [read?_congr (hspelling.trans hword.symm),
    readPair?_congr (hfirst.trans hnot.symm) (hsecond.trans hin.symm)]
  exact ⟨rfl, rfl⟩

end Comparator

namespace Query

/-- One change in how a clause is spelled. -/
inductive Change : List String → List String → Prop
  /-- The letter case of a clause that is one word, such as `compound`. -/
  | only {word word' : String} (h : Text.asciiLower word = Text.asciiLower word') :
    Change [word] [word']
  /-- The letter case of the first of two words, such as `top` or `not`. -/
  | first {word word' : String} (h : Text.asciiLower word = Text.asciiLower word')
    (second : String) : Change [word, second] [word', second]
  /-- The letter case of what stands behind `not`, such as `compound`. -/
  | behindNot {word second second' : String} (hword : Text.asciiLower word = "not")
    (h : Text.asciiLower second = Text.asciiLower second') :
    Change [word, second] [word, second']
  /-- Another spelling of the field: another letter case, or a short form. -/
  | field {word word' : String} (h : Catalog.resolve word = Catalog.resolve word')
    (spelling raw : String) : Change [word, spelling, raw] [word', spelling, raw]
  /-- The same in front of a comparator of two words. -/
  | fieldOfPair {word word' : String} (h : Catalog.resolve word = Catalog.resolve word')
    (first second raw : String) : Change [word, first, second, raw] [word', first, second, raw]
  | comparator {spelling spelling' : String} (h : Comparator.Respelled spelling spelling')
    (word raw : String) : Change [word, spelling, raw] [word, spelling', raw]
  /-- The letter case of a comparator of two words. -/
  | pair {first first' second second' : String}
    (hfirst : Text.asciiLower first = Text.asciiLower first')
    (hsecond : Text.asciiLower second = Text.asciiLower second') (word raw : String) :
    Change [word, first, second, raw] [word, first', second', raw]
  /-- Two words in place of `notin`. -/
  | notIn {spelling first second : String} (hspelling : Text.asciiLower spelling = "notin")
    (hfirst : Text.asciiLower first = "not") (hsecond : Text.asciiLower second = "in")
    (word raw : String) : Change [word, spelling, raw] [word, first, second, raw]

/-- Two spellings of a clause: some chain of changes leads from the one to the other. -/
def Respelled : List String → List String → Prop := EqvGen Change

/-! ## One change -/

section

variable {catalog : Catalog} {totals : Totals} {f : Field} {c : Comparator}
  {word word' raw : String}

theorem readAlike_readText :
    ReadAlike (readText word c raw) (readText word' c raw) := by
  rw [readText, readText]
  by_cases hc : c.isSet = true
  · rw [if_pos hc, if_pos hc]
    cases readItems raw.toList with
    | nil => exact .error rfl
    | cons item items => exact .refl _
  · rw [if_neg hc, if_neg hc]
    exact .refl _

theorem readAlike_readNumber : ReadAlike (readNumber word raw) (readNumber word' raw) := by
  rw [readNumber, readNumber]
  cases (Number.readFloat? (unquote raw.toList)).filter Float.isFinite with
  | none => exact .error rfl
  | some x => exact .refl _

/-- The word for a field is only quoted in errors. -/
theorem readAlike_readPredicate :
    ReadAlike (readPredicate totals word f c raw) (readPredicate totals word' f c raw) := by
  rw [readPredicate.eq_def, readPredicate.eq_def]
  cases f.kind with
  | numeric => exact readAlike_readNumber.bind fun _ ↦ .refl _
  | positional position => exact readAlike_readText.bind fun _ ↦ .refl _
  | text => exact readAlike_readText.bind fun _ ↦ .refl _
  | feature matching => exact readAlike_readText.bind fun _ ↦ .refl _
  | boolean => exact .error rfl

theorem readAlike_lookupField (h : Catalog.resolve word = Catalog.resolve word') :
    ReadAlike (lookupField catalog word) (lookupField catalog word') := by
  have hlookup : catalog.lookup? word = catalog.lookup? word' := congrArg catalog.get? h
  rw [lookupField, lookupField, hlookup]
  cases catalog.lookup? word' with
  | none => exact .error rfl
  | some f => exact .refl _

theorem readAlike_allowedComparator {spelling spelling' : String} (c : Option Comparator) :
    ReadAlike (allowedComparator f word spelling c) (allowedComparator f word' spelling' c) := by
  rw [allowedComparator, allowedComparator]
  cases c.filter f.allows with
  | none => exact .error rfl
  | some c => exact .refl _

/-- A clause that compares a field with a value, once its comparator is known. -/
def readComparison (catalog : Catalog) (totals : Totals) (word spelling : String)
    (c : Option Comparator) (raw : String) : Except ClauseError Part := do
  let f ← lookupField catalog word
  let c ← allowedComparator f word spelling c
  return .predicate (← readPredicate totals word f c raw)

/-- All that matters of a comparison are the field that its word stands for, the comparator and the
value. -/
theorem readAlike_readComparison (h : Catalog.resolve word = Catalog.resolve word')
    (spelling spelling' : String) (c : Option Comparator) :
    ReadAlike (readComparison catalog totals word spelling c raw)
      (readComparison catalog totals word' spelling' c raw) := by
  refine (readAlike_lookupField h).bind fun f ↦ ?_
  refine (readAlike_allowedComparator c).bind fun c ↦ ?_
  exact readAlike_readPredicate.bind fun _ ↦ .refl _

theorem readSimple_eq (spelling : String) : readSimple catalog totals word spelling raw
    = readComparison catalog totals word spelling (Comparator.read? spelling) raw := rfl

theorem readPaired_of_readPair? {text first second : String}
    (h : Comparator.readPair? first second = some c) :
    readPaired catalog totals text word first second raw
      = readComparison catalog totals word (first ++ " " ++ second) (some c) raw := by
  rw [readPaired, h]
  rfl

theorem readAlike_readPaired {text text' first first' second second' : String}
    (hfield : Catalog.resolve word = Catalog.resolve word')
    (hpair : Comparator.readPair? first second = Comparator.readPair? first' second') :
    ReadAlike (readPaired catalog totals text word first second raw)
      (readPaired catalog totals text' word' first' second' raw) := by
  cases h : Comparator.readPair? first' second' with
  | none =>
    rw [readPaired, readPaired, hpair, h]
    exact .error rfl
  | some c =>
    rw [readPaired_of_readPair? (hpair.trans h), readPaired_of_readPair? h]
    exact readAlike_readComparison hfield _ _ _

end

variable {catalog : Catalog} {totals : Totals} {text text' : String}

theorem readAlike_invalidPart : ReadAlike (.error (.invalidPart text) : Except ClauseError Part)
    (.error (.invalidPart text')) := .error rfl

theorem readAlike_readWords_text (ws : List String) :
    ReadAlike (readWords catalog totals text ws) (readWords catalog totals text' ws) := by
  match ws with
  | [] => exact readAlike_invalidPart
  | [word] =>
    rw [readWords, readWords]
    split
    · exact .refl _
    · exact readAlike_invalidPart
  | [first, second] =>
    rw [readWords, readWords]
    split
    · exact .refl _
    · split
      · exact .refl _
      · exact readAlike_invalidPart
  | [_, _, _] => exact .refl _
  | [_, _, _, _] => exact readAlike_readPaired rfl rfl
  | _ :: _ :: _ :: _ :: _ :: _ => exact readAlike_invalidPart

theorem sameIgnoringCase_congr {word word' : String}
    (h : Text.asciiLower word = Text.asciiLower word') (keyword : String) :
    Text.sameIgnoringCase word keyword = Text.sameIgnoringCase word' keyword := by
  rw [Text.sameIgnoringCase, Text.sameIgnoringCase, h]

/-- **One change.** A change of spelling leaves the outcome of a clause alone. -/
theorem readAlike_of_change {ws ws' : List String} (h : Change ws ws') :
    ReadAlike (readWords catalog totals text ws) (readWords catalog totals text ws') := by
  cases h with
  | only h =>
    rw [readWords, readWords, sameIgnoringCase_congr h]
    exact .refl _
  | first h second =>
    rw [readWords, readWords, sameIgnoringCase_congr h, sameIgnoringCase_congr h]
    exact .refl _
  | @behindNot word second second' hword h =>
    -- The first word is `not`, so it is not `top`, behind which a number would stand.
    have htop : Text.sameIgnoringCase word "top" = false := by
      rw [Text.sameIgnoringCase, hword]
      decide
    rw [readWords, readWords, htop, sameIgnoringCase_congr h]
    exact .refl _
  | field h spelling raw => exact readAlike_readComparison h _ _ _
  | fieldOfPair h first second raw => exact readAlike_readPaired h rfl
  | comparator h word raw =>
    rw [readWords, readWords, readSimple_eq, readSimple_eq, h.read?_eq]
    exact readAlike_readComparison rfl _ _ _
  | pair hfirst hsecond word raw =>
    exact readAlike_readPaired rfl (Comparator.readPair?_congr hfirst hsecond)
  | notIn hspelling hfirst hsecond word raw =>
    obtain ⟨hword, hpair⟩ := Comparator.readPair?_eq_of_notIn hspelling hfirst hsecond
    rw [readWords, readWords, readSimple_eq, hword, readPaired_of_readPair? hpair]
    exact readAlike_readComparison rfl _ _ _

/-! ## Any number of changes -/

/-- **Spellings.** A clause has the same outcome in all its spellings. -/
theorem readAlike_of_respelled {ws ws' : List String} (h : Respelled ws ws') :
    ReadAlike (readWords catalog totals text ws) (readWords catalog totals text' ws') := by
  have htext : ReadAlike (readWords catalog totals text ws')
      (readWords catalog totals text' ws') := readAlike_readWords_text ws'
  refine ReadAlike.trans ?_ htext
  clear htext
  induction h with
  | rel ws ws' h => exact readAlike_of_change h
  | refl ws => exact .refl _
  | symm ws ws' _ ih => exact ih.symm
  | trans ws ws' ws'' _ _ ih ih' => exact ih.trans ih'

theorem Respelled.nil_iff {ws ws' : List String} (h : Respelled ws ws') : ws = [] ↔ ws' = [] := by
  induction h with
  | rel ws ws' h => cases h <;> simp
  | refl ws => exact Iff.rfl
  | symm ws ws' _ ih => exact ih.symm
  | trans ws ws' ws'' _ _ ih ih' => exact ih.trans ih'

/-! ## Whole queries -/

/-- The words of the clauses of a text. -/
def clauseWords (input : String) : List (List String) :=
  (Text.wordsOf input).splitOnP Text.isSeparator

/-- The two texts have the same clauses in different spellings. -/
def SameClauses (input input' : String) : Prop :=
  List.Forall₂ Respelled (clauseWords input) (clauseWords input')

section

variable {input input' : String}

theorem forall₂_readClauses (catalog : Catalog) (totals : Totals) (h : SameClauses input input') :
    List.Forall₂ ReadAlike (readClauses catalog totals input)
      (readClauses catalog totals input') := by
  rw [SameClauses, clauseWords, clauseWords, ← map_words_ofText, ← map_words_ofText,
    List.forall₂_map_left_iff, List.forall₂_map_right_iff] at h
  rw [readClauses, readClauses, List.forall₂_map_left_iff, List.forall₂_map_right_iff]
  exact h.imp fun c c' hwords ↦ readAlike_of_respelled hwords

theorem separate_congr {rs rs' : List (Except ClauseError Part)}
    (h : List.Forall₂ ReadAlike rs rs') : (separate rs).1 = (separate rs').1 ∧
      (separate rs).2.map ClauseError.kind = (separate rs').2.map ClauseError.kind := by
  induction h with
  | nil => exact ⟨rfl, rfl⟩
  | cons hfirst _ ih =>
    obtain ⟨hparts, herrors⟩ := ih
    rcases hfirst.cases with ⟨part, rfl, rfl⟩ | ⟨e, e', rfl, rfl, hkind⟩
    · exact ⟨congrArg (part :: ·) hparts, herrors⟩
    · exact ⟨hparts, congrArg₂ List.cons hkind herrors⟩

theorem blank_iff (input : String) :
    ((Clause.ofText input).length == 1 && (Clause.ofText input).all (·.isEmpty)) = true ↔
      clauseWords input = [[]] := by
  rw [clauseWords, ← map_words_ofText]
  match Clause.ofText input with
  | [] => simp
  | [c] => simp [Clause.words, Clause.isEmpty]
  | _ :: _ :: _ => simp

theorem SameClauses.blank_iff (h : SameClauses input input') :
    clauseWords input = [[]] ↔ clauseWords input' = [[]] := by
  rw [SameClauses] at h
  generalize clauseWords input = cs, clauseWords input' = cs' at h
  cases h with
  | nil => exact Iff.rfl
  | cons hfirst hrest =>
    cases hrest with
    | nil => simpa using hfirst.nil_iff
    | cons hsecond hrest => simp

theorem readPartial_of_blank (h : clauseWords input = [[]]) :
    readPartial catalog totals input = ({}, []) := if_pos ((blank_iff input).mpr h)

theorem readPartial_of_not_blank (h : clauseWords input ≠ [[]]) :
    readPartial catalog totals input
      = (ofParts (separate (readClauses catalog totals input)).1,
          (separate (readClauses catalog totals input)).2) :=
  readPartial_of_nonempty (mt (blank_iff input).mp h)

theorem readPartial_congr (catalog : Catalog) (totals : Totals) (h : SameClauses input input') :
    (readPartial catalog totals input).1 = (readPartial catalog totals input').1 ∧
      (readPartial catalog totals input).2.map ClauseError.kind
        = (readPartial catalog totals input').2.map ClauseError.kind := by
  by_cases hblank : clauseWords input = [[]]
  · rw [readPartial_of_blank hblank, readPartial_of_blank (h.blank_iff.mp hblank)]
    exact ⟨rfl, rfl⟩
  · rw [readPartial_of_not_blank hblank, readPartial_of_not_blank (mt h.blank_iff.mpr hblank)]
    obtain ⟨hparts, herrors⟩ := separate_congr (forall₂_readClauses catalog totals h)
    exact ⟨congrArg ofParts hparts, herrors⟩

theorem read_eq_ok_iff_kind {q : Query} : read catalog totals input = .ok q ↔
    (readPartial catalog totals input).1 = q ∧
      (readPartial catalog totals input).2.map ClauseError.kind = [] := by
  rw [read_eq_ok_iff, List.map_eq_nil_iff, Prod.ext_iff]

end

end Query

/-- **Spellings.** Two texts with the same clauses in different spellings are read alike: clause by
clause there is the same part or an error of the same kind. So the predicates and the `top` are the
same, the errors are of the same kinds in the same order, and the one text is accepted if the other
one is. -/
theorem respelled_clauses_read_alike (catalog : Catalog) (totals : Totals) {input input' : String}
    (h : Query.SameClauses input input') :
    List.Forall₂ ReadAlike (Query.readClauses catalog totals input)
        (Query.readClauses catalog totals input') ∧
      (Query.readPartial catalog totals input).1 = (Query.readPartial catalog totals input').1 ∧
      (Query.readPartial catalog totals input).2.map ClauseError.kind
        = (Query.readPartial catalog totals input').2.map ClauseError.kind ∧
      ∀ q, Query.read catalog totals input = .ok q ↔ Query.read catalog totals input' = .ok q := by
  have hclauses := Query.forall₂_readClauses catalog totals h
  obtain ⟨hquery, herrors⟩ := Query.readPartial_congr catalog totals h
  refine ⟨hclauses, hquery, herrors, fun q ↦ ?_⟩
  rw [Query.read_eq_ok_iff_kind, Query.read_eq_ok_iff_kind, hquery, herrors]

/-- A clause with a short form, one with a comparator of two words and one that is refused. -/
theorem respelled_clauses_read_alike_short_form :
    Query.SameClauses "freq >= 5 and form notin (a,b) and foo = x"
        "Frequency >= 5 and FORM Not IN (a,b) and foo == x" ∧
      (Query.readPartial (.columnar ["form", "frequency"]) {}
          "freq >= 5 and form notin (a,b) and foo = x").1
        = (Query.readPartial (.columnar ["form", "frequency"]) {}
          "Frequency >= 5 and FORM Not IN (a,b) and foo == x").1 ∧
      (Query.readPartial (.columnar ["form", "frequency"]) {}
          "freq >= 5 and form notin (a,b) and foo = x").2.map ClauseError.kind
        = (Query.readPartial (.columnar ["form", "frequency"]) {}
          "Frequency >= 5 and FORM Not IN (a,b) and foo == x").2.map ClauseError.kind := by
  have hwords : Query.clauseWords "freq >= 5 and form notin (a,b) and foo = x"
      = [["freq", ">=", "5"], ["form", "notin", "(a,b)"], ["foo", "=", "x"]] := rfl
  have hwords' : Query.clauseWords "Frequency >= 5 and FORM Not IN (a,b) and foo == x"
      = [["Frequency", ">=", "5"], ["FORM", "Not", "IN", "(a,b)"], ["foo", "==", "x"]] := rfl
  have hfrequency : Query.Respelled ["freq", ">=", "5"] ["Frequency", ">=", "5"] :=
    .rel _ _ (.field (by decide) _ _)
  have hform : Query.Respelled ["form", "notin", "(a,b)"] ["FORM", "Not", "IN", "(a,b)"] :=
    .trans _ _ _ (.rel _ _ (.field (by decide) _ _))
      (.rel _ _ (.notIn (by decide) (by decide) (by decide) _ _))
  have hfoo : Query.Respelled ["foo", "=", "x"] ["foo", "==", "x"] :=
    .rel _ _ (.comparator .equal _ _)
  have hsame : Query.SameClauses "freq >= 5 and form notin (a,b) and foo = x"
      "Frequency >= 5 and FORM Not IN (a,b) and foo == x" := by
    rw [Query.SameClauses, hwords, hwords']
    exact .cons hfrequency (.cons hform (.cons hfoo .nil))
  obtain ⟨-, hquery, herrors, -⟩ :=
    respelled_clauses_read_alike (.columnar ["form", "frequency"]) {} hsame
  exact ⟨hsame, hquery, herrors⟩

end CorpusQuery

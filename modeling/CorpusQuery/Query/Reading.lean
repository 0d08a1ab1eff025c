import CorpusQuery.Catalog
import CorpusQuery.Clause
import CorpusQuery.Query

/-!
# Reading queries

A clause is read against a catalog. Fields that are only a way of asking about another field
disappear here: positional fields become tests on the word form, relative counts become absolute
ones, the lemma is compared without its compound markers, and `compound` is a pattern on the lemma.

Clauses are read independently of each other, and a query with any bad clause is refused with the
errors of all of them.
-/

namespace CorpusQuery

/-- Why a clause is refused. Fields, comparators and values are named as they were written. -/
inductive ClauseError where
  | unknownField (field : String)
  | illegalComparator (field comparator : String)
  | notANumber (field value : String)
  | emptySet (field : String)
  | invalidTop (value : String)
  | invalidPart (part : String)
deriving DecidableEq, Repr

namespace ClauseError

def message : ClauseError → String
  | unknownField field => "Query key '" ++ field ++ "' not ok"
  | illegalComparator field comparator =>
    "Query comparator for '" ++ field ++ "' not ok: '" ++ comparator ++ "'"
  | notANumber field value =>
    "Query value for key '" ++ field ++ "' not ok: '" ++ value ++ "' is not a number"
  | emptySet field => "Query value for key '" ++ field ++ "' not ok: empty list"
  | invalidTop value =>
    "Query value for key 'top' not ok: '" ++ value ++ "' is not a positive integer"
  | invalidPart part => "Invalid query part: '" ++ part ++ "'"

/-- The messages of several errors in one. -/
def messages (errors : List ClauseError) : String := "; ".intercalate (errors.map message)

end ClauseError

namespace Query

/-! ## Values -/

/-- Drops the quotes around a word. -/
def unquote (cs : List Char) : List Char := Text.dropAround (fun c ↦ c == '\'' || c == '"') cs

/-- The items of a list value: parentheses around it and quotes around items are optional, and
empty items are dropped. -/
def readItems (raw : List Char) : List String :=
  let inner := ((raw.dropWhile (· == '(')).reverse.dropWhile (· == ')')).reverse
  (((Text.splitOn ',' inner).map fun item ↦ unquote (Text.trimChars item)).filter
    (!·.isEmpty)).map .ofList

/-- Reads the value of a textual field: a list for the set comparators, else one text. -/
def readText (field : String) (c : Comparator) (raw : String) : Except ClauseError Operand :=
  if c.isSet then
    match readItems raw.toList with
    | [] => .error (.emptySet field)
    | items => .ok (.texts items)
  else .ok (.text (.ofList (unquote raw.toList)))

/-- Reads the value of a numeric field, which has to be finite. -/
def readNumber (field : String) (raw : String) : Except ClauseError Float :=
  let body := unquote raw.toList
  match (Number.readFloat? body).filter Float.isFinite with
  | some x => .ok x
  | none => .error (.notANumber field (.ofList body))

/-! ## Predicates -/

/-- The spelling that the values of a textual field are stored in. -/
def normalizeText (f : Field) (op : Operator) (operand : Operand) : String × Operand :=
  if f.name == "pos" then (f.name, operand.mapTexts Text.upper)
  else if f.kind.isFeature && op != .like then (f.name, operand.mapTexts Text.titleCase)
  else if f.name == "lemma" && op != .like then
    ("lemmac", operand.mapTexts (Text.without · Catalog.compoundMarker))
  else (f.name, operand)

/-- Reads the value of a clause and makes the predicate. -/
def readPredicate (totals : Totals) (word : String) (f : Field) (c : Comparator) (raw : String) :
    Except ClauseError Predicate :=
  match f.kind with
  | .numeric => do
    let x ← readNumber word raw
    let (field, x) := match f.relative with
      | some relative => (relative.field, totals.toAbsolute relative.total x)
      | none => (f.name, x)
    return ⟨field, c.operator, .number (.ofNumber x), c.negates⟩
  | .positional position => do
    let operand ← readText word c raw
    return ⟨"form", position.operator, operand, c.negates⟩
  | .text | .feature _ => do
    let operand ← readText word c raw
    let (field, operand) := normalizeText f c.operator operand
    return ⟨field, c.operator, operand, c.negates⟩
  | .boolean => .error (.illegalComparator word c.text)

/-- The field that a word names. -/
def lookupField (catalog : Catalog) (word : String) : Except ClauseError Field :=
  match catalog.lookup? word with
  | some f => .ok f
  | none => .error (.unknownField word)

/-- The comparator of a clause, if the field takes it. -/
def allowedComparator (f : Field) (word spelling : String) (c : Option Comparator) :
    Except ClauseError Comparator :=
  match c.filter f.allows with
  | some c => .ok c
  | none => .error (.illegalComparator word spelling)

/-- The predicate for compound words: their lemma holds the compound marker. -/
def compoundPredicate (negated : Bool) : Predicate :=
  ⟨"lemma", .like, .text (.ofList ['%', Catalog.compoundMarker, '%']), negated⟩

/-! ## Clauses -/

/-- What a clause contributes to a query. -/
inductive Part where
  | predicate (p : Predicate)
  | top (n : Nat)
deriving DecidableEq

/-- Reads the clause `top n`. -/
def readTop (count : String) : Except ClauseError Part :=
  match (Number.readNat? (Nat.pow 2 32 - 1) count.toList).filter (0 < ·) with
  | some n => .ok (.top n)
  | none => .error (.invalidTop count)

/-- Reads the clauses `compound` and `not compound`. -/
def readCompound (catalog : Catalog) (negated : Bool) : Except ClauseError Part :=
  if catalog.contains "compound" then .ok (.predicate (compoundPredicate negated))
  else .error (.unknownField "compound")

/-- Reads a clause of three words. -/
def readSimple (catalog : Catalog) (totals : Totals) (word comparator raw : String) :
    Except ClauseError Part := do
  let f ← lookupField catalog word
  let c ← allowedComparator f word comparator (Comparator.read? comparator)
  return .predicate (← readPredicate totals word f c raw)

/-- Reads a clause of four words, whose comparator is two of them. -/
def readPaired (catalog : Catalog) (totals : Totals) (text word first second raw : String) :
    Except ClauseError Part :=
  match Comparator.readPair? first second with
  | none => .error (.invalidPart text)
  | some c => do
    let f ← lookupField catalog word
    let c ← allowedComparator f word (first ++ " " ++ second) (some c)
    return .predicate (← readPredicate totals word f c raw)

/-- Reads one clause from its words; `text` is the clause as it was written. -/
def readWords (catalog : Catalog) (totals : Totals) (text : String) :
    List String → Except ClauseError Part
  | [word] =>
    if Text.sameIgnoringCase word "compound" then readCompound catalog false
    else .error (.invalidPart text)
  | [first, second] =>
    if Text.sameIgnoringCase first "top" then readTop second
    else if Text.sameIgnoringCase first "not" && Text.sameIgnoringCase second "compound" then
      readCompound catalog true
    else .error (.invalidPart text)
  | [word, comparator, raw] => readSimple catalog totals word comparator raw
  | [word, first, second, raw] => readPaired catalog totals text word first second raw
  | _ => .error (.invalidPart text)

/-- Reads one clause. -/
def readClause (catalog : Catalog) (totals : Totals) (c : Clause) : Except ClauseError Part :=
  readWords catalog totals c.text c.words

/-! ## Queries -/

/-- The query that the parts make up. The last `top` counts. -/
def ofParts (parts : List Part) : Query :=
  { predicates := parts.filterMap fun
      | .predicate p => some p
      | .top _ => none
    top := (parts.filterMap fun
      | .predicate _ => none
      | .top n => some n).getLast? }

/-- The parts that could be read, and the errors of the clauses that could not. -/
def separate : List (Except ClauseError Part) → List Part × List ClauseError
  | [] => ([], [])
  | .ok part :: rest => (part :: (separate rest).1, (separate rest).2)
  | .error e :: rest => ((separate rest).1, e :: (separate rest).2)

/-- Reads what can be read of a query, and collects the errors. A text without words is the empty
query. -/
def readPartial (catalog : Catalog) (totals : Totals) (input : String) :
    Query × List ClauseError :=
  let clauses := Clause.ofText input
  if clauses.length == 1 && clauses.all (·.isEmpty) then ({}, [])
  else
    let (parts, errors) := separate (clauses.map (readClause catalog totals))
    (ofParts parts, errors)

/-- Reads a query. -/
def read (catalog : Catalog) (totals : Totals) (input : String) :
    Except (List ClauseError) Query :=
  match readPartial catalog totals input with
  | (query, []) => .ok query
  | (_, errors) => .error errors

end Query

end CorpusQuery

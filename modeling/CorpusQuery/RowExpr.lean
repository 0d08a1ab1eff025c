import CorpusQuery.Value

/-!
# Row expressions

Conditions on the rows of a flat table are expressions over its columns. They are displayed in a
method-call notation.
-/

namespace CorpusQuery

/-- The ways two values are compared. -/
inductive Comparison where
  | equal
  | notEqual
  | less
  | greater
  | atMost
  | atLeast
deriving DecidableEq, Repr

namespace Comparison

def all : List Comparison := [.equal, .notEqual, .less, .greater, .atMost, .atLeast]

def text : Comparison → String
  | .equal => "=="
  | .notEqual => "!="
  | .less => "<"
  | .greater => ">"
  | .atMost => "<="
  | .atLeast => ">="

/-- The comparison with this spelling. -/
def ofText? (s : String) : Option Comparison := all.find? (·.text == s)

/-- Whether the comparison accepts an outcome. -/
def accepts : Comparison → Ordering → Bool
  | .equal, o => o == .eq
  | .notEqual, o => o != .eq
  | .less, o => o == .lt
  | .greater, o => o == .gt
  | .atMost, o => o != .gt
  | .atLeast, o => o != .lt

end Comparison

/-- The tests on a text. -/
inductive TextTest where
  | startsWith
  | endsWith
  | contains
  | like
deriving DecidableEq, Repr

def TextTest.text : TextTest → String
  | .startsWith => "starts_with"
  | .endsWith => "ends_with"
  | .contains => "contains"
  | .like => "like"

/-- An expression over the columns of a row. -/
inductive RowExpr where
  | column (name : String)
  | literal (v : Value)
  /-- The text of an expression without a character. -/
  | strip (e : RowExpr) (c : Char)
  | compare (left : RowExpr) (op : Comparison) (right : RowExpr)
  | test (e : RowExpr) (kind : TextTest) (pattern : String)
  | isIn (e : RowExpr) (values : List Value)
  | and (left right : RowExpr)
  | or (left right : RowExpr)
  | not (e : RowExpr)
deriving DecidableEq

namespace RowExpr

/-- The disjunction of all; no expressions have none. -/
def any? : List RowExpr → Option RowExpr
  | [] => none
  | e :: es => some (es.foldl .or e)

/-- Adds to `seen` the columns of the expression that are not in it yet. -/
def collectColumns (seen : List String) : RowExpr → List String
  | .column name => if seen.contains name then seen else seen ++ [name]
  | .literal _ => seen
  | .strip e _ | .test e _ _ | .isIn e _ | .not e => e.collectColumns seen
  | .compare l _ r | .and l r | .or l r => r.collectColumns (l.collectColumns seen)

/-- The columns of the expression, each once, in the order of their first mention. -/
def columns (e : RowExpr) : List String := e.collectColumns []

def display : RowExpr → String
  | .column name => "col(" ++ name ++ ")"
  | .literal v => v.display
  | .strip e c => e.display ++ ".strip('" ++ c.toString ++ "')"
  | .compare l op r => "(" ++ l.display ++ " " ++ op.text ++ " " ++ r.display ++ ")"
  | .test e t pattern => e.display ++ "." ++ t.text ++ "('" ++ pattern ++ "')"
  | .isIn e values =>
    e.display ++ ".is_in([" ++ ", ".intercalate (values.map (·.display)) ++ "])"
  | .and l r => "(" ++ l.display ++ " & " ++ r.display ++ ")"
  | .or l r => "(" ++ l.display ++ " | " ++ r.display ++ ")"
  | .not e => "~" ++ e.display

end RowExpr

end CorpusQuery

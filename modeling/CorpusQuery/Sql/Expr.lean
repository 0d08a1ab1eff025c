import CorpusQuery.Value

/-!
# SQL expressions

The expressions that stand in conditions, joins and column lists. A group is part of the expression
and not only of its text, because a group under a negation needs no parentheses of its own.
-/

namespace CorpusQuery.Sql

/-- The operators between two expressions. -/
inductive BinaryOp where
  | eq
  | ne
  | lt
  | gt
  | le
  | ge
  | and
  | or
  | like
  | notLike
  | glob
deriving DecidableEq, Repr

namespace BinaryOp

def all : List BinaryOp := [.eq, .ne, .lt, .gt, .le, .ge, .and, .or, .like, .notLike, .glob]

def text : BinaryOp → String
  | .eq => "="
  | .ne => "!="
  | .lt => "<"
  | .gt => ">"
  | .le => "<="
  | .ge => ">="
  | .and => "AND"
  | .or => "OR"
  | .like => "LIKE"
  | .notLike => "NOT LIKE"
  | .glob => "GLOB"

/-- The operator with this spelling. -/
def ofText? (s : String) : Option BinaryOp := all.find? (·.text == s)

end BinaryOp

/-- The name of a column, with the alias of its table or without. -/
structure ColumnName where
  qualifier : Option String
  name : String
deriving DecidableEq, Repr

/-- The name as it is shown in messages. -/
def ColumnName.plain (c : ColumnName) : String :=
  match c.qualifier with
  | some qualifier => qualifier ++ "." ++ c.name
  | none => c.name

/-- An expression of a statement. -/
inductive Expr where
  | column (qualifier : Option String) (name : String)
  /-- A value, which is bound and never written into the text. -/
  | value (v : Value)
  | binary (left : Expr) (op : BinaryOp) (right : Expr)
  | inList (e : Expr) (items : List Expr) (negated : Bool)
  | call (function : String) (args : List Expr)
  | not (e : Expr)
  | group (e : Expr)

namespace Expr

/-- A column of the table with an alias. -/
def of (aliasName name : String) : Expr := .column (some aliasName) name

/-- The opposite of a condition. Equality, patterns and membership have an opposite operator. -/
def negate : Expr → Expr
  | .binary l .eq r => .binary l .ne r
  | .binary l .like r => .binary l .notLike r
  | .inList e items negated => .inList e items !negated
  | e => .not e

/-- The conjunction of all; no conditions have none. -/
def andAll? : List Expr → Option Expr
  | [] => none
  | e :: es => some (es.foldl (.binary · .and ·) e)

/-- The disjunction of all, grouped when there are several; no conditions have none. -/
def orAll? : List Expr → Option Expr
  | [] => none
  | [e] => some e
  | e :: es => some (.group (es.foldl (.binary · .or ·) e))

end Expr

end CorpusQuery.Sql

import CorpusQuery.Sql.Expr
import CorpusQuery.Sql.Identifier

/-!
# Statement text

A fragment of a statement is a sequence of pieces, each a text, a column or a bound value. Its text
has a placeholder for every value, and its arguments are the values in the order of their
placeholders, so the two cannot get out of step however fragments are put together. Columns are kept
apart from other text because a fault in one of them is reported with its place in the statement.
-/

namespace CorpusQuery.Sql

/-- A part of a statement: a text, a column, or a value that is bound to a placeholder. -/
inductive Piece where
  | text (s : String)
  | column (c : ColumnName)
  | bound (v : Value)
deriving DecidableEq

/-- The text of a piece. -/
def Piece.sql : Piece → String
  | text s => s
  | column ⟨some qualifier, name⟩ => quote qualifier ++ "." ++ quote name
  | column ⟨none, name⟩ => quote name
  | bound _ => placeholder

/-- A sequence of pieces. -/
abbrev Fragment := List Piece

namespace Fragment

/-- A fragment that is only text. -/
def text (s : String) : Fragment := [.text s]

/-- An identifier. -/
def name (s : String) : Fragment := text (quote s)

/-- A fragment in parentheses. -/
def parens (f : Fragment) : Fragment := text "(" ++ f ++ text ")"

/-- The fragments with commas between them. -/
def commas : List Fragment → Fragment
  | [] => []
  | [f] => f
  | f :: fs => f ++ text ", " ++ commas fs

/-- The text, with a placeholder for every value. -/
def sql (f : Fragment) : String := String.join (f.map (·.sql))

/-- The values in the order of their placeholders. -/
def args (f : Fragment) : List Value :=
  f.filterMap fun
    | .bound v => some v
    | .text _ | .column _ => none

/-- The columns with their places in the text, counted in bytes, if the fragment starts at
`start`. -/
def columnPlaces (start : Nat) : Fragment → List (ColumnName × Nat)
  | [] => []
  | .column c :: f => (c, start) :: columnPlaces (start + (Piece.column c).sql.utf8ByteSize) f
  | p :: f => columnPlaces (start + p.sql.utf8ByteSize) f

/-- The columns in the order of the text. -/
def columns (f : Fragment) : List ColumnName :=
  f.filterMap fun
    | .column c => some c
    | .text _ | .bound _ => none

@[simp] theorem args_text (s : String) : args (text s) = [] := rfl

@[simp] theorem sql_append (f g : Fragment) : sql (f ++ g) = sql f ++ sql g := by
  simp [sql]

@[simp] theorem args_append (f g : Fragment) : args (f ++ g) = args f ++ args g :=
  List.filterMap_append

@[simp] theorem args_parens (f : Fragment) : args (parens f) = args f := by
  simp [parens]

end Fragment

namespace Expr

/-- A conjunction keeps a disjunction among its operands in parentheses. -/
def underAnd (parent : BinaryOp) (operand : Expr) (f : Fragment) : Fragment :=
  match parent, operand with
  | .and, .binary _ .or _ => Fragment.parens f
  | _, _ => f

/-- The operand of a negation stands in parentheses, unless it is a group and has them. -/
def underNot (operand : Expr) (f : Fragment) : Fragment :=
  match operand with
  | .group _ => f
  | _ => Fragment.parens f

mutual

/-- An expression as a fragment. -/
def fragment : Expr → Fragment
  | .column qualifier name => [.column ⟨qualifier, name⟩]
  | .value v => [.bound v]
  | .binary l op r =>
    underAnd op l l.fragment ++ .text (" " ++ op.text ++ " ") ++ underAnd op r r.fragment
  | .inList e items negated =>
    e.fragment ++ .text (if negated then " NOT IN(" else " IN(")
      ++ Fragment.commas (fragments items) ++ .text ")"
  | .call function args => .text function ++ .parens (.commas (fragments args))
  | .not e => .text "NOT " ++ underNot e e.fragment
  | .group e => .parens e.fragment

/-- Expressions as fragments. -/
def fragments : List Expr → List Fragment
  | [] => []
  | e :: es => e.fragment :: fragments es

end

end Expr

end CorpusQuery.Sql

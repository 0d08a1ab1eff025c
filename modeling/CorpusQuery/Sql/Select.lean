import CorpusQuery.Sql.Fragment

/-!
# Select statements

A statement selects columns from tables; all other parts are optional. It is written in one line.
-/

namespace CorpusQuery.Sql

/-- A selected expression, with the name it gets in the result. -/
structure SelectItem where
  expr : Expr
  aliasName : Option String := none

/-- A table, possibly of another database. -/
structure TableName where
  schema : Option String := none
  table : String

/-- A table to select from, and the index to use for it. -/
structure Source where
  table : TableName
  aliasName : Option String := none
  index : Option String := none

/-- Whether rows without a partner are lost or completed with missing values. -/
inductive JoinKind where
  | inner
  | left
deriving DecidableEq, Repr

/-- A joined table. -/
structure Join where
  kind : JoinKind
  table : TableName
  aliasName : Option String := none
  condition : Expr

inductive Direction where
  | ascending
  | descending
deriving DecidableEq, Repr

/-- An expression to order by. -/
structure OrderItem where
  expr : Expr
  direction : Option Direction := none

/-- A select statement. -/
structure Select where
  distinct : Bool := false
  items : List SelectItem
  sources : List Source := []
  joins : List Join := []
  condition : Option Expr := none
  order : List OrderItem := []
  limit : Option Nat := none

/-! ## Fragments -/

open Fragment (text name commas)

/-- The part of a fragment that is only there with a value. -/
def whenSome {α : Type} (a : Option α) (f : α → Fragment) : Fragment := (a.map f).getD []

def TableName.fragment (t : TableName) : Fragment :=
  whenSome t.schema (fun s ↦ name s ++ text ".") ++ name t.table

def SelectItem.fragment (i : SelectItem) : Fragment :=
  i.expr.fragment ++ whenSome i.aliasName fun a ↦ text " AS " ++ name a

def Source.fragment (s : Source) : Fragment :=
  s.table.fragment ++ (whenSome s.aliasName fun a ↦ text " " ++ name a)
    ++ whenSome s.index fun i ↦ text " INDEXED BY " ++ name i

def Join.fragment (j : Join) : Fragment :=
  text (match j.kind with
    | .inner => "JOIN "
    | .left => "LEFT JOIN ")
    ++ j.table.fragment ++ (whenSome j.aliasName fun a ↦ text " " ++ name a)
    ++ text " ON " ++ j.condition.fragment

def OrderItem.fragment (o : OrderItem) : Fragment :=
  o.expr.fragment ++ match o.direction with
    | some .ascending => text " ASC"
    | some .descending => text " DESC"
    | none => []

namespace Select

/-- The selected columns. -/
def itemsFragment (s : Select) : Fragment := commas (s.items.map (·.fragment))

/-- The tables and joins. -/
def fromFragment (s : Select) : Fragment :=
  commas (s.sources.map (·.fragment)) ++ s.joins.flatMap fun j ↦ text " " ++ j.fragment

/-- The condition on rows. -/
def conditionFragment (s : Select) : Fragment := whenSome s.condition (·.fragment)

/-- What the rows are ordered by. -/
def orderFragment (s : Select) : Fragment := commas (s.order.map (·.fragment))

/-- What stands before the selected columns. -/
def head (s : Select) : Fragment := text (if s.distinct then "SELECT DISTINCT " else "SELECT ")

def fromPart (s : Select) : Fragment :=
  if s.sources.isEmpty then [] else text " FROM " ++ s.fromFragment

def conditionPart (s : Select) : Fragment :=
  if s.condition.isNone then [] else text " WHERE " ++ s.conditionFragment

def orderPart (s : Select) : Fragment :=
  if s.order.isEmpty then [] else text " ORDER BY " ++ s.orderFragment

def limitPart (s : Select) : Fragment := whenSome s.limit fun n ↦ text (" LIMIT " ++ toString n)

/-- The whole statement. -/
def fragment (s : Select) : Fragment :=
  s.head ++ s.itemsFragment ++ s.fromPart ++ s.conditionPart ++ s.orderPart ++ s.limitPart

/-- All columns in the order in which they are looked up: those selected, those in the condition on
rows, those in the conditions of joins and those to order by. Each comes with its place in the
statement, which is not known inside a join. -/
def lookups (s : Select) : List (ColumnName × Option Nat) :=
  let placed (before part : Fragment) : List (ColumnName × Option Nat) :=
    (part.columnPlaces before.sql.utf8ByteSize).map fun (c, place) ↦ (c, some place)
  let beforeCondition := s.head ++ s.itemsFragment ++ s.fromPart
  placed s.head s.itemsFragment ++ placed beforeCondition s.conditionPart
    ++ (s.joins.flatMap (·.condition.fragment.columns)).map (·, none)
    ++ placed (beforeCondition ++ s.conditionPart) s.orderPart

end Select

end CorpusQuery.Sql

import CorpusQuery.Table

/-!
# The most frequent rows of each word form

Rows are grouped by their word form, each group is ranked by frequency, and the best `n` rows of
each group are kept at their places. The groups are kept in a hash table with the form as the key,
so forms that are the two zeros make two groups. Ranking is stable, so of equally frequent rows the
earlier one is better, and rows without a frequency rank last.
-/

namespace CorpusQuery.Table

/-- Positions of rows that share a form, from top to bottom. -/
structure FormGroup where
  form : Value
  positions : List Nat

/-- Adds a position to the group of its form, or starts a group. -/
def addToGroup (form : Value) (position : Nat) : List FormGroup → List FormGroup
  | [] => [⟨form, [position]⟩]
  | g :: gs =>
    if g.form.sameKey form then { g with positions := g.positions ++ [position] } :: gs
    else g :: addToGroup form position gs

/-- The positions of the rows grouped by the cell at position `form`. -/
def formGroups (form : Nat) (rows : List (List Value)) : List FormGroup :=
  rows.zipIdx.foldl (fun groups (row, i) ↦ addToGroup (cellAt form row) i groups) []

/-- Ranks frequencies: larger ones first, missing ones last. -/
def rank (a b : Option Float) : Ordering :=
  match a, b with
  | some x, some y => (Number.order y x).getD .eq
  | some _, none => .lt
  | none, some _ => .gt
  | none, none => .eq

/-- The `n` best of the positions, by the frequency found there. -/
def bestOf (n : Nat) (frequency : Nat → Option Float) (positions : List Nat) : List Nat :=
  (positions.mergeSort fun i j ↦ rank (frequency i) (frequency j) != .gt).take n

/-- The `n` most frequent rows of each form. A table without forms or frequencies stays as it is. -/
def topPerForm (t : Table) (n : Nat) : Table :=
  match t.columnIndex? "form", t.columnIndex? "frequency" with
  | some form, some freq =>
    let frequency (i : Nat) : Option Float := (t.rows[i]?.map (cellAt freq)).bind (·.toNumber?)
    let kept := (formGroups form t.rows).flatMap fun g ↦ bestOf n frequency g.positions
    t.keepRows kept.contains
  | _, _ => t

end CorpusQuery.Table

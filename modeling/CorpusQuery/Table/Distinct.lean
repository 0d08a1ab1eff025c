import CorpusQuery.Table

/-!
# Rows with distinct keys

Where several rows have the same key, the last one is kept, at its place. The keys are looked up in
a hash table, so the two zeros make different keys. A key with content that is not a number is the
same as no key, not even as itself, and its rows all stay.
-/

namespace CorpusQuery.Table

/-- The columns that identify a row of a corpus. -/
def rowKey : List String := ["lemma", "form", "pos", "feats"]

/-- Whether two keys are the same, cell by cell. -/
def sameKey : List Value → List Value → Bool
  | [], [] => true
  | a :: as, b :: bs => a.sameKey b && sameKey as bs
  | _, _ => false

/-- The cells of a row at the given positions. -/
def keyAt (positions : List Nat) (row : List Value) : List Value := positions.map (cellAt · row)

/-- Keeps a row when no later row has the same key. -/
def lastOfEach (positions : List Nat) : List (List Value) → List (List Value)
  | [] => []
  | row :: rows =>
    if rows.any fun later ↦ sameKey (keyAt positions row) (keyAt positions later) then
      lastOfEach positions rows
    else row :: lastOfEach positions rows

/-- The last row of every key. Without any of the key columns the table stays as it is. -/
def distinctLast (t : Table) (keys : List String) : Table :=
  match keys.filterMap t.columnIndex? with
  | [] => t
  | positions => { t with rows := lastOfEach positions t.rows }

end CorpusQuery.Table

import CorpusQuery.Table.Arrangement
import CorpusQuery.Table.Distinct

/-!
# Finishing a table

What a backend delivers is finished by a sequence of steps, each a function on tables.
-/

namespace CorpusQuery.Table

/-- A step on the way to the result. -/
inductive FinishStep where
  /-- Keeps the last row of every key. -/
  | distinct (keys : List String)
  /-- Keeps the first rows. -/
  | cap (n : Nat)
  /-- Puts derived columns behind their anchors. -/
  | anchor
  /-- Inserts relative counts. -/
  | relative (totals : Totals)

/-- The effect of a step. -/
def FinishStep.apply : FinishStep → Table → Table
  | .distinct keys, t => t.distinctLast keys
  | .cap n, t => t.take n
  | .anchor, t => t.anchorColumns
  | .relative totals, t => t.insertRelatives totals

/-- Takes the steps in turn. -/
def finish (t : Table) (steps : List FinishStep) : Table := steps.foldl (fun t s ↦ s.apply t) t

end CorpusQuery.Table

import CorpusQuery.Table

/-!
# Outcomes of queries

A query succeeds with a table, is rejected before it runs, or fails while it runs.
-/

namespace CorpusQuery

/-- What became of a query. -/
inductive Outcome where
  | ok (table : Table)
  /-- The query cannot be read or compiled. -/
  | rejected (message : String)
  /-- The backend failed. -/
  | failed (message : String)
deriving DecidableEq

namespace Outcome

/-- The rows of the outcome; without success there are none. -/
def table : Outcome → Table
  | .ok t => t
  | .rejected _ | .failed _ => {}

/-- What went wrong, or the empty text. -/
def message : Outcome → String
  | .ok _ => ""
  | .rejected m | .failed m => m

/-- The status code. -/
def code : Outcome → Int
  | .ok _ => 0
  | .rejected _ => -1
  | .failed _ => 1

def isOk : Outcome → Bool
  | .ok _ => true
  | .rejected _ | .failed _ => false

end Outcome

end CorpusQuery

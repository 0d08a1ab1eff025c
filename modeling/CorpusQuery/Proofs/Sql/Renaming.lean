import CorpusQuery.Proofs.Sql.Columns
import CorpusQuery.Proofs.Sql.Placeholders
import CorpusQuery.Sql.PatternLimit

/-!
# Renaming tables and parts of conjunctions

The aliases in a statement are names, and other names would do as well. Renaming them in an
expression changes the qualifiers of its columns and nothing else: the values stay, and so do the
expressions that are not about a renamed table.

A condition is a conjunction, nested to the left as its parts were put together, and some parts are
conjunctions themselves. What counts is which tests are made, so we take it apart all the way down.
-/

namespace CorpusQuery.Sql

namespace Expr

/-! ## Renaming -/

mutual

/-- The expression with other names for its tables. -/
def rename (f : String → String) : Expr → Expr
  | .column qualifier name => .column (qualifier.map f) name
  | .value v => .value v
  | .binary l op r => .binary (l.rename f) op (r.rename f)
  | .inList e items negated => .inList (e.rename f) (renameAll f items) negated
  | .call function args => .call function (renameAll f args)
  | .not e => .not (e.rename f)
  | .group e => .group (e.rename f)

/-- The expressions with other names for their tables. -/
def renameAll (f : String → String) : List Expr → List Expr
  | [] => []
  | e :: es => e.rename f :: renameAll f es

end

variable {f : String → String}

mutual

theorem values_rename : (e : Expr) → (e.rename f).values = e.values
  | .column _ _ => rfl
  | .value _ => rfl
  | .binary l op r => by rw [rename, values, values, values_rename l, values_rename r]
  | .inList e items negated => by
    rw [rename, values, values, values_rename e, valuesAll_renameAll items]
  | .call function args => by rw [rename, values, values, valuesAll_renameAll args]
  | .not e => by rw [rename, values, values, values_rename e]
  | .group e => by rw [rename, values, values, values_rename e]

theorem valuesAll_renameAll : (es : List Expr) → valuesAll (renameAll f es) = valuesAll es
  | [] => rfl
  | e :: es => by rw [renameAll, valuesAll, valuesAll, values_rename e, valuesAll_renameAll es]

end

mutual

theorem rename_eq_self : (e : Expr) → (∀ c ∈ e.columns, c.qualifier.map f = c.qualifier) →
    e.rename f = e
  | .column qualifier name, h => by rw [rename, h _ (List.mem_singleton_self _)]
  | .value _, _ => rfl
  | .binary l op r, h => by
    rw [rename, rename_eq_self l fun c hc ↦ h c (List.mem_append_left _ hc),
      rename_eq_self r fun c hc ↦ h c (List.mem_append_right _ hc)]
  | .inList e items negated, h => by
    rw [rename, rename_eq_self e fun c hc ↦ h c (List.mem_append_left _ hc),
      renameAll_eq_self items fun c hc ↦ h c (List.mem_append_right _ hc)]
  | .call function args, h => by rw [rename, renameAll_eq_self args h]
  | .not e, h => by rw [rename, rename_eq_self e h]
  | .group e, h => by rw [rename, rename_eq_self e h]

theorem renameAll_eq_self : (es : List Expr) →
    (∀ c ∈ columnsAll es, c.qualifier.map f = c.qualifier) → renameAll f es = es
  | [], _ => rfl
  | e :: es, h => by
    rw [renameAll, rename_eq_self e fun c hc ↦ h c (List.mem_append_left _ hc),
      renameAll_eq_self es fun c hc ↦ h c (List.mem_append_right _ hc)]

end

end Expr

/-- The join with other names for the tables. -/
def Join.rename (f : String → String) (j : Join) : Join :=
  { j with aliasName := j.aliasName.map f, condition := j.condition.rename f }

end CorpusQuery.Sql

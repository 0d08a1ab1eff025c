import CorpusQuery.Catalog.Columnar
import CorpusQuery.Catalog.Relational
import CorpusQuery.Proofs.Catalog.Closure
import CorpusQuery.Proofs.Query.Admission
import CorpusQuery.RowFilter
import CorpusQuery.Statement

/-!
# Queries that can be read can be compiled

Compiling refuses a predicate for one of three reasons: its field is not in the catalog, the table
of the field is not in the corpus, or there is no value to compare with. A fourth is provided for,
an operator that is not supported, but every operator is planned somewhere, so that no predicate
ever gets there. None of the three is left once a query has been read. Fields are there because
catalogs are closed under the redirections of reading, tables because a relational catalog only
names those that the schema has, and values because a comparator that takes a list takes at least
one item and a number is never missing.

What remains can only go wrong for a query as a whole: it may have no predicate, and the field that
a statement orders by comes from the settings and not from the query.
-/

namespace CorpusQuery

/-! ## What admitted predicates have -/

theorem Operand.asTexts_eq_nil {o : Operand} (h : o.values = []) : o.asTexts = [] := by
  cases o with
  | number v => cases h
  | text s => cases h
  | texts ss => exact List.map_eq_nil_iff.mp h

theorem Operand.values_ne_nil {o : Operand} (h : o.asTexts ≠ []) : o.values ≠ [] :=
  mt asTexts_eq_nil h

namespace Catalog

variable {c : Catalog} {p : Predicate}

/-- In a closed catalog the field of an admitted predicate is there, whichever field was asked
about. -/
theorem Admits.contains_field (h : c.Admits p) (hc : c.Closed) : c.contains p.field = true := by
  cases h with
  | compound negated h => exact hc.compound h
  | number x hf hkind hrel hop => exact contains_of_get? hf
  | relative x hf hkind hrel hop => exact hc.relative _ (mem_of_get? hf) _ hrel
  | position hf hkind hop ho => exact hc.positional _ (mem_of_get? hf) _ hkind
  | text hf hkind hop ho => exact contains_of_get? hf
  | plainLemma h hop hallowed ho => exact hc.plainLemma h

theorem asTexts_ofNumber_ne_nil (x : Float) :
    (Operand.number (Value.ofNumber x)).asTexts ≠ [] := by
  rw [Operand.asTexts]
  cases hv : (Value.ofNumber x).asText? with
  | none => exact absurd (Value.asText?_eq_none.mp hv) (Value.ofNumber_ne_null x)
  | some s => exact List.cons_ne_nil s []

theorem Admits.asTexts_ne_nil (h : c.Admits p) : p.operand.asTexts ≠ [] := by
  cases h with
  | compound negated h => exact List.cons_ne_nil _ []
  | number x hf hkind hrel hop => exact asTexts_ofNumber_ne_nil x
  | relative x hf hkind hrel hop => exact asTexts_ofNumber_ne_nil x
  | position hf hkind hop ho => exact ho.asTexts_ne_nil
  | text hf hkind hop ho => exact ho.asTexts_ne_nil
  | plainLemma h hop hallowed ho => exact ho.asTexts_ne_nil

end Catalog

/-! ## Filters -/

namespace RowFilter

variable {catalog : Catalog} {f : Field} {p : Predicate} {e : RowExpr} {err : CompileError}

theorem exists_any?_eq_some {α : Type} {test : α → RowExpr} {xs : List α} (h : xs ≠ []) :
    ∃ e, RowExpr.any? (xs.map test) = some e := by
  cases xs with
  | nil => exact absurd rfl h
  | cons x xs => exact ⟨_, rfl⟩

theorem eq_nil_of_any?_eq_none {α : Type} {test : α → RowExpr} {xs : List α}
    (h : RowExpr.any? (xs.map test) = none) : xs = [] := by
  cases xs with
  | nil => rfl
  | cons x xs => cases h

/-- What a predicate comes to on a field: a test of one of five kinds, unless it has nothing to ask
for. -/
inductive Expressed (f : Field) (p : Predicate) : Except CompileError RowExpr → Prop where
  | any {e : RowExpr} (kind : TextTest)
      (he : RowExpr.any? (p.operand.asTexts.map (.test (target f) kind)) = some e) :
      Expressed f p (.ok e)
  | middle {e : RowExpr}
      (he : RowExpr.any? (p.operand.asTexts.map (inMiddle (target f))) = some e) :
      Expressed f p (.ok e)
  | like (s : String) : Expressed f p (.ok (.test (target f) .like s))
  | isIn : Expressed f p (.ok (.isIn (target f) p.operand.values))
  | compare (op : Comparison) {v : Value} (hv : v ∈ p.operand.values) :
      Expressed f p (.ok (.compare (target f) op (.literal v)))
  | missing (h : p.operand.asTexts = []) : Expressed f p (.error (.missingValue p.field))

theorem expressed_anyText {test : String → RowExpr}
    (hok : ∀ {e}, RowExpr.any? (p.operand.asTexts.map test) = some e → Expressed f p (.ok e)) :
    Expressed f p (anyText p test) := by
  rw [anyText]
  cases h : RowExpr.any? (p.operand.asTexts.map test) with
  | none => exact .missing (eq_nil_of_any?_eq_none h)
  | some e => exact hok h

theorem expressed_comparedWith {op : Comparison} (hop : comparison? p.operator = some op) :
    Expressed f p (comparedWith f p) := by
  rw [comparedWith, hop]
  cases h : p.operand.values with
  | nil => exact .missing (Operand.asTexts_eq_nil h)
  | cons v values => exact .compare op (h ▸ List.mem_cons_self)

/-- **Tests.** Every operator is tested somehow, so that only a value can be missing. -/
theorem expressed_positiveExpr (f : Field) (p : Predicate) : Expressed f p (positiveExpr f p) := by
  have htests (kind : TextTest) : Expressed f p (anyText p (.test (target f) kind)) :=
    expressed_anyText fun he ↦ .any kind he
  have hcompares {op : Comparison} (hop : comparison? p.operator = some op) :
      Expressed f p (comparedWith f p) := expressed_comparedWith hop
  rw [positiveExpr.eq_def]
  cases hop : p.operator with
  | startsWith => exact htests .startsWith
  | endsWith => exact htests .endsWith
  | middle => exact expressed_anyText fun he ↦ .middle he
  | like =>
    cases h : p.operand.asTexts with
    | nil => exact .missing h
    | cons s texts => exact .like s
  | isIn =>
    dsimp only
    split
    · exact htests .contains
    · exact .isIn
  | equal =>
    dsimp only
    split
    · exact htests .contains
    · exact hcompares (by rw [hop]; rfl)
  | less | greater | atMost | atLeast => exact hcompares (by rw [hop]; rfl)

theorem exists_positiveExpr_eq_ok (h : p.operand.asTexts ≠ []) (f : Field) :
    ∃ e, positiveExpr f p = .ok e := by
  have hexpressed := expressed_positiveExpr f p
  generalize positiveExpr f p = x at hexpressed
  cases hexpressed with
  | any | middle | like | isIn | compare => exact ⟨_, rfl⟩
  | missing hnil => exact absurd hnil h

theorem eq_of_positiveExpr_eq_error (h : positiveExpr f p = .error err) :
    err = .missingValue p.field := by
  have hexpressed := expressed_positiveExpr f p
  rw [h] at hexpressed
  cases hexpressed
  rfl

theorem compileStep_of_get? (hf : catalog.get? p.field = some f) (he : positiveExpr f p = .ok e) :
    compileStep catalog p = .ok ⟨f.column, if p.negated then .not e else e⟩ := by
  rw [compileStep, hf]
  dsimp only
  rw [he]
  rfl

/-- **Refused predicates.** A filter lacks a field or a value, and never an operator. -/
theorem eq_of_compileStep_eq_error (h : compileStep catalog p = .error err) :
    err = .unknownField p.field ∨ err = .missingValue p.field := by
  rw [compileStep] at h
  cases hf : catalog.get? p.field with
  | none =>
    rw [hf] at h
    exact .inl (Except.error.inj h).symm
  | some f =>
    rw [hf] at h
    dsimp only at h
    cases he : positiveExpr f p with
    | error err' =>
      rw [he] at h
      obtain rfl := Except.error.inj h
      exact .inr (eq_of_positiveExpr_eq_error he)
    | ok e =>
      rw [he] at h
      cases h

theorem compile_ne_unsupportedOperator (catalog : Catalog) (q : Query) (field operator : String) :
    compile catalog q ≠ .error (.unsupportedOperator field operator) := by
  intro h
  rw [compile] at h
  split at h
  · cases h
  · rw [compileSteps] at h
    cases hsteps : q.predicates.mapM (compileStep catalog) with
    | error err =>
      rw [hsteps] at h
      obtain rfl := Except.error.inj h
      obtain ⟨p, -, hp⟩ := exists_of_mapM_eq_error hsteps
      rcases eq_of_compileStep_eq_error hp with hp | hp <;> cases hp
    | ok steps =>
      rw [hsteps] at h
      cases h

@[simp]
theorem anyText_eq_ok_iff {test : String → RowExpr} :
    anyText p test = .ok e ↔ RowExpr.any? (p.operand.asTexts.map test) = some e :=
  CompileError.require_eq_ok_iff

theorem exists_compileStep_eq_ok (hc : catalog.Closed)
    (h : catalog.Admits p) : ∃ step, compileStep catalog p = .ok step := by
  obtain ⟨f, hf⟩ := Catalog.exists_get?_of_contains (h.contains_field hc)
  obtain ⟨e, he⟩ := exists_positiveExpr_eq_ok h.asTexts_ne_nil f
  exact ⟨_, compileStep_of_get? hf he⟩

theorem exists_compileSteps_eq_ok {q : Query} (hc : catalog.Closed)
    (h : ∀ p ∈ q.predicates, catalog.Admits p) : ∃ f, compileSteps catalog q = .ok f := by
  obtain ⟨steps, hsteps⟩ := exists_mapM_eq_ok fun p hp ↦ exists_compileStep_eq_ok hc (h p hp)
  refine ⟨⟨steps⟩, ?_⟩
  rw [compileSteps, hsteps]
  rfl

end RowFilter

/-! ## Statements -/

namespace Backend

variable {b : Backend}

theorem exists_orAll?_eq_some {α : Type} {test : α → Sql.Expr} {xs : List α} (h : xs ≠ []) :
    ∃ e, Sql.Expr.orAll? (xs.map test) = some e := by
  cases xs with
  | nil => exact absurd rfl h
  | cons x xs =>
    cases xs with
    | nil => exact ⟨test x, rfl⟩
    | cons y ys => exact ⟨_, rfl⟩

/-- **Conditions.** An operator that is no position has a condition on a column, so that only a
value can be missing. -/
theorem columnCondition_cases {p : Predicate} (hpositional : p.operator.isPositional = false)
    (f : Field) (r : Relation) : (∃ e, b.columnCondition p f r = .ok e) ∨
      p.operand.values = [] ∧ b.columnCondition p f r = .error (.missingValue p.field) := by
  rw [columnCondition.eq_def]
  cases hop : p.operator with
  | isIn => exact .inl ⟨_, rfl⟩
  | equal | less | greater | atMost | atLeast | like =>
    cases p.operand.values with
    | nil => exact .inr ⟨rfl, rfl⟩
    | cons v values => exact .inl ⟨_, rfl⟩
  | startsWith | middle | endsWith =>
    rw [hop] at hpositional
    cases hpositional

/-- With the field and its table there, only the kind of predicate decides how it is planned. -/
theorem plan_of_get? {p : Predicate} {f : Field} {r : Relation}
    (hf : b.catalog.get? p.field = some f) (hr : f.relation = some r)
    (htable : b.schema.hasTable r.table = true) :
    b.plan p = if p.operator.isPositional then b.planPositional p
      else match satelliteFor? p f with
        | some s => planSatellite p f s
        | none => b.planColumn p f r := by
  rw [plan, hf]
  dsimp only
  rw [hr]
  dsimp only
  rw [htable]
  rfl

theorem exists_plan_eq_ok {p : Predicate} {f : Field} {r : Relation}
    (hf : b.catalog.get? p.field = some f) (hr : f.relation = some r)
    (htable : b.schema.hasTable r.table = true) (h : p.operand.asTexts ≠ []) :
    ∃ plan, b.plan p = .ok plan := by
  have hvalues := Operand.values_ne_nil h
  rw [plan_of_get? hf hr htable]
  by_cases hop : p.operator.isPositional = true
  · rw [if_pos hop, planPositional]
    obtain ⟨e, he⟩ : ∃ e, Sql.Expr.orAll? (p.operand.asTexts.map
        (b.positionalCondition p.operator)) = some e := exists_orAll?_eq_some h
    rw [he]
    exact ⟨_, rfl⟩
  · rw [if_neg hop]
    cases hs : satelliteFor? p f with
    | some s =>
      obtain ⟨first, rest, hcons⟩ := List.exists_cons_of_ne_nil hvalues
      dsimp only
      rw [planSatellite, hcons]
      exact ⟨_, rfl⟩
    | none =>
      rw [Bool.not_eq_true] at hop
      obtain ⟨e, he⟩ := (columnCondition_cases (b := b) hop f r).resolve_right fun h ↦ hvalues h.1
      dsimp only
      rw [planColumn, he]
      exact ⟨_, rfl⟩

/-- **Refused predicates.** A statement lacks a field, its table or a value, and never an
operator. -/
theorem eq_of_plan_eq_error {p : Predicate} {err : CompileError} (h : b.plan p = .error err) :
    err = .unknownField p.field ∨ err = .noTable p.field ∨
      (∃ r : Relation, err = .missingTable r.table) ∨ err = .missingValue p.field := by
  rw [plan] at h
  split at h
  · exact .inl (Except.error.inj h).symm
  next f hf =>
  split at h
  · exact .inr (.inl (Except.error.inj h).symm)
  next r hr =>
  split at h
  · exact .inr (.inr (.inl ⟨r, (Except.error.inj h).symm⟩))
  refine .inr (.inr (.inr ?_))
  split at h
  · rw [planPositional] at h
    split at h
    · exact (Except.error.inj h).symm
    · cases h
  next hpositional =>
  rw [Bool.not_eq_true] at hpositional
  split at h
  · rw [planSatellite] at h
    split at h
    · exact (Except.error.inj h).symm
    · cases h
  · rw [planColumn] at h
    rcases columnCondition_cases (b := b) hpositional f r with ⟨e, he⟩ | ⟨-, he⟩ <;> rw [he] at h
    · cases h
    · exact (Except.error.inj h).symm

theorem eq_of_orderField_eq_error {err : CompileError} (h : b.orderField = .error err) :
    err = .unknownOrder b.settings.orderBy ∨ ∃ r : Relation, err = .missingTable r.table := by
  rw [orderField] at h
  split at h
  · exact .inl (Except.error.inj h).symm
  split at h
  · exact .inl (Except.error.inj h).symm
  next r _ =>
  split at h
  · cases h
  · exact .inr ⟨r, (Except.error.inj h).symm⟩

theorem compile_ne_unsupportedOperator (b : Backend) (q : Query) (field operator : String) :
    b.compile q ≠ .error (.unsupportedOperator field operator) := by
  intro h
  rw [compile] at h
  split at h
  · cases h
  · cases hplans : q.predicates.mapM b.plan with
    | error err =>
      rw [hplans] at h
      obtain rfl := Except.error.inj h
      obtain ⟨p, -, hp⟩ := exists_of_mapM_eq_error hplans
      rcases eq_of_plan_eq_error hp with hp | hp | ⟨r, hp⟩ | hp <;> cases hp
    | ok plans =>
      rw [hplans] at h
      cases horder : b.orderField with
      | error err =>
        obtain rfl : err = .unsupportedOperator field operator := by
          change b.assemble (.ofPlans plans) = _ at h
          rw [assemble, horder] at h
          exact Except.error.inj h
        rcases eq_of_orderField_eq_error horder with horder | ⟨r, horder⟩ <;> cases horder
      | ok order =>
        change b.assemble (.ofPlans plans) = _ at h
        rw [assemble, horder] at h
        cases h

/-- The tables of all fields are in the corpus. -/
def Backed (b : Backend) : Prop :=
  ∀ f ∈ b.catalog.fields, ∃ r, f.relation = some r ∧ b.schema.hasTable r.table = true

theorem backed_of_catalog_eq (h : b.catalog = .relational b.schema)
    (hfacts : b.schema.hasTable Relation.facts.table = true) : b.Backed := by
  intro f hf
  rw [h] at hf
  obtain ⟨r, hr, -, rfl | htable⟩ := Catalog.exists_relation_of_mem_relational f hf
  · exact ⟨.facts, hr, hfacts⟩
  · exact ⟨r, hr, htable⟩

theorem exists_plans_eq_ok {q : Query} (hb : b.Backed) (hc : b.catalog.Closed)
    (h : ∀ p ∈ q.predicates, b.catalog.Admits p) :
    ∃ plans, q.predicates.mapM b.plan = .ok plans := by
  apply exists_mapM_eq_ok
  intro p hp
  obtain ⟨f, hf⟩ := Catalog.exists_get?_of_contains ((h p hp).contains_field hc)
  obtain ⟨r, hr, htable⟩ := hb f (Catalog.mem_of_get? hf)
  exact exists_plan_eq_ok hf hr htable (h p hp).asTexts_ne_nil

/-- The field that the settings order by, if results can be ordered by it. -/
def sortField? (b : Backend) : Option Field :=
  (b.catalog.lookup? b.settings.orderBy).filter (·.isSortable)

theorem orderField_of_sortField? {f : Field} (hb : b.Backed) (h : b.sortField? = some f) :
    ∃ r, b.orderField = .ok (f, r) := by
  obtain ⟨r, hr, htable⟩ := hb f (Catalog.mem_of_get? (Option.filter_eq_some_iff.mp h).1)
  rw [sortField?, Catalog.lookup?] at h
  refine ⟨r, ?_⟩
  rw [orderField, h]
  dsimp only
  rw [hr]
  dsimp only
  rw [if_pos htable]

theorem orderField_of_sortField?_eq_none (h : b.sortField? = none) :
    b.orderField = .error (.unknownOrder b.settings.orderBy) := by
  rw [sortField?, Catalog.lookup?] at h
  rw [orderField, h]

/-- The order is all that assembling can fail for. -/
theorem assemble_eq_of_backed (hb : b.Backed) (a : Assembly) :
    b.sortField? = none ∧ b.assemble a = .error (.unknownOrder b.settings.orderBy) ∨
      ∃ s, b.assemble a = .ok s := by
  cases h : b.sortField? with
  | none =>
    refine .inl ⟨rfl, ?_⟩
    rw [assemble, orderField_of_sortField?_eq_none h]
    rfl
  | some f =>
    obtain ⟨r, hr⟩ := orderField_of_sortField? hb h
    rw [assemble, hr]
    exact .inr ⟨_, rfl⟩

theorem compile_of_admits {q : Query} (hb : b.Backed) (hc : b.catalog.Closed)
    (h : ∀ p ∈ q.predicates, b.catalog.Admits p) (hq : q.predicates ≠ []) :
    ∃ a, b.compile q = b.assemble a := by
  obtain ⟨plans, hplans⟩ := exists_plans_eq_ok hb hc h
  refine ⟨.ofPlans plans, ?_⟩
  rw [compile, Query.isEmpty, List.isEmpty_eq_false_iff.mpr hq, hplans]
  rfl

theorem compile_of_predicates_eq_nil {q : Query} (h : q.predicates = []) :
    b.compile q = .error .emptyQuery := by
  rw [compile, Query.isEmpty, h]
  rfl

theorem exists_compile_eq_ok {q : Query} {order : Field} (hb : b.Backed) (hc : b.catalog.Closed)
    (h : ∀ p ∈ q.predicates, b.catalog.Admits p) (hq : q.predicates ≠ [])
    (horder : b.catalog.lookup? b.settings.orderBy = some order)
    (hsort : order.isSortable = true) : ∃ s, b.compile q = .ok s := by
  obtain ⟨a, ha⟩ := compile_of_admits hb hc h hq
  have hsome : b.sortField? = some order := Option.filter_eq_some_iff.mpr ⟨horder, hsort⟩
  rw [ha]
  rcases assemble_eq_of_backed hb a with ⟨hnone, -⟩ | hok
  · rw [hsome] at hnone
    cases hnone
  · exact hok

theorem eq_of_compile_eq_error {q : Query} {e : CompileError} (hb : b.Backed)
    (hc : b.catalog.Closed) (h : ∀ p ∈ q.predicates, b.catalog.Admits p)
    (he : b.compile q = .error e) : e = .emptyQuery ∨ e = .unknownOrder b.settings.orderBy := by
  by_cases hq : q.predicates = []
  · rw [compile_of_predicates_eq_nil hq] at he
    exact .inl (Except.error.inj he).symm
  · obtain ⟨a, ha⟩ := compile_of_admits hb hc h hq
    rw [ha] at he
    rcases assemble_eq_of_backed hb a with ⟨-, h⟩ | ⟨s, h⟩
    · rw [h] at he
      exact .inr (Except.error.inj he).symm
    · rw [h] at he
      cases he

end Backend

/-! ## Reading and compiling -/

/-- **Reading is enough.** A query that was read over the columns of a flat table has a filter, and
one that was read over a relational corpus has a statement whenever the settings order by a field
that results can be ordered by. Only a query without predicates is refused as a whole, and only the
order of the settings can be at fault besides. -/
theorem compiles_of_read (totals : Totals) (input : String) :
    (∀ (columns : List String) (q : Query),
      Query.read (.columnar columns) totals input = .ok q →
      ∃ f, RowFilter.compileSteps (.columnar columns) q = .ok f ∧
        (q.predicates ≠ [] → RowFilter.compile (.columnar columns) q = .ok f) ∧
        (q.predicates = [] → RowFilter.compile (.columnar columns) q = .error .emptyQuery)) ∧
    ∀ (b : Backend) (q : Query), b.catalog = .relational b.schema →
      b.schema.hasTable Relation.facts.table = true → Query.read b.catalog totals input = .ok q →
      (∀ order, b.catalog.lookup? b.settings.orderBy = some order → order.isSortable = true →
        q.predicates ≠ [] → ∃ s, b.compile q = .ok s) ∧
      (q.predicates = [] → b.compile q = .error .emptyQuery) ∧
      ∀ e, b.compile q = .error e → e = .emptyQuery ∨ e = .unknownOrder b.settings.orderBy := by
  constructor
  · intro columns q hread
    obtain ⟨f, hf⟩ := RowFilter.exists_compileSteps_eq_ok (Catalog.closed_columnar columns)
      fun p hp ↦ Query.admits_of_mem_read hread hp
    refine ⟨f, hf, ?_, ?_⟩
    · intro hq
      rw [RowFilter.compile, Query.isEmpty, List.isEmpty_eq_false_iff.mpr hq]
      exact hf
    · intro hq
      rw [RowFilter.compile, Query.isEmpty, hq]
      rfl
  · intro b q hcatalog hfacts hread
    have hbacked := Backend.backed_of_catalog_eq hcatalog hfacts
    have hclosed : b.catalog.Closed := by
      rw [hcatalog]
      exact Catalog.closed_relational b.schema
    have hadmits : ∀ p ∈ q.predicates, b.catalog.Admits p :=
      fun p hp ↦ Query.admits_of_mem_read hread hp
    refine ⟨?_, ?_, ?_⟩
    · intro order horder hsort hq
      exact Backend.exists_compile_eq_ok hbacked hclosed hadmits hq horder hsort
    · intro hq
      exact Backend.compile_of_predicates_eq_nil hq
    · intro e he
      exact Backend.eq_of_compile_eq_error hbacked hclosed hadmits he

/-- A corpus whose features have a column that takes the name of the word form away. -/
def shadowingSchema : Schema where
  tables := [("wordfreqs", ["form", "lemma", "pos", "frequency", "len", "featid"]),
    ("features", ["featid", "form", "derivation"])]

/-- Statements over that corpus. -/
def shadowingBackend : Backend where
  catalog := .relational shadowingSchema
  schema := shadowingSchema
  settings := {}

/-- Redirected clauses compile although the word form is a feature there. -/
theorem compiles_redirected_clauses :
    ∃ q, Query.read shadowingBackend.catalog {}
        "start = ka and not compound and lemma notin (b#c,d)" = .ok q ∧
      ∃ s, shadowingBackend.compile q = .ok s := by
  have hread : Query.read shadowingBackend.catalog {}
      "start = ka and not compound and lemma notin (b#c,d)" = .ok
        { predicates := [⟨"form", .startsWith, .text "ka", false⟩,
          ⟨"lemma", .like, .text "%#%", true⟩,
          ⟨"lemmac", .isIn, .texts ["bc", "d"], true⟩] } := rfl
  have horder : shadowingBackend.catalog.lookup? shadowingBackend.settings.orderBy
      = some (Catalog.factField .numeric "frequency") := by decide +kernel
  have hcompiles := (compiles_of_read {} "start = ka and not compound and lemma notin (b#c,d)").2
    shadowingBackend _ rfl (by decide) hread
  exact ⟨_, hread, hcompiles.1 _ horder (by decide) (List.cons_ne_nil _ _)⟩

end CorpusQuery

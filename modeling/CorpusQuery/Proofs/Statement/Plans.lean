import CorpusQuery.Proofs.Catalog.Closure
import CorpusQuery.Proofs.Query.Admission
import CorpusQuery.Proofs.Sql.Columns
import CorpusQuery.Statement

/-!
# What the parts of a statement are about

Everything that a statement evaluates behind its joins is about one table, named by its alias: each
condition that is no look-up, each shown column and the order. The table is the facts table or one
that the statement joins, and it is never a satellite, because no field lives in a satellite. So
nothing that is shown or tested tells which of several rows of a satellite a combination has, apart
from the look-ups themselves.

We read this off backwards: from a plan that was made to how it was made, and from a statement to
its assembly. What conditions are about is one of the things that can be asked of the columns they
name, and the lemmas on the columns of conditions are for all such questions.

## Main statements

* `Backend.plan_spec`: what plans are about.
* `Backend.exists_select_of_compile`: a statement comes from plans, and what that makes of it.
* `Backend.covers_of_mem_outputColumns`: what shown columns are about.
-/

namespace CorpusQuery

open Sql (Expr Select)

/-! ## Plans -/

namespace Backend

variable {b : Backend} {P : Sql.ColumnName → Prop}

theorem physicalColumn_of_posx (hposx : b.posx = false) (r : Relation) (column : String) :
    b.physicalColumn r column = column := by
  unfold physicalColumn
  exact if_neg fun h ↦ Bool.false_ne_true (hposx.symm.trans h.2)

theorem over_columnExpr {f : Field} {r : Relation}
    (h : P ⟨some r.aliasName, b.physicalColumn r f.column⟩) : (b.columnExpr f r).Over P := by
  rw [columnExpr.eq_def]
  cases f.strip with
  | none => exact Expr.over_of h
  | some c => exact fun _ hc ↦ List.mem_singleton.mp hc ▸ h

theorem over_matchesGlob {column : String} (h : P ⟨some Relation.facts.aliasName, column⟩)
    (pattern : String) : (matchesGlob column pattern).Over P :=
  (Expr.over_of h).binary .glob (Expr.over_value _)

theorem over_positionalCondition (hform : P ⟨some Relation.facts.aliasName, "form"⟩)
    (hreversed : b.hasReversed = true → P ⟨some Relation.facts.aliasName, "revform"⟩)
    (op : Operator) (s : String) : (b.positionalCondition op s).Over P := by
  have hstart : (startsCondition s).Over P := over_matchesGlob hform _
  have hend : (b.endsCondition s).Over P := by
    rw [endsCondition]
    split
    case isTrue h => exact over_matchesGlob (hreversed h) _
    case isFalse => exact over_matchesGlob hform _
  rw [positionalCondition.eq_def]
  split
  · exact hstart
  · exact hend
  · exact ((over_matchesGlob hform _).binary .and hstart.negate).binary .and hend.negate

theorem cases_of_columnCondition_eq_ok {p : Predicate} {f : Field} {r : Relation} {e : Expr}
    (h : b.columnCondition p f r = .ok e) :
    e = .inList (b.columnExpr f r) (p.operand.values.map .value) false ∨
      ∃ o v, conditionOp? p.operator = some o ∧ e = .binary (b.columnExpr f r) o (.value v) := by
  rw [columnCondition.eq_def] at h
  split at h
  · exact .inl (Except.ok.inj h).symm
  · obtain ⟨o, ho, h⟩ := exists_of_bind_eq_ok h
    obtain ⟨v, -, h⟩ := exists_of_bind_eq_ok h
    exact .inr ⟨o, v, CompileError.require_eq_ok_iff.mp ho, (Except.ok.inj h).symm⟩

theorem over_columnCondition {p : Predicate} {f : Field} {r : Relation} {e : Expr}
    (h : P ⟨some r.aliasName, b.physicalColumn r f.column⟩)
    (he : b.columnCondition p f r = .ok e) : e.Over P := by
  have hcolumn : (b.columnExpr f r).Over P := over_columnExpr h
  rcases cases_of_columnCondition_eq_ok he with rfl | ⟨o, v, -, rfl⟩
  · exact hcolumn.inValues _ _
  · exact hcolumn.binary o (Expr.over_value v)

theorem over_ite_negate {e : Expr} (h : e.Over P) (negated : Bool) :
    Expr.Over P (if negated then e.negate else e) := by
  split
  · exact h.negate
  · exact h

/-- How a predicate on a field was planned. -/
inductive Planned (b : Backend) (p : Predicate) (f : Field) (r : Relation) : ConditionPlan → Prop
  | positional {e : Expr} (hpositional : p.operator.isPositional = true)
      (he : Expr.orAll? (p.operand.asTexts.map (b.positionalCondition p.operator)) = some e) :
      Planned b p f r (.shared (if p.negated then e.negate else e) .facts (b.positionalTouch p)
        (p.operator == .middle))
  | satellite {s : Relation} {first : Value} {rest : List Value}
      (hpositional : p.operator.isPositional = false) (hs : satelliteFor? p f = some s)
      (hvalues : p.operand.values = first :: rest) :
      Planned b p f r (.satellite s f.column first rest)
  | column {e : Expr} (hpositional : p.operator.isPositional = false)
      (hs : satelliteFor? p f = none) (he : b.columnCondition p f r = .ok e) :
      Planned b p f r (.shared (if p.negated then e.negate else e) r
        (if touchesColumn p f r then some f.column else none) p.isUnanchoredLike)

/-- **From a plan back to its field.** -/
theorem exists_planned {p : Predicate} {plan : ConditionPlan} (h : b.plan p = .ok plan) :
    ∃ f r, b.catalog.get? p.field = some f ∧ f.relation = some r ∧
      b.schema.hasTable r.table = true ∧ b.Planned p f r plan := by
  rw [Backend.plan] at h
  split at h
  · cases h
  next f hf =>
  split at h
  · cases h
  next r hr =>
  split at h
  · cases h
  next htable =>
  refine ⟨f, r, hf, hr, by simpa using htable, ?_⟩
  split at h
  case isTrue hpositional =>
    rw [planPositional] at h
    split at h
    · cases h
    · next e he =>
      obtain rfl := Except.ok.inj h
      exact .positional hpositional he
  case isFalse hpositional =>
    rw [Bool.not_eq_true] at hpositional
    split at h
    · next s hs =>
      rw [planSatellite] at h
      split at h
      · cases h
      · next first rest hvalues =>
        obtain rfl := Except.ok.inj h
        exact .satellite hpositional hs hvalues
    · next hs =>
      rw [planColumn] at h
      obtain ⟨e, he, h⟩ := exists_of_bind_eq_ok h
      obtain rfl := Except.ok.inj h
      exact .column hpositional hs he

theorem eq_of_satelliteFor? {p : Predicate} {f : Field} {r : Relation}
    (h : satelliteFor? p f = some r) :
    p.negated = false ∧ p.operand.hasPlaceholder = false ∧ f.satellite = some r := by
  rw [satelliteFor?] at h
  split at h
  · next hcondition =>
    simp only [Bool.and_eq_true, Bool.not_eq_true'] at hcondition
    exact ⟨hcondition.1.1, hcondition.2, h⟩
  · cases h

theorem satellite_of_satelliteFor? {p : Predicate} {f : Field} {r : Relation}
    (h : satelliteFor? p f = some r) : f.satellite = some r := (eq_of_satelliteFor? h).2.2

/-- What is known of a plan: a condition about one table that is there and no satellite, or a
look-up in the satellite of a column, for the values of the predicate. -/
inductive PlanSpec (s : Schema) (p : Predicate) : ConditionPlan → Prop where
  | shared {condition : Expr} {r : Relation} (touched : Option String) (unanchored : Bool)
      (hsatellite : r.isSatellite = false) (htable : r = .facts ∨ s.hasTable r.table = true)
      (habout : condition.About r.aliasName) :
      PlanSpec s p (.shared condition r touched unanchored)
  | satellite {r : Relation} {column : String} {first : Value} {rest : List Value}
      (hcolumn : Relation.satelliteOf? column = some r)
      (hvalues : p.operand.values = first :: rest) :
      PlanSpec s p (.satellite r column first rest)

/-- **Plans over a relational corpus.** -/
theorem plan_spec {s : Schema} (hcatalog : b.catalog = .relational s) {p : Predicate}
    {plan : ConditionPlan} (h : b.plan p = .ok plan) : PlanSpec b.schema p plan := by
  obtain ⟨f, r, hf, hr, htable, hplanned⟩ := exists_planned h
  have hmem : f ∈ (Catalog.relational s).fields := hcatalog ▸ Catalog.mem_of_get? hf
  have hsatellite := Catalog.isSatellite_of_mem_relational hmem hr
  cases hplanned with
  | @positional e _ he =>
    have habout : e.About Relation.facts.aliasName := by
      refine Expr.Over.orAll? (fun e he ↦ ?_) he
      obtain ⟨s, -, rfl⟩ := List.mem_map.mp he
      apply over_positionalCondition
      · rfl
      · exact fun _ ↦ rfl
    exact .shared _ _ rfl (.inl rfl) (over_ite_negate habout p.negated)
  | satellite _ hs hvalues =>
    have hcolumn := Catalog.satellite_of_mem_relational f hmem _ (satellite_of_satelliteFor? hs)
    exact .satellite hcolumn hvalues
  | @column e _ _ he =>
    have habout : e.About r.aliasName := over_columnCondition rfl he
    exact .shared _ _ hsatellite (.inr htable) (over_ite_negate habout p.negated)

theorem exists_spec_of_mapM {s : Schema} (hcatalog : b.catalog = .relational s)
    {ps : List Predicate} {plans : List ConditionPlan} (h : ps.mapM b.plan = .ok plans) :
    ∀ plan ∈ plans, ∃ p, PlanSpec b.schema p plan := by
  intro plan hplan
  obtain ⟨p, -, hp⟩ := exists_of_mem_mapM h hplan
  exact ⟨p, plan_spec hcatalog hp⟩

end Backend

/-! ## Assemblies -/

namespace Assembly

theorem requires_require {a : Assembly} {r s : Relation} :
    (a.require r).requires s = true ↔ a.requires s = true ∨ s = r ∧ r ≠ .facts := by
  rw [require]
  split
  case isTrue h =>
    refine ⟨.inl, fun hs ↦ hs.elim id ?_⟩
    rintro ⟨rfl, hne⟩
    exact h.resolve_left hne
  case isFalse h =>
    rw [not_or] at h
    simp only [requires, List.contains_iff_mem, List.mem_append, List.mem_singleton]
    exact or_congr_right (iff_self_and.mpr fun _ ↦ h.1)

theorem requires_foldl_require (a : Assembly) (rs : List Relation) (s : Relation) :
    (rs.foldl require a).requires s = true ↔ a.requires s = true ∨ s ∈ rs ∧ s ≠ .facts := by
  induction rs generalizing a with
  | nil => simp
  | cons r rs ih =>
    rw [List.foldl_cons, ih, requires_require, List.mem_cons, or_assoc]
    refine or_congr_right ?_
    constructor
    · rintro (⟨rfl, hne⟩ | ⟨hs, hne⟩)
      · exact ⟨.inl rfl, hne⟩
      · exact ⟨.inr hs, hne⟩
    · rintro ⟨rfl | hs, hne⟩
      · exact .inl ⟨rfl, hne⟩
      · exact .inr ⟨hs, hne⟩

theorem foldl_require_eq (a : Assembly) (rs : List Relation) :
    rs.foldl require a = { a with relations := (rs.foldl require a).relations } := by
  induction rs generalizing a with
  | nil => rfl
  | cons r rs ih =>
    rw [List.foldl_cons, ih]
    rw [require]
    split <;> rfl

theorem foldl_require_conditions (a : Assembly) (es : List Expr) (rs : List Relation) :
    rs.foldl require { a with conditions := es }
      = { rs.foldl require a with conditions := es } := by
  induction rs generalizing a with
  | nil => rfl
  | cons r rs ih =>
    have hrequire : require { a with conditions := es } r
        = { a.require r with conditions := es } := by
      rw [require, require]
      split
      · next h => rw [if_pos (by exact h)]
      · next h => rw [if_neg (by exact h)]
    rw [List.foldl_cons, hrequire, ih, List.foldl_cons]

theorem requires_ofPlans {plans : List ConditionPlan} {s : Relation} :
    (ofPlans plans).requires s = true ↔ s ≠ .facts ∧
      ∃ condition touched unanchored, .shared condition s touched unanchored ∈ plans := by
  simp only [requires, ofPlans, List.contains_iff_mem, List.mem_filterMap]
  constructor
  · rintro ⟨plan, hmem, h⟩
    cases plan with
    | satellite => cases h
    | shared condition r touched unanchored =>
      dsimp only at h
      split at h
      · cases h
      · next hne =>
        obtain rfl := Option.some.inj h
        exact ⟨hne, condition, touched, unanchored, hmem⟩
  · rintro ⟨hne, condition, touched, unanchored, hmem⟩
    exact ⟨_, hmem, if_neg hne⟩

/-- Whether an expression is about the facts table or about a table that is joined once. -/
def Covers (a : Assembly) (e : Expr) : Prop :=
  ∃ r : Relation, r.isSatellite = false ∧ (r = .facts ∨ a.requires r = true) ∧
    e.About r.aliasName

end Assembly

namespace Backend

variable {b : Backend} {P : Sql.ColumnName → Prop}

/-- What is known of a statement that was made from plans, and of its assembly. -/
structure SelectSpec (b : Backend) (plans : List ConditionPlan) (a : Assembly) (s : Select) :
    Prop where
  /-- Look-ups are made in the satellite of their column. -/
  satellite : ∀ r column first rest, .satellite r column first rest ∈ plans →
    Relation.satelliteOf? column = some r
  /-- Other conditions are about tables that are joined once. -/
  shared : ∀ condition r touched unanchored, .shared condition r touched unanchored ∈ plans →
    a.Covers condition
  /-- Tables that are joined once are there, and they are no satellites. -/
  required : ∀ r, a.requires r = true → b.schema.hasTable r.table = true ∧ r.isSatellite = false
  satellites : a.satellites = (Assembly.ofPlans plans).satellites
  distinct : s.distinct = plans.any (·.fansOut)
  items : s.items = (b.outputColumns a).map (·.item)
  sources : ∃ index,
    s.sources = [⟨⟨none, Relation.facts.table⟩, some Relation.facts.aliasName, index⟩]
  joins : s.joins = b.joins a
  condition : s.condition = Expr.andAll? (Assembly.ofPlans plans).conditions
  order : ∀ o ∈ s.order, a.Covers o.expr
  /-- Rows are ordered by the field of the settings. -/
  ordered : ∃ f r, b.orderField = .ok (f, r) ∧ ∀ o ∈ s.order, o.expr = b.columnExpr f r

/-- **From the order back to its field.** -/
theorem exists_field_of_orderField {f : Field} {r : Relation} (h : b.orderField = .ok (f, r)) :
    b.catalog.get? (Catalog.resolve b.settings.orderBy) = some f ∧ f.relation = some r ∧
      b.schema.hasTable r.table = true := by
  rw [orderField] at h
  split at h
  · cases h
  next f' hf =>
  split at h
  · cases h
  next r' hr =>
  split at h
  · next htable =>
    obtain ⟨rfl, rfl⟩ := Prod.mk.inj (Except.ok.inj h)
    exact ⟨(Option.filter_eq_some_iff.mp hf).1, hr, htable⟩
  · cases h

theorem relative_of_orderField {f : Field} {r : Relation} (h : b.orderField = .ok (f, r)) :
    f.relative = none := by
  rw [orderField] at h
  split at h
  · cases h
  next f' hf =>
  split at h
  · cases h
  split at h
  · obtain ⟨rfl, rfl⟩ := Prod.mk.inj (Except.ok.inj h)
    have hsortable := (Option.filter_eq_some_iff.mp hf).2
    rw [Field.isSortable, Bool.and_eq_true] at hsortable
    exact Option.isNone_iff_eq_none.mp hsortable.2
  · cases h

theorem orderField_spec {s : Schema} (hcatalog : b.catalog = .relational s) {f : Field}
    {r : Relation} (h : b.orderField = .ok (f, r)) :
    b.schema.hasTable r.table = true ∧ r.isSatellite = false := by
  obtain ⟨hf, hr, htable⟩ := exists_field_of_orderField h
  have hmem : f ∈ (Catalog.relational s).fields := hcatalog ▸ Catalog.mem_of_get? hf
  exact ⟨htable, Catalog.isSatellite_of_mem_relational hmem hr⟩

theorem spec_of_mem_outputRelations {r : Relation} (h : r ∈ b.outputRelations) :
    b.schema.hasTable r.table = true ∧ r.isSatellite = false := by
  simp only [outputRelations, List.mem_append, List.mem_filter, List.mem_ite_nil_right,
    List.mem_singleton, Bool.and_eq_true] at h
  rcases h with ⟨⟨htable, -⟩, rfl⟩ | ⟨⟨-, rfl⟩ | ⟨-, hr⟩, htable⟩
  · exact ⟨htable, rfl⟩
  · exact ⟨htable, rfl⟩
  · have hall : ∀ r ∈ gramColumns.map (·.1), r.isSatellite = false := by decide
    exact ⟨htable, hall r hr⟩

/-- The statement for plans of which the specification is known. Its assembly is that of the plans
with more tables required of it. -/
theorem selectSpec_of_assemble {s : Schema} (hcatalog : b.catalog = .relational s)
    {plans : List ConditionPlan} (hspec : ∀ plan ∈ plans, ∃ p, PlanSpec b.schema p plan)
    {f : Field} {r : Relation} (horder : b.orderField = .ok (f, r)) {st : Statement}
    (h : b.assemble (.ofPlans plans) = .ok st) :
    b.SelectSpec plans ((r :: b.outputRelations).foldl Assembly.require (.ofPlans plans))
      st.select := by
  rw [assemble, horder] at h
  obtain rfl := Except.ok.inj h
  obtain ⟨htable, hsatellite⟩ := orderField_spec hcatalog horder
  have hrequires := Assembly.requires_foldl_require (.ofPlans plans) (r :: b.outputRelations)
  have hfold := Assembly.foldl_require_eq (.ofPlans plans) (r :: b.outputRelations)
  refine
    { satellite := ?_, shared := ?_, required := ?_, satellites := ?_, distinct := ?_
      items := rfl, sources := ⟨_, rfl⟩, joins := rfl, condition := ?_, order := ?_
      ordered := ⟨f, r, horder, fun o ho ↦ ?_⟩ }
  · intro s column first rest hmem
    obtain ⟨p, hp⟩ := hspec _ hmem
    cases hp with
    | satellite hcolumn _ => exact hcolumn
  · intro condition s touched unanchored hmem
    obtain ⟨p, hp⟩ := hspec _ hmem
    cases hp with
    | shared _ _ hsatellite _ habout =>
      refine ⟨s, hsatellite, Classical.or_iff_not_imp_left.mpr fun hne ↦ ?_, habout⟩
      exact (hrequires s).mpr (.inl
        (Assembly.requires_ofPlans.mpr ⟨hne, condition, touched, unanchored, hmem⟩))
  · intro s hs
    rcases (hrequires s).mp hs with hs | ⟨hs, -⟩
    · obtain ⟨hne, condition, touched, unanchored, hmem⟩ := Assembly.requires_ofPlans.mp hs
      obtain ⟨p, hp⟩ := hspec _ hmem
      cases hp with
      | shared _ _ hsatellite htable _ => exact ⟨htable.resolve_left hne, hsatellite⟩
    · rcases List.mem_cons.mp hs with rfl | hs
      · exact ⟨htable, hsatellite⟩
      · exact spec_of_mem_outputRelations hs
  · rw [hfold]
  · rw [hfold]
    rfl
  · rw [hfold]
  · intro o ho
    obtain rfl := List.mem_singleton.mp ho
    refine ⟨r, hsatellite, Classical.or_iff_not_imp_left.mpr fun hne ↦ ?_,
      over_columnExpr rfl⟩
    exact (hrequires r).mpr (.inr ⟨List.mem_cons_self, hne⟩)
  · obtain rfl := List.mem_singleton.mp ho
    rfl

theorem exists_select_of_assemble {s : Schema} (hcatalog : b.catalog = .relational s)
    {plans : List ConditionPlan} (hspec : ∀ plan ∈ plans, ∃ p, PlanSpec b.schema p plan)
    {st : Statement} (h : b.assemble (.ofPlans plans) = .ok st) :
    ∃ a, b.SelectSpec plans a st.select := by
  obtain ⟨⟨f, r⟩, horder, -⟩ := exists_of_bind_eq_ok h
  exact ⟨_, selectSpec_of_assemble hcatalog hspec horder h⟩

theorem condition_of_assemble {a : Assembly} {st : Statement} (h : b.assemble a = .ok st) :
    st.select.condition = Expr.andAll? a.conditions := by
  obtain ⟨⟨f, r⟩, -, h⟩ := exists_of_bind_eq_ok h
  obtain rfl := Except.ok.inj h
  exact congrArg (Expr.andAll? ·.conditions) (Assembly.foldl_require_eq a (r :: b.outputRelations))

theorem limit_of_assemble {a : Assembly} {st : Statement} (h : b.assemble a = .ok st) :
    st.select.limit = some b.fetchLimit ∧ st.posx = b.posx := by
  obtain ⟨⟨f, r⟩, -, h⟩ := exists_of_bind_eq_ok h
  obtain rfl := Except.ok.inj h
  exact ⟨rfl, rfl⟩

theorem order_of_assemble {a : Assembly} {st : Statement} (h : b.assemble a = .ok st) :
    ∃ f r, b.orderField = .ok (f, r) ∧ st.select.order = [{
      expr := b.columnExpr f r
      direction := some (if b.settings.ascending then .ascending else .descending) }] := by
  obtain ⟨⟨f, r⟩, horder, h⟩ := exists_of_bind_eq_ok h
  obtain rfl := Except.ok.inj h
  exact ⟨f, r, horder, rfl⟩

/-- A query that compiles has predicates, and its statement is the one that is assembled for their
plans. -/
theorem exists_plans_of_compile {q : Query} {st : Statement} (h : b.compile q = .ok st) :
    q.isEmpty = false ∧ ∃ plans, q.predicates.mapM b.plan = .ok plans ∧
      b.assemble (.ofPlans plans) = .ok st := by
  rw [compile] at h
  split at h
  · cases h
  · next hempty =>
    obtain ⟨plans, hplans, h⟩ := exists_of_bind_eq_ok h
    exact ⟨Bool.eq_false_iff.mpr hempty, plans, hplans, h⟩

theorem exists_assemble_of_compile {q : Query} {st : Statement} (h : b.compile q = .ok st) :
    q.isEmpty = false ∧ ∃ plans, b.assemble (.ofPlans plans) = .ok st := by
  obtain ⟨hempty, plans, -, h⟩ := exists_plans_of_compile h
  exact ⟨hempty, plans, h⟩

theorem limit_of_compile {q : Query} {st : Statement} (h : b.compile q = .ok st) :
    st.select.limit = some b.fetchLimit ∧ st.posx = b.posx := by
  obtain ⟨-, plans, h⟩ := exists_assemble_of_compile h
  exact limit_of_assemble h

/-- **From a statement back to its plans.** -/
theorem exists_select_of_compile {s : Schema} (hcatalog : b.catalog = .relational s) {q : Query}
    {st : Statement} (h : b.compile q = .ok st) :
    ∃ plans a, q.predicates.mapM b.plan = .ok plans ∧ b.SelectSpec plans a st.select := by
  obtain ⟨-, plans, hplans, h⟩ := exists_plans_of_compile h
  have hspec := exists_spec_of_mapM hcatalog hplans
  obtain ⟨a, ha⟩ := exists_select_of_assemble hcatalog hspec h
  exact ⟨plans, a, hplans, ha⟩

/-- The plan that a list of word forms stands for. -/
def wordsPlan (words : List String) : ConditionPlan :=
  .shared (.inList (.of Relation.facts.aliasName "form") (words.map fun w ↦ .value (.text w)) false)
    .facts (some "form") false

theorem ofWords_eq (words : List String) :
    Assembly.ofWords words = .ofPlans [wordsPlan words] := rfl

theorem over_wordsPlan (hform : P ⟨some Relation.facts.aliasName, "form"⟩)
    (words : List String) (aliasName : String) :
    ((wordsPlan words).condition aliasName).Over P := by
  have hvalues : (words.map fun w ↦ Expr.value (.text w)) = (words.map Value.text).map .value := by
    rw [List.map_map]
    rfl
  rw [wordsPlan, ConditionPlan.condition, hvalues]
  exact (Expr.over_of hform).inValues _ false

theorem exists_select_of_compileWords {s : Schema} (hcatalog : b.catalog = .relational s)
    {words : List String} {st : Statement} (h : b.compileWords words = .ok st) :
    ∃ a, b.SelectSpec [wordsPlan words] a st.select := by
  rw [compileWords] at h
  split at h
  · cases h
  rw [ofWords_eq] at h
  refine exists_select_of_assemble hcatalog ?_ h
  intro plan hplan
  obtain rfl := List.mem_singleton.mp hplan
  have habout : ((wordsPlan words).condition "").About Relation.facts.aliasName := by
    apply over_wordsPlan
    rfl
  exact ⟨⟨"form", .isIn, .texts words, false⟩, .shared _ _ rfl (.inl rfl) habout⟩

theorem limit_of_compileWords {words : List String} {st : Statement}
    (h : b.compileWords words = .ok st) :
    st.select.limit = some b.fetchLimit ∧ st.posx = b.posx := by
  rw [compileWords] at h
  split at h
  · cases h
  · exact limit_of_assemble h

/-! ## Shown columns -/

theorem mem_of_mem_firstOfEachName {seen : List String} {cs : List OutputColumn}
    {c : OutputColumn} (h : c ∈ firstOfEachName seen cs) : c ∈ cs := by
  induction cs generalizing seen with
  | nil => cases h
  | cons first cs ih =>
    rw [firstOfEachName] at h
    split at h
    · exact List.mem_cons_of_mem _ (ih h)
    · rcases List.mem_cons.mp h with rfl | h
      · exact List.mem_cons_self
      · exact List.mem_cons_of_mem _ (ih h)

theorem exists_mem_firstOfEachName {seen : List String} {cs rest : List OutputColumn}
    {c : OutputColumn} (h : c ∈ cs) (hseen : c.name ∉ seen) :
    ∃ c' ∈ firstOfEachName seen (cs ++ rest), c' ∈ cs ∧ c'.name = c.name := by
  induction cs generalizing seen with
  | nil => cases h
  | cons first cs ih =>
    rw [List.cons_append, firstOfEachName]
    by_cases hname : first.name = c.name
    · rw [if_neg (by rw [hname, List.contains_iff_mem]; exact hseen)]
      exact ⟨first, List.mem_cons_self, List.mem_cons_self, hname⟩
    · have hmem : c ∈ cs := (List.mem_cons.mp h).resolve_left fun heq ↦ hname (heq ▸ rfl)
      split
      · obtain ⟨c', hc', hcs, hc⟩ := ih hmem hseen
        exact ⟨c', hc', List.mem_cons_of_mem _ hcs, hc⟩
      · have hseen : c.name ∉ first.name :: seen := fun hmem ↦
          (List.mem_cons.mp hmem).elim (fun heq ↦ hname heq.symm) hseen
        obtain ⟨c', hc', hcs, hc⟩ := ih hmem hseen
        exact ⟨c', List.mem_cons_of_mem _ hc', List.mem_cons_of_mem _ hcs, hc⟩

/-- Where a shown column is from. -/
inductive Shown (b : Backend) (a : Assembly) : OutputColumn → Prop
  | fact {column : String}
      (h : column ∈ (b.schema.columns Relation.facts.table).filter (!hiddenColumns.contains ·)) :
      Shown b a ⟨.of Relation.facts.aliasName (b.physicalColumn .facts column), column,
        b.physicalColumn .facts column != column⟩
  | feature {column : String} (hr : a.requires .features = true)
      (h : column ∈ (b.schema.columns Relation.features.table).filter
        (!Catalog.featureKeys.contains ·)) :
      Shown b a ⟨.of Relation.features.aliasName column, column, false⟩
  | statistic {column : String} (hr : a.requires .lemmas = true)
      (h : column ∈ lemmaStatistics.filter (b.schema.hasColumn Relation.lemmas.table)) :
      Shown b a ⟨.of Relation.lemmas.aliasName column, column, false⟩
  | gram {r : Relation} {name : String} (hr : a.requires r = true) (h : (r, name) ∈ gramColumns) :
      Shown b a ⟨.of r.aliasName "frequency", name, true⟩

theorem shown_of_mem_outputColumns {a : Assembly} {c : OutputColumn}
    (h : c ∈ b.outputColumns a) : b.Shown a c := by
  have hmem := mem_of_mem_firstOfEachName h
  simp only [List.mem_append, List.mem_ite_nil_right, Bool.and_eq_true] at hmem
  rcases hmem with ((hc | ⟨hr, hc⟩) | ⟨⟨-, hr⟩, hc⟩) | ⟨-, hc⟩
  · obtain ⟨column, hcolumn, rfl⟩ := List.mem_map.mp hc
    exact .fact hcolumn
  · obtain ⟨column, hcolumn, rfl⟩ := List.mem_map.mp hc
    exact .feature hr hcolumn
  · obtain ⟨column, hcolumn, rfl⟩ := List.mem_map.mp hc
    exact .statistic hr hcolumn
  · obtain ⟨g, hg, rfl⟩ := List.mem_map.mp hc
    obtain ⟨hgram, hr⟩ := List.mem_filter.mp hg
    exact .gram hr hgram

theorem exists_expr_of_mem_outputColumns {a : Assembly} {c : OutputColumn}
    (h : c ∈ b.outputColumns a) : ∃ aliasName column, c.expr = .of aliasName column := by
  cases shown_of_mem_outputColumns h with
  | fact | feature | statistic | gram => exact ⟨_, _, rfl⟩

/-- **Shown columns** are columns of the facts table or of tables that are joined once. -/
theorem covers_of_mem_outputColumns {a : Assembly} {c : OutputColumn}
    (h : c ∈ b.outputColumns a) : a.Covers c.expr := by
  cases shown_of_mem_outputColumns h with
  | fact => exact ⟨.facts, rfl, .inl rfl, Expr.over_of rfl⟩
  | feature hr => exact ⟨.features, rfl, .inr hr, Expr.over_of rfl⟩
  | statistic hr => exact ⟨.lemmas, rfl, .inr hr, Expr.over_of rfl⟩
  | @gram r _ hr hgram =>
    have hall : ∀ e ∈ gramColumns, e.1.isSatellite = false := by decide
    exact ⟨r, hall _ hgram, .inr hr, Expr.over_of rfl⟩

theorem SelectSpec.covers_items {plans : List ConditionPlan} {a : Assembly} {s : Select}
    (hs : b.SelectSpec plans a s) : ∀ i ∈ s.items, a.Covers i.expr := by
  intro i hi
  rw [hs.items] at hi
  obtain ⟨c, hc, rfl⟩ := List.mem_map.mp hi
  exact covers_of_mem_outputColumns hc

theorem exists_item_of_mem_factColumns {a : Assembly} {c : OutputColumn}
    (h : c ∈ b.factColumns) : ∃ c' ∈ b.outputColumns a, c'.expr = c.expr := by
  rw [outputColumns, List.append_assoc, List.append_assoc]
  obtain ⟨c', hc', hcs, hname⟩ := exists_mem_firstOfEachName h List.not_mem_nil
  refine ⟨c', hc', ?_⟩
  obtain ⟨column, -, rfl⟩ := List.mem_map.mp h
  obtain ⟨column', -, rfl⟩ := List.mem_map.mp hcs
  obtain rfl : column' = column := hname
  rfl

end Backend

end CorpusQuery

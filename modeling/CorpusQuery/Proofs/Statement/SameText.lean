import CorpusQuery.Proofs.Lists
import CorpusQuery.Proofs.Sql.Masking
import CorpusQuery.Proofs.Statement.Plans

/-!
# Values do not reach the text of statements

Two queries of the same shape are compiled to statements that differ in their arguments only, or are
refused for the same reason. The shape of a predicate is what compiling looks at: its field, its
operator and its negation, the kind of its operand and how many items a list has, whether a text
holds the placeholder, and whether a pattern may start with anything.

There is one thing more that compiling looks at. A place in a word is looked up by text, and the
only operand without a text is a missing number. No query is read as such a predicate, but it can be
built, and it is refused where the same predicate with a number is not. So predicates also have to
agree on whether they lack a text where one is needed.

All of it is shown by masking values. Compiling a masked plan gives the masked statement, and plans
of predicates of one shape are equal once masked.
-/

namespace CorpusQuery

/-! ## Shapes -/

/-- The kinds of operands, with the number of items of a list. -/
inductive OperandKind where
  | number
  | text
  | texts (count : Nat)
deriving DecidableEq, Repr

def Operand.kind : Operand → OperandKind
  | .number _ => .number
  | .text _ => .text
  | .texts ss => .texts ss.length

/-- A predicate without the texts and numbers that it compares with. -/
structure PredicateShape where
  field : String
  operator : Operator
  negated : Bool
  operand : OperandKind
  placeholder : Bool
  unanchored : Bool
deriving DecidableEq, Repr

namespace Predicate

def shape (p : Predicate) : PredicateShape where
  field := p.field
  operator := p.operator
  negated := p.negated
  operand := p.operand.kind
  placeholder := p.operand.hasPlaceholder
  unanchored := p.isUnanchoredLike

/-- Whether a place in a word is asked about without a text. -/
def lacksText (p : Predicate) : Bool := p.operator.isPositional && p.operand.asTexts.isEmpty

end Predicate

namespace Operand

theorem length_values_eq {o o' : Operand} (h : o.kind = o'.kind) :
    o.values.length = o'.values.length := by
  cases o with
  | number v => cases o' <;> first | rfl | cases h
  | text s => cases o' <;> first | rfl | cases h
  | texts ss =>
    cases o' with
    | number v => cases h
    | text s => cases h
    | texts ss' =>
      rw [values, values, List.length_map, List.length_map]
      exact OperandKind.texts.inj h

theorem length_asTexts_eq {o o' : Operand} (h : o.kind = o'.kind)
    (hempty : o.asTexts.isEmpty = o'.asTexts.isEmpty) :
    o.asTexts.length = o'.asTexts.length := by
  cases o with
  | number v =>
    cases o' with
    | number v' =>
      rw [asTexts, asTexts] at hempty ⊢
      cases hv : v.asText? <;> cases hv' : v'.asText? <;> rw [hv, hv'] at hempty <;>
        first | rfl | cases hempty
    | text s => cases h
    | texts ss => cases h
  | text s => cases o' <;> first | rfl | cases h
  | texts ss =>
    cases o' with
    | number v => cases h
    | text s => cases h
    | texts ss' => exact OperandKind.texts.inj h

end Operand

/-! ## Plans -/

/-- The plan with its values forgotten. -/
def ConditionPlan.mask : ConditionPlan → ConditionPlan
  | .shared condition r touched unanchored => .shared condition.mask r touched unanchored
  | .satellite r column _ rest => .satellite r column .null (rest.map fun _ ↦ .null)

namespace Backend

variable {b : Backend} {p p' : Predicate}

theorem mask_matchesGlob (column pattern : String) :
    (matchesGlob column pattern).mask
      = .binary (.of Relation.facts.aliasName column) .glob (.value .null) := rfl

theorem mask_endsCondition (s s' : String) :
    (b.endsCondition s).mask = (b.endsCondition s').mask := by
  rw [endsCondition, endsCondition]
  split
  · rw [mask_matchesGlob, mask_matchesGlob]
  · rw [mask_matchesGlob, mask_matchesGlob]

theorem mask_startsCondition (s s' : String) :
    (startsCondition s).mask = (startsCondition s').mask := by
  rw [startsCondition, startsCondition, mask_matchesGlob, mask_matchesGlob]

theorem mask_middleCondition (s s' : String) :
    (b.middleCondition s).mask = (b.middleCondition s').mask := by
  rw [middleCondition, middleCondition]
  simp only [Sql.Expr.mask, Sql.Expr.mask_negate, mask_matchesGlob]
  rw [mask_startsCondition s s', mask_endsCondition s s']

theorem mask_positionalCondition (op : Operator) (s s' : String) :
    (b.positionalCondition op s).mask = (b.positionalCondition op s').mask := by
  rw [positionalCondition.eq_def, positionalCondition.eq_def]
  split
  · exact mask_startsCondition s s'
  · exact mask_endsCondition s s'
  · exact mask_middleCondition s s'

theorem mask_inList_values (e : Sql.Expr) (vs : List Value) (negated : Bool) :
    (Sql.Expr.inList e (vs.map .value) negated).mask
      = .inList e.mask ((vs.map fun _ ↦ Value.null).map .value) negated := by
  rw [Sql.Expr.mask, Sql.Expr.maskAll_eq_map, List.map_map, List.map_map]
  rfl

theorem mask_ite_negate {e e' : Sql.Expr} (h : e.mask = e'.mask) (negated : Bool) :
    (if negated then e.negate else e).mask = (if negated then e'.negate else e').mask := by
  cases negated with
  | false => exact h
  | true =>
    rw [if_pos rfl, if_pos rfl, Sql.Expr.mask_negate, Sql.Expr.mask_negate, h]

/-- Optional conditions that are the same apart from values are both there or both missing. -/
theorem mask_cases {o o' : Option Sql.Expr} (h : o.map Sql.Expr.mask = o'.map Sql.Expr.mask) :
    (o = none ∧ o' = none) ∨ ∃ e e', o = some e ∧ o' = some e' ∧ e.mask = e'.mask := by
  cases o <;> cases o'
  · exact .inl ⟨rfl, rfl⟩
  · cases h
  · cases h
  · exact .inr ⟨_, _, rfl, rfl, Option.some.inj h⟩

theorem map_planPositional_eq (hshape : p.shape = p'.shape)
    (htexts : p.operand.asTexts.length = p'.operand.asTexts.length) :
    (b.planPositional p).map ConditionPlan.mask = (b.planPositional p').map ConditionPlan.mask := by
  obtain ⟨hfield, hop, hneg, -, -, -⟩ := PredicateShape.mk.inj hshape
  have hcondition : (Sql.Expr.orAll? (p.operand.asTexts.map
        (b.positionalCondition p.operator))).map Sql.Expr.mask
      = (Sql.Expr.orAll? (p'.operand.asTexts.map
        (b.positionalCondition p'.operator))).map Sql.Expr.mask := by
    have hmask : Sql.Expr.mask ∘ b.positionalCondition p'.operator
        = fun _ ↦ (b.positionalCondition p'.operator "").mask :=
      funext fun s ↦ mask_positionalCondition p'.operator s ""
    rw [← Sql.Expr.orAll?_map_mask, ← Sql.Expr.orAll?_map_mask, List.map_map, List.map_map, hop,
      hmask, List.map_const', List.map_const', htexts]
  have htouch : b.positionalTouch p = b.positionalTouch p' := by
    rw [positionalTouch, positionalTouch, hop, hneg]
  rw [planPositional, planPositional]
  obtain ⟨he, he'⟩ | ⟨e, e', he, he', hmask⟩ := mask_cases hcondition <;> rw [he, he']
  · rw [hfield]
  · dsimp only [Except.map, ConditionPlan.mask]
    rw [htouch, hop, hneg, mask_ite_negate hmask]

theorem map_columnCondition_eq (hshape : p.shape = p'.shape) (f : Field) (r : Relation) :
    (b.columnCondition p f r).map Sql.Expr.mask
      = (b.columnCondition p' f r).map Sql.Expr.mask := by
  obtain ⟨hfield, hop, -, hkind, -, -⟩ := PredicateShape.mk.inj hshape
  have hlength := Operand.length_values_eq hkind
  rw [columnCondition.eq_def, columnCondition.eq_def, hop, hfield]
  split
  · refine congrArg Except.ok ?_
    rw [mask_inList_values, mask_inList_values, List.map_const', List.map_const', hlength]
  · cases conditionOp? p'.operator with
    | none => rfl
    | some o =>
      rcases eq_nil_or_eq_cons_of_length_eq hlength with
        ⟨hvs, hws⟩ | ⟨v, vs, w, ws, hvs, hws, -⟩ <;> rw [hvs, hws]
      rfl

theorem map_planColumn_eq (hshape : p.shape = p'.shape) (f : Field) (r : Relation) :
    (b.planColumn p f r).map ConditionPlan.mask
      = (b.planColumn p' f r).map ConditionPlan.mask := by
  obtain ⟨-, -, hneg, -, -, hunanchored⟩ := PredicateShape.mk.inj hshape
  have hcondition := map_columnCondition_eq (b := b) hshape f r
  have htouch : touchesColumn p f r = touchesColumn p' f r := by
    rw [touchesColumn, touchesColumn, hneg, hunanchored]
  rw [planColumn, planColumn]
  generalize b.columnCondition p f r = x at hcondition ⊢
  generalize b.columnCondition p' f r = x' at hcondition ⊢
  cases x with
  | error err =>
    cases x' with
    | error err' => exact congrArg Except.error (Except.error.inj hcondition)
    | ok e' => cases hcondition
  | ok e =>
    cases x' with
    | error err' => cases hcondition
    | ok e' =>
      refine congrArg Except.ok ?_
      dsimp only [ConditionPlan.mask]
      rw [htouch, hunanchored, hneg, mask_ite_negate (Except.ok.inj hcondition)]

theorem map_planSatellite_eq (hshape : p.shape = p'.shape) (f : Field) (r : Relation) :
    (planSatellite p f r).map ConditionPlan.mask
      = (planSatellite p' f r).map ConditionPlan.mask := by
  obtain ⟨hfield, -, -, hkind, -, -⟩ := PredicateShape.mk.inj hshape
  have hlength := Operand.length_values_eq hkind
  rw [planSatellite, planSatellite]
  rcases eq_nil_or_eq_cons_of_length_eq hlength with
    ⟨hvs, hws⟩ | ⟨v, vs, w, ws, hvs, hws, hrest⟩ <;> rw [hvs, hws]
  · rw [hfield]
  · dsimp only [Except.map, ConditionPlan.mask]
    rw [List.map_const', List.map_const', hrest]

/-- **One predicate.** Predicates of one shape are planned alike, apart from their values. -/
theorem map_plan_eq (hshape : p.shape = p'.shape) (hlacks : p.lacksText = p'.lacksText) :
    (b.plan p).map ConditionPlan.mask = (b.plan p').map ConditionPlan.mask := by
  obtain ⟨hfield, hop, hneg, hkind, hplaceholder, -⟩ := PredicateShape.mk.inj hshape
  have hsatellite (f : Field) : satelliteFor? p f = satelliteFor? p' f := by
    rw [satelliteFor?, satelliteFor?, hneg, hop, hplaceholder]
  rw [plan, plan, hfield, hop]
  split
  · rfl
  · next f _ =>
    split
    · rfl
    · next r _ =>
      split
      · rfl
      · split
        · next hplace =>
          -- The only place where texts are counted and not the values of the operand.
          rw [Predicate.lacksText, Predicate.lacksText, hop, hplace, Bool.true_and,
            Bool.true_and] at hlacks
          exact map_planPositional_eq hshape (Operand.length_asTexts_eq hkind hlacks)
        · rw [hsatellite f]
          split
          · exact map_planSatellite_eq hshape f _
          · exact map_planColumn_eq hshape f r

end Backend

/-! ## Assemblies -/

/-- The assembly with the values of its conditions forgotten. -/
def Assembly.mask (a : Assembly) : Assembly :=
  { a with conditions := a.conditions.map Sql.Expr.mask }

theorem ConditionPlan.mask_condition (aliasName : String) (plan : ConditionPlan) :
    (plan.condition aliasName).mask = plan.mask.condition aliasName := by
  cases plan with
  | shared condition r touched unanchored => rfl
  | satellite r column first rest =>
    cases rest with
    | nil => rfl
    | cons next rest =>
      exact Backend.mask_inList_values (.of aliasName column) (first :: next :: rest) false

namespace Assembly

theorem label_map_mask (seen : List Relation) (plans : List ConditionPlan) :
    label seen (plans.map ConditionPlan.mask)
      = (label seen plans).map fun (plan, aliasName) ↦ (plan.mask, aliasName) := by
  induction plans generalizing seen with
  | nil => rfl
  | cons plan plans ih =>
    cases plan with
    | shared condition r touched unanchored => exact congrArg _ (ih seen)
    | satellite r column first rest => exact congrArg _ (ih (r :: seen))

theorem foldl_noteIndex_map_mask (u : IndexUse) (plans : List ConditionPlan) :
    (plans.map ConditionPlan.mask).foldl noteIndex u = plans.foldl noteIndex u := by
  induction plans generalizing u with
  | nil => rfl
  | cons plan plans ih => cases plan <;> exact ih _

theorem fansOut_mask (plan : ConditionPlan) : plan.mask.fansOut = plan.fansOut := by
  cases plan with
  | shared condition r touched unanchored => rfl
  | satellite r column first rest => cases rest <;> rfl

/-- **Assembling and masking.** Only the conditions of an assembly have values. -/
theorem ofPlans_map_mask (plans : List ConditionPlan) :
    ofPlans (plans.map ConditionPlan.mask) = (ofPlans plans).mask := by
  have hcondition : (fun (labelled : ConditionPlan × String) ↦
      labelled.1.mask.condition labelled.2)
      = fun labelled ↦ (labelled.1.condition labelled.2).mask :=
    funext fun labelled ↦ (ConditionPlan.mask_condition labelled.2 labelled.1).symm
  unfold ofPlans mask
  simp only [label_map_mask, foldl_noteIndex_map_mask, List.map_map, List.filterMap_map,
    List.any_map, Function.comp_def, fansOut_mask, hcondition]
  congr 1
  · refine congrArg (List.filterMap · plans) ?_
    funext plan
    cases plan <;> rfl
  · refine congrArg (List.filterMap · (label [] plans)) ?_
    funext labelled
    obtain ⟨plan, aliasName⟩ := labelled
    cases plan <;> rfl

theorem mask_foldl_require (a : Assembly) (rs : List Relation) :
    rs.foldl require a.mask = (rs.foldl require a).mask := by
  have hconditions : (rs.foldl require a).conditions = a.conditions := by rw [foldl_require_eq]
  rw [mask, mask, foldl_require_conditions, hconditions]

end Assembly

/-! ## Statements -/

/-- The statement with the values of its condition forgotten. -/
def Statement.mask (s : Statement) : Statement := { s with select := s.select.mask }

/-- Two statements differ in their arguments only, of which there are as many. -/
structure Statement.SameText (s t : Statement) : Prop where
  sql : s.sql = t.sql
  whereClause : s.whereClause = t.whereClause
  fromClause : s.fromClause = t.fromClause
  orderBy : s.orderBy = t.orderBy
  indexHint : s.indexHint = t.indexHint
  limit : s.limit = t.limit
  distinct : s.distinct = t.distinct
  posx : s.posx = t.posx
  args : s.args.length = t.args.length

theorem Statement.sameText_of_mask_eq {s t : Statement} (h : s.mask = t.mask) : s.SameText t := by
  have hselect : s.select.mask = t.select.mask := congrArg Statement.select h
  have hwhole : Sql.Fragment.mask s.select.fragment = Sql.Fragment.mask t.select.fragment := by
    rw [← Sql.Select.mask_fragment, hselect, Sql.Select.mask_fragment]
  have hwhere : Sql.Fragment.mask s.select.conditionFragment
      = Sql.Fragment.mask t.select.conditionFragment := by
    rw [← Sql.Select.conditionFragment_mask, hselect, Sql.Select.conditionFragment_mask]
  exact {
    sql := Sql.Fragment.sql_eq_of_mask_eq hwhole
    whereClause := Sql.Fragment.sql_eq_of_mask_eq hwhere
    fromClause := congrArg (·.fromFragment.sql) hselect
    orderBy := congrArg (·.orderFragment.sql) hselect
    indexHint := (congrArg Statement.indexHint h :)
    limit := (congrArg Statement.limit h :)
    distinct := (congrArg Sql.Select.distinct hselect :)
    posx := (congrArg Statement.posx h :)
    args := Sql.Fragment.length_args_eq_of_mask_eq hwhole }

/-- Two compilations fail for the same reason or give statements that differ in their arguments
only. -/
inductive SameOutcome : Except CompileError Statement → Except CompileError Statement → Prop
  | error (e : CompileError) : SameOutcome (.error e) (.error e)
  | ok {s t : Statement} (h : s.SameText t) : SameOutcome (.ok s) (.ok t)

theorem sameOutcome_of_map_mask_eq {x y : Except CompileError Statement}
    (h : x.map Statement.mask = y.map Statement.mask) : SameOutcome x y := by
  cases x with
  | error e =>
    cases y with
    | error e' =>
      obtain rfl := Except.error.inj h
      exact .error e
    | ok t => cases h
  | ok s =>
    cases y with
    | error e => cases h
    | ok t => exact .ok (Statement.sameText_of_mask_eq (Except.ok.inj h))

namespace Backend

variable {b : Backend}

/-- **Assembling and masking.** The statement of a masked assembly is the masked statement. -/
theorem assemble_mask (a : Assembly) : b.assemble a.mask = (b.assemble a).map Statement.mask := by
  rw [assemble, assemble]
  cases b.orderField with
  | error e => rfl
  | ok order =>
    obtain ⟨f, r⟩ := order
    dsimp only [bind, Except.bind, pure, Except.pure, Except.map]
    rw [Assembly.mask_foldl_require]
    -- From here on it does not matter which tables are required, only that they are the same.
    generalize (r :: b.outputRelations).foldl Assembly.require a = full
    have hcondition : Sql.Expr.andAll? full.mask.conditions
        = (Sql.Expr.andAll? full.conditions).map Sql.Expr.mask :=
      Sql.Expr.andAll?_map_mask full.conditions
    rw [hcondition]
    rfl

theorem map_mapM_plan_eq {ps ps' : List Predicate}
    (hshape : ps.map Predicate.shape = ps'.map Predicate.shape)
    (hlacks : ps.map Predicate.lacksText = ps'.map Predicate.lacksText) :
    (ps.mapM b.plan).map (List.map ConditionPlan.mask)
      = (ps'.mapM b.plan).map (List.map ConditionPlan.mask) := by
  induction ps generalizing ps' with
  | nil =>
    obtain rfl := List.map_eq_nil_iff.mp hshape.symm
    rfl
  | cons p ps ih =>
    obtain ⟨p', ps', rfl, hp, hps⟩ := List.map_eq_cons_iff.mp hshape.symm
    obtain ⟨hlack, hlacks⟩ := List.cons.inj hlacks
    have hplan := map_plan_eq (b := b) hp.symm hlack
    have hrest := ih hps.symm hlacks
    rw [List.mapM_cons, List.mapM_cons]
    cases hx : b.plan p <;> cases hx' : b.plan p' <;> rw [hx, hx'] at hplan
    · obtain rfl := Except.error.inj hplan
      rfl
    · cases hplan
    · cases hplan
    · cases hy : ps.mapM b.plan <;> cases hy' : ps'.mapM b.plan <;> rw [hy, hy'] at hrest
      · exact hrest
      · cases hrest
      · cases hrest
      · have hhead := Except.ok.inj hplan
        have htail := Except.ok.inj hrest
        refine congrArg Except.ok ?_
        rw [List.map_cons, List.map_cons, hhead, htail]

theorem map_compile_eq {q q' : Query}
    (hshape : q.predicates.map Predicate.shape = q'.predicates.map Predicate.shape)
    (hlacks : q.predicates.map Predicate.lacksText = q'.predicates.map Predicate.lacksText) :
    (b.compile q).map Statement.mask = (b.compile q').map Statement.mask := by
  have hempty : q.isEmpty = q'.isEmpty := by
    rw [Query.isEmpty, Query.isEmpty, ← List.isEmpty_map, hshape, List.isEmpty_map]
  have hplans := map_mapM_plan_eq (b := b) hshape hlacks
  rw [compile, compile, hempty]
  split
  · rfl
  · cases hx : q.predicates.mapM b.plan <;> cases hx' : q'.predicates.mapM b.plan <;>
      rw [hx, hx'] at hplans
    · obtain rfl := Except.error.inj hplans
      rfl
    · cases hplans
    · cases hplans
    · next plans plans' =>
      change (b.assemble (.ofPlans plans)).map _ = (b.assemble (.ofPlans plans')).map _
      rw [← assemble_mask, ← assemble_mask, ← Assembly.ofPlans_map_mask,
        ← Assembly.ofPlans_map_mask, Except.ok.inj hplans]

theorem map_compileWords_eq {words words' : List String} (h : words.length = words'.length) :
    (b.compileWords words).map Statement.mask = (b.compileWords words').map Statement.mask := by
  have hempty : words.isEmpty = words'.isEmpty := by
    rw [Bool.eq_iff_iff, List.isEmpty_iff_length_eq_zero, List.isEmpty_iff_length_eq_zero, h]
  have hmask : Sql.Expr.mask ∘ (fun w : String ↦ Sql.Expr.value (.text w))
      = fun _ ↦ Sql.Expr.value .null := rfl
  have hwords : (Assembly.ofWords words).mask = (Assembly.ofWords words').mask := by
    rw [Assembly.mask, Assembly.mask, Assembly.ofWords, Assembly.ofWords, List.map_singleton,
      List.map_singleton, Sql.Expr.mask, Sql.Expr.mask, Sql.Expr.maskAll_eq_map,
      Sql.Expr.maskAll_eq_map, List.map_map, List.map_map, hmask, List.map_const', List.map_const',
      h]
  rw [compileWords, compileWords, hempty]
  split
  · rfl
  · rw [← assemble_mask, ← assemble_mask, hwords]

end Backend

/-! ## Values stay out of the text -/

/-- **Values stay out of the text.** Queries of one shape that lack texts at the same places, and
lists of words of one length, are refused for the same reason or compiled to statements that differ
in their arguments only. -/
theorem compile_sameOutcome (b : Backend) :
    (∀ q q' : Query, q.predicates.map Predicate.shape = q'.predicates.map Predicate.shape →
      q.predicates.map Predicate.lacksText = q'.predicates.map Predicate.lacksText →
      SameOutcome (b.compile q) (b.compile q')) ∧
    ∀ words words' : List String, words.length = words'.length →
      SameOutcome (b.compileWords words) (b.compileWords words') := by
  constructor
  · intro q q' hshape hlacks
    exact sameOutcome_of_map_mask_eq (Backend.map_compile_eq hshape hlacks)
  · intro words words' h
    exact sameOutcome_of_map_mask_eq (Backend.map_compileWords_eq h)

/-- Statements over a facts table with three columns. -/
def plainBackend : Backend where
  catalog := .relational { tables := [("wordfreqs", ["form", "lemma", "frequency"])] }
  schema := { tables := [("wordfreqs", ["form", "lemma", "frequency"])] }
  settings := {}

/-- A hostile text is bound like a harmless one, in a pattern, in a list and alone. -/
theorem compile_sameOutcome_of_hostile_text :
    SameOutcome
      (plainBackend.compile { predicates := [⟨"form", .startsWith, .text "a", true⟩,
        ⟨"form", .isIn, .texts ["b", "c"], false⟩, ⟨"frequency", .less, .number (.int 3), false⟩] })
      (plainBackend.compile { predicates := [⟨"form", .startsWith, .text "' OR 1=1;", true⟩,
        ⟨"form", .isIn, .texts ["?)", "[*"], false⟩,
        ⟨"frequency", .less, .number (.text "0 OR 1"), false⟩] }) :=
  (compile_sameOutcome plainBackend).1 _ _ (by decide) (by decide)

/-- Shapes alone do not decide the outcome: a place in a word can be asked about with a number, but
not with a missing one. -/
theorem not_sameOutcome_of_shape :
    ¬ ∀ (b : Backend) (q q' : Query),
      q.predicates.map Predicate.shape = q'.predicates.map Predicate.shape →
      SameOutcome (b.compile q) (b.compile q') := by
  intro h
  have hsame := h plainBackend { predicates := [⟨"form", .startsWith, .number .null, false⟩] }
    { predicates := [⟨"form", .startsWith, .number (.int 5), false⟩] } (by decide)
  have hmissing : plainBackend.compile { predicates :=
      [⟨"form", .startsWith, .number .null, false⟩] } = .error (.missingValue "form") := rfl
  obtain ⟨s, hs⟩ : ∃ s, plainBackend.compile { predicates :=
      [⟨"form", .startsWith, .number (.int 5), false⟩] } = .ok s := ⟨_, rfl⟩
  rw [hmissing, hs] at hsame
  cases hsame

end CorpusQuery

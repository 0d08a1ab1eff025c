import CorpusQuery.Proofs.Statement.Plans

/-!
# Which index a statement names

What conditions say about indexes is collected plan by plan: a column is noted when its index can
serve a condition, and a pattern that may start with any text is noted for the whole statement. A
look-up in a satellite says nothing. The collection is a question of membership, so it can be read
back to the predicates of the query: which columns they narrow, and whether one of them defeats all
indexes.

The index that is named belongs to the first column, in a fixed order of preference, that the query
narrows and that has an index in the schema. The column that the result is ordered by stands in only
where the query narrows no column of the list at all; it does not help where the narrowed ones lack
their indexes.

## Main statements

* `Assembly.index_foldl`: what plans say, taken together.
* `Backend.touchedBy_iff`, `Backend.isUnanchored_iff`: from a plan back to its predicate.
* `IndexUse.firstIndex_choose`: the choice.
* `Backend.indexHint_of_compile`: the hint of a statement.
-/

namespace CorpusQuery

/-! ## What predicates say -/

/-- A predicate that no index can serve: the form holds a text somewhere inside, or a pattern starts
with a wildcard. -/
def Predicate.Unanchored (p : Predicate) : Prop :=
  p.operator = .middle ∨
    p.operator = .like ∧
      ∃ s ∈ p.operand.asTexts, s.toList.head? = some '%' ∨ s.toList.head? = some '_'

theorem Predicate.isUnanchoredLike_iff {p : Predicate} :
    p.isUnanchoredLike = true ↔ p.operator = .like ∧
      ∃ s ∈ p.operand.asTexts, s.toList.head? = some '%' ∨ s.toList.head? = some '_' := by
  simp [isUnanchoredLike]

theorem Predicate.unanchored_iff_of_place {p : Predicate}
    (hplace : p.operator.isPositional = true) : p.Unanchored ↔ p.operator = .middle := by
  refine or_iff_left ?_
  rintro ⟨hop, -⟩
  rw [hop] at hplace
  cases hplace

theorem Predicate.unanchored_iff_of_column {p : Predicate}
    (hplace : p.operator.isPositional = false) :
    p.Unanchored ↔ p.isUnanchoredLike = true := by
  rw [isUnanchoredLike_iff]
  refine or_iff_right fun hop ↦ ?_
  rw [hop] at hplace
  cases hplace

/-- A predicate asks for real values of a feature that are kept in a satellite. -/
def Predicate.LooksUp (p : Predicate) (f : Field) : Prop :=
  p.negated = false ∧ (p.operator = .equal ∨ p.operator = .isIn) ∧
    p.operand.hasPlaceholder = false ∧ f.satellite ≠ none

namespace Backend

variable {b : Backend} {p : Predicate} {f : Field} {r : Relation} {plan : ConditionPlan}
  {c : String}

theorem satelliteFor?_eq_none_iff : satelliteFor? p f = none ↔ ¬p.LooksUp f := by
  rw [satelliteFor?, Predicate.LooksUp]
  split
  case isTrue h =>
    simp only [Bool.and_eq_true, Bool.or_eq_true, Bool.not_eq_true', beq_iff_eq] at h
    simp [h]
  case isFalse h =>
    simp only [Bool.and_eq_true, Bool.or_eq_true, Bool.not_eq_true', beq_iff_eq] at h
    simp only [true_iff]
    rintro ⟨hpositive, hop, hreal, -⟩
    exact h ⟨⟨hpositive, hop⟩, hreal⟩

/-- A predicate narrows a column of the facts table, so that an index on the column can serve it. -/
inductive Narrows (b : Backend) (p : Predicate) : String → Prop
  /-- The start of the form. -/
  | start (hop : p.operator = .startsWith) (hpositive : p.negated = false) : Narrows b p "form"
  /-- The end of the form, if the facts table has the reversed forms. -/
  | ending (hop : p.operator = .endsWith) (hpositive : p.negated = false)
      (hreversed : b.schema.hasColumn "wordfreqs" "revform" = true) : Narrows b p "revform"
  /-- The column of a field as it is. -/
  | column {f : Field} (hf : b.catalog.get? p.field = some f) (hfacts : f.relation = some .facts)
      (hstrip : f.strip = none) (hplace : p.operator.isPositional = false)
      (hpositive : p.negated = false) (hanchored : ¬p.Unanchored) (hlookup : ¬p.LooksUp f) :
      Narrows b p f.column

/-- Results are ordered by a column of the facts table as it is. -/
def OrdersBy (b : Backend) (c : String) : Prop :=
  ∃ f, b.catalog.get? (Catalog.resolve b.settings.orderBy) = some f ∧
    f.relation = some .facts ∧ f.strip = none ∧ f.column = c

end Backend

/-! ## What plans say -/

namespace Assembly

/-- The column that a plan touches. -/
def touchedBy : ConditionPlan → Option String
  | .shared _ _ touched _ => touched
  | .satellite _ _ _ _ => none

/-- Whether a plan has a pattern that may start with any text. -/
def isUnanchored : ConditionPlan → Bool
  | .shared _ _ _ unanchored => unanchored
  | .satellite _ _ _ _ => false

theorem mem_touch {u : IndexUse} {column c : String} :
    c ∈ (u.touch column).touched ↔ c ∈ u.touched ∨ c ∈ indexedColumns ∧ column = c := by
  rw [IndexUse.touch]
  split
  case isTrue h =>
    rw [Bool.and_eq_true, List.contains_iff_mem] at h
    rw [List.mem_append, List.mem_singleton]
    refine or_congr_right ⟨?_, fun hc ↦ hc.2.symm⟩
    rintro rfl
    exact ⟨h.1, rfl⟩
  case isFalse h =>
    refine ⟨.inl, fun hc ↦ hc.elim id ?_⟩
    rintro ⟨hindexed, rfl⟩
    rw [Bool.and_eq_true, not_and, List.contains_iff_mem] at h
    simpa using h hindexed

theorem mem_touched_noteIndex {u : IndexUse} {plan : ConditionPlan} {c : String} :
    c ∈ (noteIndex u plan).touched ↔
      c ∈ u.touched ∨ c ∈ indexedColumns ∧ touchedBy plan = some c := by
  match plan with
  | .satellite _ _ _ _ => simp [noteIndex, touchedBy]
  | .shared _ _ none true => simp [noteIndex, touchedBy, IndexUse.markUnanchored]
  | .shared _ _ none false => simp [noteIndex, touchedBy]
  | .shared _ _ (some column) true =>
    simp [noteIndex, touchedBy, mem_touch, IndexUse.markUnanchored]
  | .shared _ _ (some column) false => simp [noteIndex, touchedBy, mem_touch]

theorem unanchored_touch (u : IndexUse) (column : String) :
    (u.touch column).unanchored = u.unanchored := by
  rw [IndexUse.touch]
  split
  · rfl
  · rfl

theorem unanchored_noteIndex (u : IndexUse) (plan : ConditionPlan) :
    (noteIndex u plan).unanchored = (u.unanchored || isUnanchored plan) := by
  match plan with
  | .satellite _ _ _ _ => exact (Bool.or_false _).symm
  | .shared _ _ none true => exact (Bool.or_true _).symm
  | .shared _ _ none false => exact (Bool.or_false _).symm
  | .shared _ _ (some column) true =>
    exact (unanchored_touch _ column).trans (Bool.or_true _).symm
  | .shared _ _ (some column) false =>
    exact (unanchored_touch _ column).trans (Bool.or_false _).symm

theorem index_foldl (plans : List ConditionPlan) (u : IndexUse) :
    (∀ c, c ∈ (plans.foldl noteIndex u).touched ↔
      c ∈ u.touched ∨ c ∈ indexedColumns ∧ ∃ plan ∈ plans, touchedBy plan = some c) ∧
    (plans.foldl noteIndex u).unanchored = (u.unanchored || plans.any isUnanchored) := by
  induction plans generalizing u with
  | nil => simp
  | cons plan plans ih =>
    obtain ⟨htouched, hunanchored⟩ := ih (noteIndex u plan)
    rw [List.foldl_cons, hunanchored, unanchored_noteIndex, List.any_cons, Bool.or_assoc]
    refine ⟨fun c ↦ ?_, rfl⟩
    rw [htouched, mem_touched_noteIndex, or_assoc, ← and_or_left]
    simp only [List.mem_cons, exists_eq_or_imp]

end Assembly

namespace Backend

variable {b : Backend} {p : Predicate} {plan : ConditionPlan} {c : String}

/-! ## From plans back to predicates -/

theorem positionalTouch_iff (hplace : p.operator.isPositional = true) :
    b.positionalTouch p = some c ↔ b.Narrows p c := by
  constructor
  · intro h
    rw [positionalTouch] at h
    split at h
    · next hop hpositive =>
      obtain rfl := Option.some.inj h
      exact .start hop hpositive
    · next hop hpositive =>
      obtain ⟨hreversed, hcolumn⟩ := Option.ite_none_right_eq_some.mp h
      obtain rfl := Option.some.inj hcolumn
      exact .ending hop hpositive hreversed
    · cases h
  · intro h
    cases h with
    | start hop hpositive => rw [positionalTouch, hop, hpositive]
    | ending hop hpositive hreversed =>
      rw [positionalTouch, hop, hpositive]
      exact if_pos hreversed
    | column _ _ _ hplace' => cases hplace'.symm.trans hplace

theorem touchesColumn_iff {f : Field} {r : Relation} (hplace : p.operator.isPositional = false) :
    touchesColumn p f r = true ↔
      r = .facts ∧ f.strip = none ∧ p.negated = false ∧ ¬p.Unanchored := by
  rw [touchesColumn, Predicate.unanchored_iff_of_column hplace]
  simp [and_assoc]

theorem narrows_iff {f : Field} (hf : b.catalog.get? p.field = some f)
    (hplace : p.operator.isPositional = false) :
    b.Narrows p c ↔ (f.relation = some .facts ∧ f.strip = none ∧ p.negated = false ∧
      ¬p.Unanchored) ∧ ¬p.LooksUp f ∧ f.column = c := by
  constructor
  · intro h
    cases h with
    | start hop | ending hop =>
      rw [hop] at hplace
      cases hplace
    | column hf' hfacts hstrip _ hpositive hanchored hlookup =>
      obtain rfl := Option.some.inj (hf.symm.trans hf')
      exact ⟨⟨hfacts, hstrip, hpositive, hanchored⟩, hlookup, rfl⟩
  · rintro ⟨⟨hfacts, hstrip, hpositive, hanchored⟩, hlookup, rfl⟩
    exact .column hf hfacts hstrip hplace hpositive hanchored hlookup

/-- **Narrowed columns.** A plan touches the column that its predicate narrows. -/
theorem touchedBy_iff (h : b.plan p = .ok plan) :
    Assembly.touchedBy plan = some c ↔ b.Narrows p c := by
  obtain ⟨f, r, hf, hr, -, hplanned⟩ := exists_planned h
  cases hplanned with
  | positional hplace he => exact positionalTouch_iff hplace
  | satellite hplace hs hvalues =>
    have hlookup : ¬¬p.LooksUp f := by
      rw [← satelliteFor?_eq_none_iff, hs]
      exact Option.some_ne_none _
    rw [narrows_iff hf hplace]
    exact ⟨fun htouched ↦ (by cases htouched), fun hnarrows ↦ absurd hnarrows.2.1 hlookup⟩
  | column hplace hs he =>
    have hfacts : r = .facts ↔ f.relation = some .facts := by
      rw [hr, Option.some_inj]
    rw [Assembly.touchedBy, Option.ite_none_right_eq_some, touchesColumn_iff hplace,
      narrows_iff hf hplace, hfacts, Option.some_inj]
    exact and_congr_right fun _ ↦ (and_iff_right (satelliteFor?_eq_none_iff.mp hs)).symm

/-- **Unanchored patterns.** A plan has one exactly if its predicate is one. -/
theorem isUnanchored_iff (h : b.plan p = .ok plan) :
    Assembly.isUnanchored plan = true ↔ p.Unanchored := by
  obtain ⟨f, r, hf, hr, -, hplanned⟩ := exists_planned h
  cases hplanned with
  | positional hplace he =>
    rw [Predicate.unanchored_iff_of_place hplace]
    exact beq_iff_eq
  | satellite hplace hs hvalues =>
    -- What is looked up in a satellite is no pattern.
    have hop : p.operator = .equal ∨ p.operator = .isIn := by
      rw [satelliteFor?] at hs
      split at hs
      · next h =>
        simp only [Bool.and_eq_true, Bool.or_eq_true, beq_iff_eq] at h
        exact h.1.2
      · cases hs
    rw [Predicate.unanchored_iff_of_column hplace, Predicate.isUnanchoredLike_iff]
    constructor
    · intro h
      cases h
    · rintro ⟨hlike, -⟩
      rcases hop with hop | hop <;> cases hop.symm.trans hlike
  | column hplace hs he => rw [Predicate.unanchored_iff_of_column hplace, Assembly.isUnanchored]

end Backend

/-! ## The choice -/

/-- The hint is the index of the first column with a property whose index is in the schema, and
there is none if no such column has one. -/
inductive FirstIndex (s : Schema) (posx : Bool) (P : String → Prop) (columns : List String) :
    Option String → Prop
  | first {before after : List String} {c : String} (hsplit : columns = before ++ c :: after)
      (hc : P c) (hindex : s.hasIndex (indexName c posx) = true)
      (hbefore : ∀ d ∈ before, P d → s.hasIndex (indexName d posx) = false) :
      FirstIndex s posx P columns (some (indexName c posx))
  | none (hall : ∀ d ∈ columns, P d → s.hasIndex (indexName d posx) = false) :
      FirstIndex s posx P columns none

namespace FirstIndex

variable {s : Schema} {posx : Bool} {P Q : String → Prop} {columns : List String} {c : String}
  {hint : Option String}

theorem congr (h : FirstIndex s posx P columns hint) (hPQ : ∀ d ∈ columns, P d ↔ Q d) :
    FirstIndex s posx Q columns hint := by
  cases h with
  | @first before after c hsplit hc hindex hbefore =>
    subst hsplit
    refine .first rfl ((hPQ c (by simp)).mp hc) hindex fun d hd hQ ↦ ?_
    exact hbefore d hd ((hPQ d (List.mem_append_left _ hd)).mpr hQ)
  | none hall => exact .none fun d hd hQ ↦ hall d hd ((hPQ d hd).mpr hQ)

theorem cons (h : FirstIndex s posx P columns hint)
    (hc : P c → s.hasIndex (indexName c posx) = false) :
    FirstIndex s posx P (c :: columns) hint := by
  cases h with
  | first hsplit hfound hindex hbefore =>
    exact .first (congrArg (c :: ·) hsplit) hfound hindex (List.forall_mem_cons.mpr ⟨hc, hbefore⟩)
  | none hall => exact .none (List.forall_mem_cons.mpr ⟨hc, hall⟩)

theorem find? (p : String → Bool) (columns : List String) :
    FirstIndex s posx (p · = true) columns
      (((columns.filter p).map (indexName · posx)).find? s.hasIndex) := by
  induction columns with
  | nil => exact .none fun d hd ↦ (by cases hd)
  | cons c columns ih =>
    by_cases hc : p c = true
    · rw [List.filter_cons_of_pos hc, List.map_cons, List.find?_cons]
      split
      · next hindex => exact .first (List.nil_append _).symm hc hindex fun d hd ↦ (by cases hd)
      · next hindex => exact ih.cons fun _ ↦ hindex
    · rw [List.filter_cons_of_neg hc]
      exact ih.cons fun h ↦ absurd h hc

end FirstIndex

namespace IndexUse

variable {u : IndexUse} {policy : IndexPolicy} {orderColumn : Option String} {posx : Bool}
  {s : Schema}

theorem filter_toList_orderColumn (orderColumn : Option String) :
    orderColumn.toList.filter indexedColumns.contains
      = indexedColumns.filter (orderColumn == some ·) := by
  cases orderColumn with
  | none => rfl
  | some c =>
    have hnodup : indexedColumns.Nodup := by decide
    have hsame : (fun d ↦ some c == some d) = (· == c) := by
      funext d
      rw [Option.some_beq_some, BEq.comm]
    rw [hsame, List.filter_beq, hnodup.count, Option.toList_some, List.filter_cons, List.filter_nil]
    simp only [List.contains_iff_mem]
    split
    · rfl
    · rfl

/-- Candidates are the noted columns, and the column of the order only if no column is noted. -/
theorem candidates_eq (u : IndexUse) (orderColumn : Option String) :
    ((∃ c ∈ indexedColumns, c ∈ u.touched) →
      u.candidates orderColumn = indexedColumns.filter u.touched.contains) ∧
    ((¬∃ c ∈ indexedColumns, c ∈ u.touched) →
      u.candidates orderColumn = indexedColumns.filter (orderColumn == some ·)) := by
  have hnil : indexedColumns.filter u.touched.contains = [] ↔
      ¬∃ c ∈ indexedColumns, c ∈ u.touched := by
    simp only [List.filter_eq_nil_iff, List.contains_iff_mem, not_exists, not_and]
  rw [candidates]
  split
  · next hempty => exact ⟨fun h ↦ absurd h (hnil.mp hempty), fun _ ↦ filter_toList_orderColumn _⟩
  · next hne => exact ⟨fun _ ↦ rfl, fun h ↦ absurd (hnil.mpr h) hne⟩

/-- **The choice of an index.** Unless the settings or a pattern forbid it, it is the first index of
the noted columns, or that of the order if none is noted. -/
theorem firstIndex_choose (hpolicy : ¬(policy = .never ∨ policy = .auto ∧ u.unanchored = true)) :
    ((∃ c ∈ indexedColumns, c ∈ u.touched) →
      FirstIndex s posx (· ∈ u.touched) indexedColumns (u.choose policy orderColumn posx s)) ∧
    ((¬∃ c ∈ indexedColumns, c ∈ u.touched) →
      FirstIndex s posx (orderColumn = some ·) indexedColumns
        (u.choose policy orderColumn posx s)) := by
  obtain ⟨htouched, horder⟩ := candidates_eq u orderColumn
  rw [choose, if_neg hpolicy]
  constructor
  · intro h
    rw [htouched h]
    exact (FirstIndex.find? u.touched.contains indexedColumns).congr fun d _ ↦
      List.contains_iff_mem
  · intro h
    rw [horder h]
    exact (FirstIndex.find? (orderColumn == some ·) indexedColumns).congr fun d _ ↦ beq_iff_eq

end IndexUse

/-! ## Hints -/

namespace Backend

variable {b : Backend} {q : Query} {st : Statement} {c : String}

theorem orderIndexColumn_iff {f : Field} {r : Relation} (h : b.orderField = .ok (f, r)) :
    orderIndexColumn f r = some c ↔ c ∈ indexedColumns ∧ b.OrdersBy c := by
  obtain ⟨hf, hr, -⟩ := exists_field_of_orderField h
  have hfacts : r = .facts ↔ f.relation = some .facts := by rw [hr, Option.some_inj]
  rw [orderIndexColumn, Option.ite_none_right_eq_some]
  simp only [Bool.and_eq_true, beq_iff_eq, Option.isNone_iff_eq_none, List.contains_iff_mem,
    Option.some_inj, hfacts]
  constructor
  · rintro ⟨⟨⟨hrelation, hstrip⟩, hindexed⟩, rfl⟩
    exact ⟨hindexed, f, hf, hrelation, hstrip, rfl⟩
  · rintro ⟨hindexed, f', hf', hrelation, hstrip, rfl⟩
    obtain rfl := Option.some.inj (hf.symm.trans hf')
    exact ⟨⟨⟨hrelation, hstrip⟩, hindexed⟩, rfl⟩

/-- The predicates of a query narrow a column. -/
def Narrowed (b : Backend) (q : Query) (c : String) : Prop := ∃ p ∈ q.predicates, b.Narrows p c

theorem indexHint_of_assemble {a : Assembly} (h : b.assemble a = .ok st) :
    ∃ f r, b.orderField = .ok (f, r) ∧ st.indexHint
      = a.index.choose b.settings.indexPolicy (orderIndexColumn f r) b.posx b.schema ∧
      ∀ source ∈ st.select.sources, source.index = st.indexHint := by
  obtain ⟨⟨f, r⟩, horder, h⟩ := exists_of_bind_eq_ok h
  obtain rfl := Except.ok.inj h
  have hindex : ((r :: b.outputRelations).foldl Assembly.require a).index = a.index := by
    rw [Assembly.foldl_require_eq]
  refine ⟨f, r, horder, ?_, fun source hsource ↦ ?_⟩
  · dsimp only
    rw [hindex]
  · obtain rfl := List.mem_singleton.mp hsource
    rfl

/-- **The hint.** Under `never` there is none, and under `auto` there is none if a predicate,
negated or not, is a pattern that may start with any text. Otherwise, if the predicates narrow a
column of the list, it is the first index that exists of the columns that they narrow; and if they
narrow none, it is the index of the column of the order, if this is a column of the list whose index
exists. The hint is what the statement names. -/
theorem indexHint_of_compile (h : b.compile q = .ok st) :
    let preferred := ["form", "revform", "lemma", "frequency", "len", "pos"]
    let suppressed := b.settings.indexPolicy = .never ∨
      b.settings.indexPolicy = .auto ∧ ∃ p ∈ q.predicates, p.Unanchored
    (suppressed → st.indexHint = none) ∧
      (¬suppressed → (∃ c ∈ preferred, b.Narrowed q c) →
        FirstIndex b.schema b.posx (b.Narrowed q) preferred st.indexHint) ∧
      (¬suppressed → (¬∃ c ∈ preferred, b.Narrowed q c) →
        FirstIndex b.schema b.posx b.OrdersBy preferred st.indexHint) ∧
      ∀ source ∈ st.select.sources, source.index = st.indexHint := by
  intro preferred suppressed
  obtain ⟨-, plans, hplans, hassemble⟩ := exists_plans_of_compile h
  obtain ⟨f, r, horder, hhint, hsources⟩ := indexHint_of_assemble hassemble
  obtain ⟨htouched, hunanchored⟩ := Assembly.index_foldl plans {}
  -- What the statement says about indexes is what its predicates say.
  have hnarrowed (c : String) (hc : c ∈ indexedColumns) :
      c ∈ (plans.foldl Assembly.noteIndex {}).touched ↔ b.Narrowed q c := by
    rw [htouched, and_iff_right hc, or_iff_right List.not_mem_nil]
    exact (exists_mem_iff_of_mapM hplans fun p plan hplan ↦ (touchedBy_iff hplan).symm).symm
  have hsome : (∃ c ∈ indexedColumns, c ∈ (plans.foldl Assembly.noteIndex {}).touched) ↔
      ∃ c ∈ preferred, b.Narrowed q c :=
    exists_congr fun c ↦ and_congr_right (hnarrowed c)
  have hpolicy : (b.settings.indexPolicy = .never ∨ b.settings.indexPolicy = .auto ∧
      (plans.foldl Assembly.noteIndex {}).unanchored = true) ↔ suppressed := by
    refine or_congr_right (and_congr_right fun _ ↦ ?_)
    rw [hunanchored, Bool.false_or, List.any_eq_true]
    exact (exists_mem_iff_of_mapM hplans fun p plan hplan ↦ (isUnanchored_iff hplan).symm).symm
  have hhint' : st.indexHint = (plans.foldl Assembly.noteIndex {}).choose b.settings.indexPolicy
      (orderIndexColumn f r) b.posx b.schema := hhint
  refine ⟨fun hs ↦ ?_, fun hs hc ↦ ?_, fun hs hc ↦ ?_, hsources⟩
  · rw [hhint', IndexUse.choose, if_pos (hpolicy.mpr hs)]
  · rw [hhint']
    exact FirstIndex.congr ((IndexUse.firstIndex_choose (mt hpolicy.mp hs)).1 (hsome.mpr hc))
      hnarrowed
  · rw [hhint']
    exact FirstIndex.congr ((IndexUse.firstIndex_choose (mt hpolicy.mp hs)).2 (mt hsome.mp hc))
      fun d hd ↦ (orderIndexColumn_iff horder).trans (and_iff_right hd)

/-- Statements over a facts table whose only index with merged frequencies is that of lemmas. -/
def lemmaIndexBackend : Backend where
  catalog := .relational { tables := [("wordfreqs", ["form", "lemma", "pos", "posx", "frequency",
    "frequencyx"])] }
  schema := { tables := [("wordfreqs", ["form", "lemma", "pos", "posx", "frequency",
    "frequencyx"])], indexes := ["idx_wordfreqs_form_freq", "idx_wordfreqs_lemma_freqx"] }
  settings := {}

/-- A start of the form, a lemma and a pattern that is anchored. -/
def anchoredQuery : Query where
  predicates := [⟨"start", .startsWith, .text "ka", false⟩, ⟨"lemma", .equal, .text "kala", false⟩,
    ⟨"lemma", .like, .text "k%", true⟩]

/-- The form is narrowed, but its index does not have the merged frequencies. -/
theorem indexHint_of_compile_anchoredQuery :
    ∃ st, lemmaIndexBackend.compile anchoredQuery = .ok st ∧
      st.indexHint = some "idx_wordfreqs_lemma_freqx" ∧
      FirstIndex lemmaIndexBackend.schema true (lemmaIndexBackend.Narrowed anchoredQuery)
        ["form", "revform", "lemma", "frequency", "len", "pos"] st.indexHint := by
  have hok : (lemmaIndexBackend.compile anchoredQuery).isOk = true := by decide +kernel
  have hhint : (lemmaIndexBackend.compile anchoredQuery).toOption.map (·.indexHint)
      = some (some "idx_wordfreqs_lemma_freqx") := by decide +kernel
  obtain ⟨st, hcompile⟩ := exists_of_isOk hok
  rw [hcompile] at hhint
  obtain ⟨-, hfirst, -, -⟩ := indexHint_of_compile hcompile
  have hanchored : ¬(lemmaIndexBackend.settings.indexPolicy = .never ∨
      lemmaIndexBackend.settings.indexPolicy = .auto ∧
        ∃ p ∈ anchoredQuery.predicates, p.Unanchored) := by
    simp [lemmaIndexBackend, anchoredQuery, Predicate.Unanchored, Operand.asTexts]
  have hnarrowed : lemmaIndexBackend.Narrowed anchoredQuery "form" :=
    ⟨_, List.mem_cons_self, .start rfl rfl⟩
  exact ⟨st, hcompile, Option.some.inj hhint, hfirst hanchored ⟨"form", by decide, hnarrowed⟩⟩

end Backend

end CorpusQuery

import CorpusQuery.Proofs.Lists
import CorpusQuery.Proofs.Query.RawCells
import CorpusQuery.Proofs.Statement.DeliveredNames

/-!
# Several values in one cell

A derivation or a clitic may have several values. A relational corpus keeps them in a satellite, one
in a row, and compares each with the values that are asked for. A flat table has them in one cell,
joined by commas, and looks for each asked value anywhere in the cell. A text without commas stands
in the joined values if and only if it stands in one of them. So the filter keeps a row not only for
a value that is asked for, but also for one that has such a value as a part, and there it keeps rows
that no satellite would be found for.

## Main statements

* `Text.infix_joined_iff`: what stands in joined values.
* `joined_values_of_query`: what the filter and the satellite make of a list of values.
* `longer_value_kept`: a row that is kept for a value that it does not have.
-/

namespace CorpusQuery

/-! ## Joined texts -/

namespace Text

/-- Values with commas between them. -/
def joined (values : List String) : String := ",".intercalate values

theorem toList_joined_cons_cons (w next : String) (values : List String) :
    (joined (w :: next :: values)).toList
      = w.toList ++ ',' :: (joined (next :: values)).toList := by
  simp [joined]

/-- **Joined values.** A text without commas stands in joined values if it stands in one of them. -/
theorem infix_joined_iff {part : List Char} (hcomma : ',' ∉ part) (hne : part ≠ [])
    (values : List String) :
    part <:+: (joined values).toList ↔ ∃ w ∈ values, part <:+: w.toList := by
  induction values with
  | nil => simpa [joined] using hne
  | cons w values ih =>
    cases values with
    | nil => simp [joined]
    | cons next values =>
      rw [toList_joined_cons_cons, infix_append_cons_iff hcomma, ih]
      simp

theorem infix_joined_of_mem {w : String} {values : List String} (h : w ∈ values) :
    w.toList <:+: (joined values).toList := by
  induction values with
  | nil => cases h
  | cons v values ih =>
    cases values with
    | nil =>
      obtain rfl := List.mem_singleton.mp h
      simp [joined]
    | cons next values =>
      rw [toList_joined_cons_cons]
      rcases List.mem_cons.mp h with rfl | h
      · exact (List.prefix_append _ _).isInfix
      · exact (ih h).trans ((List.suffix_cons _ _).trans (List.suffix_append _ _)).isInfix

end Text

/-- A cell has values joined by commas. Where there are none it may be missing. -/
inductive Value.Joins : List String → Value → Prop
  | text {values : List String} {v : Value} (h : v.asText? = some (Text.joined values)) :
    Joins values v
  | missing : Joins [] .null

/-! ## In a flat table -/

namespace RowFilter

variable {row : Row} {f : Field} {p : Predicate} {v : Value} {e : RowExpr} {values : List String}

theorem positiveExpr_of_anyOf (hkind : f.kind = .feature .anyOf)
    (hop : p.operator = .equal ∨ p.operator = .isIn) :
    positiveExpr f p = anyText p (.test (target f) .contains) := by
  rcases hop with hop | hop <;> rw [positiveExpr.eq_def, hop] <;> exact if_pos hkind

/-- **In a cell.** A cell passes if one of the asked texts stands somewhere in it. -/
theorem exists_truth_anyOf (hkind : f.kind = .feature .anyOf)
    (hop : p.operator = .equal ∨ p.operator = .isIn) (hv : (target f).eval row = .ok v)
    (he : positiveExpr f p = .ok e) :
    ∃ t, e.truth row = .ok t ∧ (t.holds = true ↔ ∃ text, v.asText? = some text ∧
      ∃ s ∈ p.operand.asTexts, s.toList <:+: text.toList) := by
  rw [positiveExpr_of_anyOf hkind hop, anyText_eq_ok_iff] at he
  obtain ⟨t, ht, hholds⟩ := exists_truth_test hv .contains he
  refine ⟨t, ht, hholds.trans ?_⟩
  simp [Value.testTruth, Value.asText?, Text.contains, Text.isInfix_iff]

end RowFilter

namespace Value.Joins

variable {v : Value} {values asked : List String}

theorem exists_infix_of_mem (h : v.Joins values) (hasked : ∃ w ∈ values, w ∈ asked) :
    ∃ text, v.asText? = some text ∧ ∃ s ∈ asked, s.toList <:+: text.toList := by
  obtain ⟨w, hw, hasked⟩ := hasked
  cases h with
  | text htext => exact ⟨_, htext, w, hasked, Text.infix_joined_of_mem hw⟩
  | missing => cases hw

theorem exists_infix_iff (h : v.Joins values) (hasked : ∀ s ∈ asked, s ≠ "" ∧ ',' ∉ s.toList) :
    (∃ text, v.asText? = some text ∧ ∃ s ∈ asked, s.toList <:+: text.toList)
      ↔ ∃ s ∈ asked, ∃ w ∈ values, s.toList <:+: w.toList := by
  have hne {s : String} (hs : s ∈ asked) : s.toList ≠ [] := by simpa using (hasked s hs).1
  cases h with
  | text htext =>
    constructor
    · rintro ⟨text, htext', s, hs, hinfix⟩
      obtain rfl := Option.some.inj (htext.symm.trans htext')
      exact ⟨s, hs, (Text.infix_joined_iff (hasked s hs).2 (hne hs) values).mp hinfix⟩
    · rintro ⟨s, hs, hinfix⟩
      exact ⟨_, htext, s, hs, (Text.infix_joined_iff (hasked s hs).2 (hne hs) values).mpr hinfix⟩
  | missing => simp [asText?]

/-- **Whole values.** If no asked text is a proper part of a value, a cell has an asked text in it
if one of its values is asked for. -/
theorem exists_infix_iff_exists_mem (h : v.Joins values)
    (hasked : ∀ s ∈ asked, s ≠ "" ∧ ',' ∉ s.toList)
    (hwhole : ∀ s ∈ asked, ∀ w ∈ values, s.toList <:+: w.toList → s = w) :
    (∃ text, v.asText? = some text ∧ ∃ s ∈ asked, s.toList <:+: text.toList)
      ↔ ∃ w ∈ values, w ∈ asked := by
  rw [h.exists_infix_iff hasked]
  constructor
  · rintro ⟨s, hs, w, hw, hinfix⟩
    exact ⟨w, hw, hwhole s hs w hw hinfix ▸ hs⟩
  · rintro ⟨w, hw, hs⟩
    exact ⟨w, hs, w, hw, List.infix_refl _⟩

end Value.Joins

/-! ## In a satellite -/

namespace Backend

variable {b : Backend} {p : Predicate} {f : Field} {s : Relation}

theorem plan_eq_satellite (hcatalog : b.catalog = .relational b.schema)
    (hfacts : b.schema.hasTable Relation.facts.table = true)
    (hf : b.catalog.get? p.field = some f) (hs : f.satellite = some s)
    (hop : p.operator = .equal ∨ p.operator = .isIn) (hpositive : p.negated = false)
    (hplaceholder : p.operand.hasPlaceholder = false) {first : Value} {rest : List Value}
    (hvalues : p.operand.values = first :: rest) :
    b.plan p = .ok (.satellite s f.column first rest) := by
  obtain ⟨r, hr, htable⟩ := backed_of_catalog_eq hcatalog hfacts f (Catalog.mem_of_get? hf)
  have hpositional : p.operator.isPositional = false := by
    rcases hop with hop | hop <;> rw [hop] <;> rfl
  have hsatellite : satelliteFor? p f = some s := by
    rw [satelliteFor?, hpositive, hplaceholder, hs]
    rcases hop with hop | hop <;> rw [hop] <;> rfl
  rw [plan_of_get? hf hr htable, hpositional, if_neg Bool.false_ne_true, hsatellite]
  dsimp only
  rw [planSatellite, hvalues]

end Backend

/-- **In a row.** A row of a satellite is found if its value is one of those that are looked up. -/
theorem ConditionPlan.holds_satellite {scope : Sql.Scope} {r : Relation}
    {aliasName column w t : String} {ts : List String}
    (h : Sql.HasCell scope (.of aliasName column) (.text w)) :
    (((satellite r column (.text t) (ts.map .text)).condition aliasName).truth scope).holds = true
      ↔ w ∈ t :: ts := by
  cases ts with
  | nil =>
    rw [List.map_nil, condition, h.truth_equal (.text w), ← Value.holds_memberTruth_singleton,
      ← Value.holds_memberTruth_text w [t]]
    rfl
  | cons next ts =>
    have hcondition :
        (satellite r column (.text t) (.text next :: ts.map .text)).condition aliasName
          = .inList (.of aliasName column) (((t :: next :: ts).map Value.text).map .value) false :=
      rfl
    rw [List.map_cons, hcondition, h.truth_isIn (.text w), Value.holds_memberTruth_text]

/-- Where each row of a satellite holds one of the values, one of the rows is found if one of the
values is looked up. -/
theorem ConditionPlan.exists_holds_satellite_iff {r : Relation} {aliasName column t : String}
    {ts values : List String} {scopes : List Sql.Scope}
    (h : List.Forall₂ (fun scope w ↦ Sql.HasCell scope (.of aliasName column) (.text w))
      scopes values) :
    (∃ scope ∈ scopes, (((satellite r column (.text t) (ts.map .text)).condition aliasName).truth
        scope).holds = true) ↔ ∃ w ∈ values, w ∈ t :: ts := by
  induction h with
  | nil => simp
  | cons hcell _ ih =>
    rw [List.exists_mem_cons_iff, List.exists_mem_cons_iff, ih, holds_satellite hcell]

/-! ## Both -/

/-- **Joined values.** For a positive predicate on a feature with several values the filter keeps a
row if an asked text stands anywhere in its cell. So it keeps every row that has one of the asked
values, and, for texts without commas, those that have an asked text as a part of a value, and no
others. A satellite with the values one by one has a matching row only if one of the values is asked
for, which comes to the same if no asked text is a proper part of a value. -/
theorem joined_values_of_query {columns : List String} {totals : Totals} {input : String}
    {q : Query} {p : Predicate} {f : Field}
    (hread : Query.read (.columnar columns) totals input = .ok q)
    (hp : p ∈ q.predicates) (hf : (Catalog.columnar columns).get? p.field = some f)
    (hkind : f.kind = .feature .anyOf) (hop : p.operator = .equal ∨ p.operator = .isIn)
    (hpositive : p.negated = false) (values : List String) :
    (∃ step, RowFilter.compileStep (.columnar columns) p = .ok step ∧
      ∀ (row : Row) (cell : Value), row f.column = some cell → cell.Joins values →
        ∃ t, step.expr.truth row = .ok t ∧
          (t.holds = true ↔ ∃ text, cell.asText? = some text ∧
            ∃ s ∈ p.operand.asTexts, s.toList <:+: text.toList) ∧
          ((∃ w ∈ values, w ∈ p.operand.asTexts) → t.holds = true) ∧
          ((∀ s ∈ p.operand.asTexts, s ≠ "" ∧ ',' ∉ s.toList) →
            (t.holds = true ↔
              ∃ s ∈ p.operand.asTexts, ∃ w ∈ values, s.toList <:+: w.toList) ∧
            ((∀ s ∈ p.operand.asTexts, ∀ w ∈ values, s.toList <:+: w.toList → s = w) →
              (t.holds = true ↔ ∃ w ∈ values, w ∈ p.operand.asTexts)))) ∧
    ∀ (b : Backend) (g : Field) (s : Relation), b.catalog = .relational b.schema →
      b.schema.hasTable Relation.facts.table = true → b.catalog.get? p.field = some g →
      g.satellite = some s → p.operand.hasPlaceholder = false →
        ∃ plan, b.plan p = .ok plan ∧ ∀ (aliasName : String) (scopes : List Sql.Scope),
          List.Forall₂ (fun scope w ↦ Sql.HasCell scope (.of aliasName g.column) (.text w))
            scopes values →
          ((∃ scope ∈ scopes, ((plan.condition aliasName).truth scope).holds = true) ↔
            ∃ w ∈ values, w ∈ p.operand.asTexts) := by
  have hadmits := Query.admits_of_mem_read hread hp
  have hnumeric : f.kind ≠ .numeric := by rw [hkind]; decide
  have htextual : p.operator.IsTextual := by rcases hop with hop | hop <;> rw [hop] <;> trivial
  have hoperand := hadmits.textOperand htextual hf hnumeric
  constructor
  · obtain ⟨e, he⟩ := RowFilter.exists_positiveExpr_eq_ok hadmits.asTexts_ne_nil f
    refine ⟨_, RowFilter.compileStep_of_get? hf he, fun row cell hrow hcell ↦ ?_⟩
    have htarget : (RowFilter.target f).eval row = .ok cell := by
      have hstrip : f.strip = none :=
        Catalog.strip_of_ne_text_columnar f (Catalog.mem_of_get? hf) (by rw [hkind]; decide)
      rw [RowFilter.target.eq_def, hstrip]
      dsimp only
      rw [RowExpr.eval, hrow]
    obtain ⟨t, ht, hholds⟩ := RowFilter.exists_truth_anyOf hkind hop htarget he
    rw [hpositive]
    refine ⟨t, ht, hholds, ?_, fun hasked ↦ ⟨?_, fun hwhole ↦ ?_⟩⟩
    · exact fun hmem ↦ hholds.mpr (hcell.exists_infix_of_mem hmem)
    · exact hholds.trans (hcell.exists_infix_iff hasked)
    · exact hholds.trans (hcell.exists_infix_iff_exists_mem hasked hwhole)
  · intro b g s hcatalog hfacts hg hs hplaceholder
    obtain ⟨first, rest, htexts⟩ := List.exists_cons_of_ne_nil hadmits.asTexts_ne_nil
    have hvalues : p.operand.values = .text first :: rest.map .text := by
      rw [hoperand.values, htexts, List.map_cons]
    have hplan := Backend.plan_eq_satellite hcatalog hfacts hg hs hop hpositive hplaceholder hvalues
    refine ⟨_, hplan, fun aliasName scopes hscopes ↦ ?_⟩
    rw [htexts]
    exact ConditionPlan.exists_holds_satellite_iff hscopes

/-- The columns of a table with clitics. -/
def cliticColumns : List String := ["form", "clitic", "frequency"]

theorem get?_columnar_clitic : (Catalog.columnar cliticColumns).get? "clitic"
    = some (Catalog.flatField (.feature .anyOf) "clitic") := by decide +kernel

theorem get?_clitic : fullBackend.catalog.get? "clitic"
    = some (Catalog.featureField fullSchema "clitic") := by decide +kernel

theorem satellite_clitic :
    (Catalog.featureField fullSchema "clitic").satellite = some .clitics := by decide +kernel

/-- A row of that satellite with a clitic. -/
def cliticScope (w : String) : Sql.Scope := fun _ ↦ some ⟨.text, .text w⟩

/-- One of two clitics is asked for, and is found in the cell as it is in the satellite. -/
theorem joined_values_of_two_clitics : ∃ q step plan,
    Query.read (.columnar cliticColumns) {} "clitic in (kin,han)" = .ok q ∧
    RowFilter.compileStep (.columnar cliticColumns) ⟨"clitic", .isIn, .texts ["Kin", "Han"], false⟩
      = .ok step ∧
    (∃ t, step.expr.truth (.ofCells cliticColumns
      [.text "onkinkaan", .text "Kin,Kaan", .int 5]) = .ok t ∧ t.holds = true) ∧
    fullBackend.plan ⟨"clitic", .isIn, .texts ["Kin", "Han"], false⟩ = .ok plan ∧
    ∃ scope ∈ [cliticScope "Kin", cliticScope "Kaan"],
      ((plan.condition "c").truth scope).holds = true := by
  have hread : Query.read (.columnar cliticColumns) {} "clitic in (kin,han)"
      = .ok { predicates := [⟨"clitic", .isIn, .texts ["Kin", "Han"], false⟩] } := rfl
  obtain ⟨⟨step, hstep, hkept⟩, hsatellite⟩ := joined_values_of_query hread List.mem_cons_self
    get?_columnar_clitic rfl (.inr rfl) rfl ["Kin", "Kaan"]
  obtain ⟨t, ht, -, -, hwhole⟩ := hkept (.ofCells cliticColumns
    [.text "onkinkaan", .text "Kin,Kaan", .int 5]) (.text "Kin,Kaan") rfl (.text rfl)
  obtain ⟨plan, hplan, hmatch⟩ := hsatellite fullBackend _ .clitics rfl (by decide) get?_clitic
    satellite_clitic (by decide)
  refine ⟨_, step, plan, hread, hstep, ⟨t, ht, ?_⟩, hplan, ?_⟩
  · exact ((hwhole (by decide)).2 (by decide)).mpr ⟨"Kin", by decide, by decide⟩
  · refine (hmatch "c" _ ?_).mpr ⟨"Kin", by decide, by decide⟩
    exact .cons ⟨rfl, rfl⟩ (.cons ⟨rfl, rfl⟩ .nil)

/-- **A part of a value.** A row is kept for a clitic that it does not have, because it has a longer
one that begins in the same way. The satellite has no matching row for it. -/
theorem longer_value_kept : ∃ q step plan,
    Query.read (.columnar cliticColumns) {} "clitic = ka" = .ok q ∧
    q.predicates = [⟨"clitic", .equal, .text "Ka", false⟩] ∧
    RowFilter.compileStep (.columnar cliticColumns) ⟨"clitic", .equal, .text "Ka", false⟩
      = .ok step ∧
    step.expr.truth (.ofCells cliticColumns
      [.text "kukaan", .text (Text.joined ["Kaan"]), .int 5]) = .ok (some true) ∧
    (¬∃ w ∈ ["Kaan"], w ∈ (Operand.text "Ka").asTexts) ∧
    fullBackend.plan ⟨"clitic", .equal, .text "Ka", false⟩ = .ok plan ∧
    ¬∃ scope ∈ [cliticScope "Kaan"], ((plan.condition "c").truth scope).holds = true := by
  have hplan : fullBackend.plan ⟨"clitic", .equal, .text "Ka", false⟩
      = .ok (.satellite .clitics "clitic" (.text "Ka") []) :=
    Backend.plan_eq_satellite (b := fullBackend) rfl (by decide) get?_clitic satellite_clitic
      (.inl rfl) rfl (by decide) rfl
  have hstep := RowFilter.compileStep_of_get? (p := ⟨"clitic", .equal, .text "Ka", false⟩)
    get?_columnar_clitic rfl
  exact ⟨_, _, _, rfl, rfl, hstep, by decide, by decide, hplan, by decide⟩

end CorpusQuery

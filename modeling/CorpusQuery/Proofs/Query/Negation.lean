import CorpusQuery.Proofs.Query.RawCells
import CorpusQuery.Proofs.RowExpr.Knownness

/-!
# A predicate and its negation on one row

Every predicate is compiled to tests on one cell, and its negation to the negation of these. So one
of the two holds wherever the truth of the tests is known, and this is so for every cell that is
there, whatever its kind and whatever the field and the operator. The one exception are comparisons
with an undefined number. They do not arise where the compound marker is left out of the lemma, even
if what remains reads as such a number, since only texts are asked for there.

## Main statements

* `RowFilter.unknownIff_positiveExpr`: when the truth of a predicate is unknown.
* `Catalog.Admits.exists_decides`: what a predicate and its negation come to on a row.
-/

namespace CorpusQuery

/-! ## What predicates compare with -/

namespace Catalog

variable {columns : List String} {p : Predicate} {g : Field}

/-- **Operands.** A predicate on a flat table compares with texts, or with a number in a field that
no marker is left out of. -/
theorem Admits.operand_columnar (h : (columnar columns).Admits p)
    (hg : (columnar columns).get? p.field = some g) :
    (∀ u ∈ p.operand.values, ∃ s, u = .text s) ∨
      g.strip = none ∧ ∃ x, p.operand = .number (.ofNumber x) := by
  have htexts {o : Operand} (hvalues : o.values = o.asTexts.map .text) :
      ∀ u ∈ o.values, ∃ s, u = Value.text s := by
    rw [hvalues]
    intro u hu
    obtain ⟨s, -, rfl⟩ := List.mem_map.mp hu
    exact ⟨s, rfl⟩
  have hstrip (hkind : g.kind = .numeric) : g.strip = none :=
    strip_of_ne_text_columnar g (mem_of_get? hg) (by rw [hkind]; decide)
  cases h with
  | compound negated h => exact .inl (htexts rfl)
  | @number f op x hf hkind hrel hop =>
    obtain rfl := Option.some.inj (hg.symm.trans hf)
    exact .inr ⟨hstrip hkind, x, rfl⟩
  | relative x hf hkind hrel hop =>
    exact .inr ⟨hstrip (kind_of_relative_columnar (mem_of_get? hf) hrel hg), _, rfl⟩
  | position hf hkind hop ho => exact .inl (htexts ho.values_eq)
  | text hf hkind hop ho => exact .inl (htexts ho.values_eq)
  | plainLemma h hop hallowed ho => exact .inl (htexts ho.values_eq)

end Catalog

/-! ## The truth of a predicate -/

/-- No undefined number is involved when a predicate is asked of a value. -/
def Predicate.DefinedOn (p : Predicate) (v : Value) : Prop :=
  ¬v.ReadsAsNaN ∧ ∀ u ∈ p.operand.values, ¬u.ReadsAsNaN

instance (p : Predicate) (v : Value) : Decidable (p.DefinedOn v) :=
  inferInstanceAs (Decidable (¬v.ReadsAsNaN ∧ ∀ u ∈ p.operand.values, ¬u.ReadsAsNaN))

namespace RowFilter

variable {row : Row} {f : Field} {p : Predicate} {v w : Value} {e : RowExpr}

/-- What a field makes of a cell: the cell itself, or its text without the marker. -/
theorem exists_value_of_target (hrow : row f.column = some v) :
    ∃ w, (target f).eval row = .ok w ∧ (w = .null ↔ v = .null) ∧
      (f.strip = none ∧ w = v ∨ f.strip ≠ none ∧ (w = .null ∨ ∃ s, w = .text s)) := by
  have hcell := RowExpr.eval_column hrow
  rw [target.eq_def]
  cases hstrip : f.strip with
  | none => exact ⟨v, hcell, Iff.rfl, .inl ⟨rfl, rfl⟩⟩
  | some c =>
    refine ⟨v.without c, RowExpr.eval_strip hcell c, Value.without_eq_null_iff c,
      .inr ⟨Option.some_ne_none c, ?_⟩⟩
    rw [Value.without]
    split
    · exact .inr ⟨_, rfl⟩
    · exact .inl rfl

/-- **One predicate.** The truth of a predicate is unknown for a missing value only, as long as this
holds of comparisons with its operand. -/
theorem unknownIff_positiveExpr (he : positiveExpr f p = .ok e)
    (hw : (target f).eval row = .ok w)
    (hcompares : ∀ u ∈ p.operand.values, ∀ op, w.comparisonTruth op u = none ↔ w = .null) :
    e.UnknownIff row (w = .null) := by
  have htest (kind : TextTest) (s : String) :
      (RowExpr.test (target f) kind s).UnknownIff row (w = .null) :=
    ⟨_, RowExpr.truth_test hw kind s, Value.testTruth_eq_none_iff kind s⟩
  have hexpressed := expressed_positiveExpr f p
  rw [he] at hexpressed
  cases hexpressed with
  | any kind he => exact .any he fun s _ ↦ htest kind s
  | middle he =>
    exact .any he fun s _ ↦
      ((htest .contains s).and (htest .startsWith s).not).and (htest .endsWith s).not
  | like s => exact htest .like s
  | isIn => exact ⟨_, RowExpr.truth_isIn hw _, Value.memberTruth_eq_none_iff _⟩
  | compare op hu => exact ⟨_, RowExpr.truth_compare hw op rfl, hcompares _ hu op⟩

/-- **Comparisons.** Comparing a cell with the operand is unknown for a missing cell only. -/
theorem comparisonTruth_target_iff {columns : List String}
    (hadmits : (Catalog.columnar columns).Admits p)
    (hf : (Catalog.columnar columns).get? p.field = some f) (hnull : w = .null ↔ v = .null)
    (hseen : f.strip = none ∧ w = v ∨ f.strip ≠ none ∧ (w = .null ∨ ∃ s, w = .text s))
    (hdefined : v ≠ .null → p.DefinedOn v) {u : Value} (hu : u ∈ p.operand.values)
    (op : Comparison) : w.comparisonTruth op u = none ↔ w = .null := by
  have hoperand := hadmits.operand_columnar hf
  have hpresent : u ≠ .null := by
    rcases hoperand with htexts | ⟨-, x, hx⟩
    · obtain ⟨s, rfl⟩ := htexts u hu
      exact Value.noConfusion
    · rw [hx] at hu
      rw [List.mem_singleton.mp hu]
      exact Value.ofNumber_ne_null x
  refine Value.comparisonTruth_eq_none_iff hpresent (fun hw ↦ ?_) op
  rcases hseen with ⟨-, rfl⟩ | ⟨hstrip, hw' | ⟨s, rfl⟩⟩
  · obtain ⟨hnan, hnan'⟩ := hdefined hw
    exact .inr ⟨hnan, hnan' u hu⟩
  · exact absurd hw' hw
  · obtain ⟨t, rfl⟩ := (hoperand.resolve_right fun h ↦ hstrip h.1) u hu
    exact .inl ⟨s, t, rfl, rfl⟩

/-- **The backing column.** A predicate that a flat table admits has a truth on a row that has the
backing column, and it is unknown for a missing cell only unless an undefined number is involved. -/
theorem exists_truth_of_admits {columns : List String}
    (hadmits : (Catalog.columnar columns).Admits p)
    (hf : (Catalog.columnar columns).get? p.field = some f) (he : positiveExpr f p = .ok e)
    (hrow : row f.column = some v) :
    ∃ t, e.truth row = .ok t ∧ ((v ≠ .null → p.DefinedOn v) → (t = none ↔ v = .null)) := by
  obtain ⟨hcondition, hnames⟩ := conditionOn_of_positiveExpr he
  obtain ⟨t, ht⟩ := hcondition.exists_truth fun c hc ↦ ⟨v, hnames c hc ▸ hrow⟩
  obtain ⟨w, hw, hnull, hseen⟩ := exists_value_of_target hrow
  refine ⟨t, ht, fun hdefined ↦ ?_⟩
  have hunknown := unknownIff_positiveExpr he hw fun u hu op ↦
    comparisonTruth_target_iff hadmits hf hnull hseen hdefined hu op
  exact (hunknown.iff_of_truth ht).trans hnull

end RowFilter

/-! ## One row -/

/-- The predicate that asks for the opposite. -/
def Predicate.flipped (p : Predicate) : Predicate := { p with negated := !p.negated }

/-- What a predicate comes to on a row. -/
def Predicate.Decides (p : Predicate) (catalog : Catalog) (row : Row) (kept : Bool) : Prop :=
  ∃ step, RowFilter.compileStep catalog p = .ok step ∧ step.expr.holds row = .ok kept

/-- **One row.** What a predicate and its negation come to on a row depends on the cell in the
backing column. Neither holds if the cell is missing, and else exactly one of them does unless an
undefined number is involved. -/
theorem Catalog.Admits.exists_decides {columns : List String} {p : Predicate}
    (h : (columnar columns).Admits p) :
    ∃ f, (columnar columns).get? p.field = some f ∧ f.column ∈ columns ∧ ∀ v, ∃ kept kept',
      (∀ row : Row, row f.column = some v → p.Decides (columnar columns) row kept ∧
        p.flipped.Decides (columnar columns) row kept') ∧
      (v = .null → kept = false ∧ kept' = false) ∧
      (v ≠ .null → p.DefinedOn v → kept' = !kept) := by
  obtain ⟨f, hf⟩ := exists_get?_of_contains (h.contains_field (closed_columnar columns))
  obtain ⟨e, he⟩ := RowFilter.exists_positiveExpr_eq_ok h.asTexts_ne_nil f
  refine ⟨f, hf, column_mem_of_mem_columnar f (mem_of_get? hf), fun v ↦ ?_⟩
  -- No other cell matters, so a row that has the value everywhere stands for all.
  let everywhere : Row := fun _ ↦ some v
  have heverywhere : everywhere f.column = some v := rfl
  obtain ⟨t, ht, hunknown⟩ := RowFilter.exists_truth_of_admits h hf he heverywhere
  have hholds (row : Row) (hrow : row f.column = some v) :
      e.holds row = .ok t.holds ∧ (RowExpr.not e).holds row = .ok t.not.holds := by
    have hnames := (RowFilter.conditionOn_of_positiveExpr he).names
    have hcongr : ∀ c, e.Names c → row c = everywhere c := fun c hc ↦ hnames c hc ▸ hrow
    rw [RowExpr.holds_congr hcongr, @RowExpr.holds_congr row _ (.not e) hcongr]
    exact ⟨RowExpr.holds_of_truth ht, RowExpr.holds_of_truth (RowExpr.truth_not ht)⟩
  have hmissing (hv : v = .null) : t.holds = false ∧ t.not.holds = false := by
    rw [(hunknown fun hne ↦ absurd hv hne).mpr hv]
    exact ⟨rfl, rfl⟩
  have hknown (hv : v ≠ .null) (hdefined : p.DefinedOn v) : t.not.holds = !t.holds :=
    Truth.holds_not (mt (hunknown fun _ ↦ hdefined).mp hv)
  have hstep := RowFilter.compileStep_of_get? hf he
  have hstep' : RowFilter.compileStep (columnar columns) p.flipped
      = .ok ⟨f.column, if !p.negated then .not e else e⟩ := RowFilter.compileStep_of_get? hf he
  -- Of the two steps one is the test and the other one its negation.
  cases hnegated : p.negated with
  | false =>
    rw [hnegated] at hstep hstep'
    refine ⟨t.holds, t.not.holds, fun row hrow ↦ ?_, hmissing, hknown⟩
    obtain ⟨hpositive, hnegative⟩ := hholds row hrow
    exact ⟨⟨_, hstep, hpositive⟩, _, hstep', hnegative⟩
  | true =>
    rw [hnegated] at hstep hstep'
    refine ⟨t.not.holds, t.holds, fun row hrow ↦ ?_, fun hv ↦ (hmissing hv).symm, ?_⟩
    · obtain ⟨hpositive, hnegative⟩ := hholds row hrow
      exact ⟨⟨_, hstep, hnegative⟩, _, hstep', hpositive⟩
    · intro hv hdefined
      rw [hknown hv hdefined, Bool.not_not]

end CorpusQuery

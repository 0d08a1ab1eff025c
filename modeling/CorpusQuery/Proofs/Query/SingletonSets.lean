import CorpusQuery.Proofs.Query.Negation
import CorpusQuery.Proofs.Query.OneClause
import CorpusQuery.Proofs.Sql.Connectives
import CorpusQuery.Proofs.Statement.Plans
import CorpusQuery.Proofs.Statement.DeliveredNames
import CorpusQuery.Proofs.Text.Trimming

/-!
# Lists of one value

A clause that asks for a list with one value is read as a predicate of its own, and so is a clause
that asks for that value. They differ in their operator and in their operand, and not in their
field, in the spelling of their value and in their negation.

A statement does not tell them apart. The value is looked up in the same satellite, or compared in
the same column, drawn towards the affinity of that column both times, and all the rest of the
statement is the same.

A filter tells them apart in one case only. A number and an undefined number are neither equal nor
different, but the one is not in a list of the other. So the two clauses keep the same rows, and
their negations do not.

## Main statements

* `Query.exists_readPredicate_of_bare`: what the two clauses are read as.
* `RowFilter.truth_eq_iff_of_forOne`: when the two have the same truth on a row.
* `Backend.compile_of_forOne`: the two statements.
* `list_of_one_value`: what the two clauses come to.
* `undefined_number_listed`: a row that only one of the two negated clauses keeps.
-/

namespace CorpusQuery

/-! ## Values -/

namespace Text

theorem isBlank_of_isWordGap {c : Char} (h : isWordGap c = true) : isBlank c = true := by
  simp only [isWordGap, Bool.or_eq_true, beq_iff_eq] at h
  obtain ((rfl | rfl) | rfl) | rfl := h <;> rfl

theorem splitOn_eq_singleton {sep : Char} {cs : List Char} (h : sep ∉ cs) :
    splitOn sep cs = [cs] := by
  induction cs with
  | nil => rfl
  | cons c cs ih =>
    obtain ⟨hne, hcs⟩ := List.ne_and_not_mem_of_not_mem_cons h
    rw [splitOn, if_neg (by simpa using Ne.symm hne), ih hcs]

end Text

namespace Query

/-- A word that is its own only item if it is read as a list. -/
structure IsBare (raw : String) : Prop where
  comma : ',' ∉ raw.toList
  blank : ∀ c ∈ raw.toList, Text.isBlank c = false
  opening : raw.toList.head? ≠ some '('
  closing : raw.toList.getLast? ≠ some ')'
  content : unquote raw.toList ≠ []

variable {raw : String}

theorem IsBare.isWord (h : IsBare raw) : Text.IsWord raw := by
  refine ⟨fun hempty ↦ h.content (hempty ▸ rfl), fun c hc ↦ Bool.eq_false_iff.mpr fun hgap ↦ ?_⟩
  have hblank := h.blank c hc
  rw [Text.isBlank_of_isWordGap hgap] at hblank
  cases hblank

/-- **One item.** Neither parentheses nor commas nor white space stand between a bare word and its
only item. -/
theorem IsBare.readItems_eq (h : IsBare raw) :
    readItems raw.toList = [.ofList (unquote raw.toList)] := by
  have hopening : raw.toList.dropWhile (· == '(') = raw.toList :=
    List.dropWhile_beq_eq_self_of_head?_ne h.opening
  have hclosing : raw.toList.reverse.dropWhile (· == ')') = raw.toList.reverse :=
    List.dropWhile_beq_eq_self_of_head?_ne (List.head?_reverse ▸ h.closing)
  rw [readItems, hopening, hclosing, List.reverse_reverse, Text.splitOn_eq_singleton h.comma,
    List.map_singleton, (Text.Trimmed.of_forall h.blank).trimChars_eq,
    List.filter_cons_of_pos (by simpa using h.content), List.filter_nil, List.map_singleton]

end Query

/-! ## Predicates -/

namespace Comparator

/-- The comparators that ask for a list. -/
def forList : Bool → Comparator
  | false => .isIn
  | true => .notIn

/-- The comparators that ask for one value. -/
def forValue : Bool → Comparator
  | false => .equal
  | true => .notEqual

variable (negated : Bool)

@[simp] theorem isSet_forList : (forList negated).isSet = true := by cases negated <;> rfl

@[simp] theorem isSet_forValue : (forValue negated).isSet = false := by cases negated <;> rfl

@[simp] theorem operator_forList : (forList negated).operator = .isIn := by cases negated <;> rfl

@[simp] theorem operator_forValue : (forValue negated).operator = .equal := by
  cases negated <;> rfl

@[simp] theorem negates_forList : (forList negated).negates = negated := by cases negated <;> rfl

@[simp] theorem negates_forValue : (forValue negated).negates = negated := by cases negated <;> rfl

end Comparator

/-- A predicate that asks for a list with one text, and one that asks for this text. -/
inductive Predicate.ForOne (s : String) : Predicate → Predicate → Prop
  | value (field : String) (negated : Bool) :
    ForOne s ⟨field, .isIn, .texts [s], negated⟩ ⟨field, .equal, .text s, negated⟩
  | place (field : String) {op : Operator} (h : op.isPositional = true) (negated : Bool) :
    ForOne s ⟨field, op, .texts [s], negated⟩ ⟨field, op, .text s, negated⟩

/-- The kinds of fields that take a text or a list of texts. -/
inductive FieldKind.IsTextual : FieldKind → Prop
  | text : IsTextual .text
  | positional (place : Position) : IsTextual (.positional place)
  | feature (matching : FeatureMatch) : IsTextual (.feature matching)

namespace Query

variable {totals : Totals} {word raw : String} {f : Field} {c : Comparator} {o : Operand}

theorem readText_of_isSet (hc : c.isSet = true) (h : IsBare raw) (word : String) :
    readText word c raw = .ok (.texts [.ofList (unquote raw.toList)]) := by
  rw [readText, if_pos hc, h.readItems_eq]

theorem readText_of_not_isSet (hc : c.isSet = false) (word raw : String) :
    readText word c raw = .ok (.text (.ofList (unquote raw.toList))) := by
  rw [readText, hc, if_neg Bool.false_ne_true]

theorem readPredicate_of_positional (totals : Totals) {place : Position}
    (hkind : f.kind = .positional place) (ho : readText word c raw = .ok o) :
    readPredicate totals word f c raw = .ok ⟨"form", place.operator, o, c.negates⟩ := by
  rw [readPredicate, hkind]
  dsimp only
  rw [ho]
  rfl

theorem readPredicate_of_text (hkind : f.kind = .text ∨ ∃ matching, f.kind = .feature matching)
    (ho : readText word c raw = .ok o) : readPredicate totals word f c raw
      = .ok ⟨(normalizeText f c.operator o).1, c.operator, (normalizeText f c.operator o).2,
          c.negates⟩ := by
  rcases hkind with hkind | ⟨matching, hkind⟩
  all_goals
    rw [readPredicate, hkind]
    dsimp only
    rw [ho]
    rfl

/-- The spelling of a text depends on the field, and on the operator only in that patterns are left
as they are. -/
theorem exists_normalizeText_eq (f : Field) (s : String) : ∃ field t,
    normalizeText f .isIn (.texts [s]) = (field, .texts [t]) ∧
      normalizeText f .equal (.text s) = (field, .text t) := by
  have hisIn : (Operator.isIn != .like) = true := rfl
  have hequal : (Operator.equal != .like) = true := rfl
  rw [normalizeText, normalizeText, hisIn, hequal]
  split
  · exact ⟨_, _, rfl, rfl⟩
  · split
    · exact ⟨_, _, rfl, rfl⟩
    · split
      · exact ⟨_, _, rfl, rfl⟩
      · exact ⟨_, _, rfl, rfl⟩

/-- **Reading.** With a bare word the two comparators are read as predicates for one text. -/
theorem exists_readPredicate_of_bare (hkind : f.kind.IsTextual) (hraw : IsBare raw)
    (totals : Totals) (word : String) (negated : Bool) : ∃ s ps p,
      readPredicate totals word f (.forList negated) raw = .ok ps ∧
      readPredicate totals word f (.forValue negated) raw = .ok p ∧
      Predicate.ForOne s ps p ∧ ps.negated = negated := by
  have hlist := readText_of_isSet (Comparator.isSet_forList negated) hraw word
  have hvalue := readText_of_not_isSet (Comparator.isSet_forValue negated) word raw
  obtain ⟨field, t, htexts, htext⟩ := exists_normalizeText_eq f (.ofList (unquote raw.toList))
  -- Textual fields and features are read in the same way.
  have hread (hkind : f.kind = .text ∨ ∃ matching, f.kind = .feature matching) :
      readPredicate totals word f (.forList negated) raw
          = .ok ⟨field, .isIn, .texts [t], negated⟩ ∧
        readPredicate totals word f (.forValue negated) raw
          = .ok ⟨field, .equal, .text t, negated⟩ := by
    rw [readPredicate_of_text hkind hlist, readPredicate_of_text hkind hvalue,
      Comparator.operator_forList, Comparator.operator_forValue, Comparator.negates_forList,
      Comparator.negates_forValue, htexts, htext]
    exact ⟨rfl, rfl⟩
  cases hf : f.kind with
  | text =>
    obtain ⟨hps, hp⟩ := hread (.inl hf)
    exact ⟨t, _, _, hps, hp, .value field negated, rfl⟩
  | feature matching =>
    obtain ⟨hps, hp⟩ := hread (.inr ⟨matching, hf⟩)
    exact ⟨t, _, _, hps, hp, .value field negated, rfl⟩
  | positional place =>
    have hps := readPredicate_of_positional totals hf hlist
    have hp := readPredicate_of_positional totals hf hvalue
    rw [Comparator.negates_forList] at hps
    rw [Comparator.negates_forValue] at hp
    exact ⟨_, _, _, hps, hp, .place "form" (by cases place <;> rfl) negated, rfl⟩
  | numeric =>
    rw [hf] at hkind
    cases hkind
  | boolean =>
    rw [hf] at hkind
    cases hkind

end Query

theorem Field.allows_of_isTextual {f : Field} (h : f.kind.IsTextual) (negated : Bool) :
    f.allows (.forList negated) = true ∧ f.allows (.forValue negated) = true := by
  rw [allows, allows]
  generalize f.kind = kind at h ⊢
  cases h <;> cases negated <;> exact ⟨rfl, rfl⟩

/-! ## Cells -/

namespace Value

variable {v : Value} {s : String}

/-- A number and a text that reads as a number, one of which is undefined. -/
def UndefinedBeside (v : Value) (s : String) : Prop :=
  v.text? = none ∧ ∃ x y, v.toNumber? = some x ∧ (text s).toNumber? = some y ∧
    (x.isNaN = true ∨ y.isNaN = true)

theorem looseOrder?_text_eq_none_iff (hv : v ≠ .null) : looseOrder? v (.text s) = none ↔
    ∃ x y, v.toNumber? = some x ∧ (text s).toNumber? = some y ∧
      (x.isNaN = true ∨ y.isNaN = true) := by
  obtain ⟨t, ht⟩ := Option.ne_none_iff_exists'.mp (mt asText?_eq_none.mp hv)
  rw [looseOrder?, ht]
  cases v.toNumber? with
  | none => simp [asText?]
  | some x =>
    cases (text s).toNumber? with
    | none => simp [asText?]
    | some y => simp [Number.order_eq_none_iff]

/-- **One text.** A comparison with a text is unknown for a missing value, and where a number is
undefined. -/
theorem comparisonTruth_text_eq_none_iff :
    v.comparisonTruth .equal (.text s) = none ↔ v = .null ∨ v.UndefinedBeside s := by
  cases v with
  | null => exact iff_of_true rfl (.inl rfl)
  | text t =>
    refine iff_of_false (Option.some_ne_none _) ?_
    rintro (h | ⟨h, -⟩)
    · cases h
    · cases h
  | int n =>
    have hloose : (int n).comparisonTruth .equal (.text s)
        = (looseOrder? (int n) (.text s)).map Comparison.equal.accepts := rfl
    rw [hloose, Option.map_eq_none_iff, looseOrder?_text_eq_none_iff Value.noConfusion]
    simp [UndefinedBeside, text?]
  | real x =>
    have hloose : (real x).comparisonTruth .equal (.text s)
        = (looseOrder? (real x) (.text s)).map Comparison.equal.accepts := rfl
    rw [hloose, Option.map_eq_none_iff, looseOrder?_text_eq_none_iff Value.noConfusion]
    simp [UndefinedBeside, text?]

/-- Membership in a list of one value and equality with it are the same, unless only the one of them
is known. -/
theorem memberTruth_singleton_eq_iff (v w : Value) :
    v.memberTruth [w] = v.comparisonTruth .equal w ↔
      (v.comparisonTruth .equal w = none → v = .null) := by
  rw [memberTruth]
  by_cases hnull : v.isNull = true
  · have hv := isNull_iff.mp hnull
    rw [if_pos hnull, comparisonTruth, hnull, Bool.true_or, if_pos rfl]
    exact iff_of_true rfl fun _ ↦ hv
  · rw [if_neg hnull, List.any_cons, List.any_nil, Bool.or_false]
    rw [isNull_iff] at hnull
    rcases v.comparisonTruth .equal w with _ | _ | _
    · exact iff_of_false (Option.some_ne_none _) fun h ↦ hnull (h rfl)
    · exact iff_of_true rfl fun h ↦ by cases h
    · exact iff_of_true rfl fun h ↦ by cases h

theorem UndefinedBeside.ne_null (h : v.UndefinedBeside s) : v ≠ .null := by
  rintro rfl
  obtain ⟨-, _, _, hx, -⟩ := h
  cases hx

/-- **Lists of one text.** Whether a value is the one text of a list has the same truth as whether
it equals that text, as long as no number is undefined. -/
theorem memberTruth_text_eq_iff :
    v.memberTruth [.text s] = v.comparisonTruth .equal (.text s) ↔ ¬v.UndefinedBeside s := by
  rw [memberTruth_singleton_eq_iff, comparisonTruth_text_eq_none_iff]
  constructor
  · exact fun h hundefined ↦ hundefined.ne_null (h (.inr hundefined))
  · exact fun h hor ↦ hor.resolve_right h

end Value

/-! ## Filters -/

/-- A predicate with one text compares a number in the cell of a field with a number in its text,
one of which is undefined. -/
def Predicate.ComparesUndefined (p : Predicate) (f : Field) (v : Value) : Prop :=
  p.operator = .equal ∧ f.kind ≠ .feature .anyOf ∧ f.strip = none ∧
    ∃ s ∈ p.operand.asTexts, v.UndefinedBeside s

namespace Predicate.ForOne

variable {s : String} {ps p : Predicate}

theorem field_eq (h : ForOne s ps p) : ps.field = p.field := by
  cases h <;> rfl

theorem negated_eq (h : ForOne s ps p) : ps.negated = p.negated := by
  cases h <;> rfl

theorem asTexts_eq (h : ForOne s ps p) : ps.operand.asTexts = [s] ∧ p.operand.asTexts = [s] := by
  cases h <;> exact ⟨rfl, rfl⟩

end Predicate.ForOne

namespace RowFilter

variable {row : Row} {f : Field} {s : String} {ps p : Predicate} {e e' : RowExpr} {v : Value}

theorem positiveExpr_of_forOne (h : Predicate.ForOne s ps p) (f : Field) :
    (∃ e, positiveExpr f ps = .ok e ∧ positiveExpr f p = .ok e) ∧
        (p.operator = .equal → f.kind = .feature .anyOf) ∨
      (p.operator = .equal ∧ f.kind ≠ .feature .anyOf) ∧
        positiveExpr f ps = .ok (.isIn (target f) [.text s]) ∧
        positiveExpr f p = .ok (.compare (target f) .equal (.literal (.text s))) := by
  cases h with
  | value field negated =>
    by_cases hkind : f.kind = .feature .anyOf
    · exact .inl ⟨⟨_, if_pos hkind, if_pos hkind⟩, fun _ ↦ hkind⟩
    · exact .inr ⟨⟨rfl, hkind⟩, if_neg hkind, if_neg hkind⟩
  | @place field op hop negated =>
    refine .inl ⟨?_, ?_⟩
    · cases op <;> first | exact ⟨_, rfl, rfl⟩ | cases hop
    · rintro rfl
      cases hop

/-- **One row.** The tests of the two predicates keep the same rows, and have the same truth unless
an undefined number is compared. -/
theorem exists_truths_of_forOne (h : Predicate.ForOne s ps p) (he : positiveExpr f ps = .ok e)
    (he' : positiveExpr f p = .ok e') (hrow : row f.column = some v) :
    ∃ t t', e.truth row = .ok t ∧ e'.truth row = .ok t' ∧ t.holds = t'.holds ∧
      (t = t' ↔ ¬p.ComparesUndefined f v) := by
  rcases positiveExpr_of_forOne h f with ⟨⟨both, hps, hp⟩, hanyOf⟩ | ⟨⟨hop, hkind⟩, hps, hp⟩
  · obtain rfl := Except.ok.inj (he.symm.trans hps)
    obtain rfl := Except.ok.inj (he'.symm.trans hp)
    obtain ⟨hcondition, hnames⟩ := conditionOn_of_positiveExpr he
    obtain ⟨t, ht⟩ := hcondition.exists_truth fun c hc ↦ ⟨v, hnames c hc ▸ hrow⟩
    exact ⟨t, t, ht, ht, rfl, iff_of_true rfl fun hundefined ↦ hundefined.2.1 (hanyOf hundefined.1)⟩
  · obtain rfl := Except.ok.inj (he.symm.trans hps)
    obtain rfl := Except.ok.inj (he'.symm.trans hp)
    obtain ⟨w, hw, -, hseen⟩ := exists_value_of_target hrow
    refine ⟨_, _, RowExpr.truth_isIn hw _, RowExpr.truth_compare hw _ rfl,
      w.holds_memberTruth_singleton _, Value.memberTruth_text_eq_iff.trans (not_congr ?_)⟩
    rw [Predicate.ComparesUndefined, h.asTexts_eq.2]
    rcases hseen with ⟨hstrip, rfl⟩ | ⟨hstrip, hw⟩
    · simp [hop, hkind, hstrip]
    · -- Without the marker a cell is a text, so that no number is compared.
      refine iff_of_false ?_ fun hundefined ↦ hstrip hundefined.2.2.1
      rintro ⟨htext, x, y, hx, -⟩
      rcases hw with rfl | ⟨t, rfl⟩
      · cases hx
      · cases htext

theorem eval_target_of_none (hrow : row f.column = none) :
    (target f).eval row = .error (.columnNotFound f.column) := by
  have hcell : (RowExpr.column f.column).eval row = .error (.columnNotFound f.column) := by
    rw [RowExpr.eval, hrow]
  rw [target.eq_def]
  cases f.strip with
  | none => exact hcell
  | some c =>
    dsimp only
    rw [RowExpr.eval, hcell]
    rfl

theorem truth_eq_of_forOne (h : Predicate.ForOne s ps p) (he : positiveExpr f ps = .ok e)
    (he' : positiveExpr f p = .ok e') (hrow : row f.column = none) :
    e.truth row = e'.truth row := by
  rcases positiveExpr_of_forOne h f with ⟨⟨both, hps, hp⟩, -⟩ | ⟨-, hps, hp⟩
  · obtain rfl := Except.ok.inj (he.symm.trans hps)
    obtain rfl := Except.ok.inj (he'.symm.trans hp)
    rfl
  · obtain rfl := Except.ok.inj (he.symm.trans hps)
    obtain rfl := Except.ok.inj (he'.symm.trans hp)
    have htarget := eval_target_of_none hrow
    have hisIn : (RowExpr.isIn (target f) [.text s]).eval row
        = .error (.columnNotFound f.column) := by
      rw [RowExpr.eval, htarget]
      rfl
    have hcompare : (RowExpr.compare (target f) .equal (.literal (.text s))).eval row
        = .error (.columnNotFound f.column) := by
      rw [RowExpr.eval, htarget]
      rfl
    rw [RowExpr.truth, RowExpr.truth, hisIn, hcompare]

/-- **All rows.** The tests have the same truth unless an undefined number is compared. -/
theorem truth_eq_iff_of_forOne (h : Predicate.ForOne s ps p) (he : positiveExpr f ps = .ok e)
    (he' : positiveExpr f p = .ok e') (row : Row) :
    e.truth row = e'.truth row ↔ ¬∃ v, row f.column = some v ∧ p.ComparesUndefined f v := by
  cases hrow : row f.column with
  | none => exact iff_of_true (truth_eq_of_forOne h he he' hrow) fun ⟨v, hv, _⟩ ↦ by cases hv
  | some v =>
    obtain ⟨t, t', ht, ht', -, hiff⟩ := exists_truths_of_forOne h he he' hrow
    rw [ht, ht', Except.ok.injEq, hiff]
    simp

theorem holds_eq_of_forOne (h : Predicate.ForOne s ps p) (he : positiveExpr f ps = .ok e)
    (he' : positiveExpr f p = .ok e') (row : Row) : e.holds row = e'.holds row := by
  cases hrow : row f.column with
  | none => rw [RowExpr.holds, RowExpr.holds, truth_eq_of_forOne h he he' hrow]
  | some v =>
    obtain ⟨t, t', ht, ht', hsame, -⟩ := exists_truths_of_forOne h he he' hrow
    rw [RowExpr.holds_of_truth ht, RowExpr.holds_of_truth ht', hsame]

end RowFilter

/-- Two steps test the same column, with the same truth except for some cells. -/
structure FilterStep.SameUnless (exception : Value → Prop) (step step' : FilterStep) : Prop where
  column : step'.column = step.column
  exists_truth : ∀ (row : Row) (v : Value), row step.column = some v →
    ∃ t t', step.expr.truth row = .ok t ∧ step'.expr.truth row = .ok t'
  truth_iff : ∀ row : Row, step.expr.truth row = step'.expr.truth row ↔
    ¬∃ v, row step.column = some v ∧ exception v

namespace RowFilter

variable {f : Field} {s : String} {ps p : Predicate}

theorem compile_singleton {catalog : Catalog} {step : FilterStep}
    (h : compileStep catalog p = .ok step) (top : Option Nat) :
    compile catalog ⟨[p], top⟩ = .ok ⟨[step]⟩ := by
  rw [compile, if_neg (by exact Bool.false_ne_true), compileSteps, List.mapM_cons, h]
  rfl

/-- **Filters.** The two predicates are compiled to steps with the same truth unless an undefined
number is compared. Without negation they keep the same rows. -/
theorem exists_compileStep_of_forOne {catalog : Catalog} (h : Predicate.ForOne s ps p)
    (hf : catalog.get? p.field = some f) : ∃ step step',
      compileStep catalog ps = .ok step ∧ compileStep catalog p = .ok step' ∧
      step.column = f.column ∧ step.SameUnless (p.ComparesUndefined f) step' ∧
      (p.negated = false → ∀ row, step.expr.holds row = step'.expr.holds row) := by
  obtain ⟨hlist, hvalue⟩ := h.asTexts_eq
  obtain ⟨e, he⟩ := exists_positiveExpr_eq_ok (hlist ▸ List.cons_ne_nil s []) f
  obtain ⟨e', he'⟩ := exists_positiveExpr_eq_ok (hvalue ▸ List.cons_ne_nil s []) f
  have hstep := compileStep_of_get? (h.field_eq ▸ hf) he
  have hstep' := compileStep_of_get? hf he'
  rw [h.negated_eq] at hstep
  refine ⟨_, _, hstep, hstep', rfl, ⟨rfl, fun row v hrow ↦ ?_, fun row ↦ ?_⟩, fun hneg row ↦ ?_⟩
  · obtain ⟨t, t', ht, ht', -, -⟩ := exists_truths_of_forOne h he he' hrow
    cases p.negated with
    | false => exact ⟨t, t', ht, ht'⟩
    | true => exact ⟨_, _, RowExpr.truth_not ht, RowExpr.truth_not ht'⟩
  · cases p.negated with
    | false => exact truth_eq_iff_of_forOne h he he' row
    | true => exact RowExpr.truth_not_eq_iff.trans (truth_eq_iff_of_forOne h he he' row)
  · rw [hneg]
    exact holds_eq_of_forOne h he he' row

end RowFilter

/-! ## Statements -/

namespace Sql

theorem Datum.memberTruth_singleton (a : Affinity) (d item : Datum) :
    memberTruth a d [item] = (d.compareAs a item).map (· == .eq) := by
  change Truth.or ((d.compareAs a item).map (· == .eq)) (some false) = _
  generalize (d.compareAs a item).map (· == .eq) = t
  rcases t with _ | _ | _ <;> rfl

theorem truth_inList_singleton (scope : Scope) (e : Expr) (v : Value) :
    (Expr.inList e ([v].map .value) false).truth scope
      = (Expr.binary e .eq (.value v)).truth scope := by
  rw [truth_inList_values, truth_binary_value, List.map_singleton, Datum.memberTruth_singleton]
  rfl

end Sql

/-- Two statements are the same apart from their conditions, and these have the same truth in every
scope. -/
structure Statement.Interchangeable (s t : Statement) : Prop where
  rest : { s with select := { s.select with condition := t.select.condition } } = t
  truth : ∀ scope, s.select.condition.map (·.truth scope) = t.select.condition.map (·.truth scope)

/-- Two compilations fail for the same reason or give statements that can take each other's
place. -/
inductive InterchangeableOutcome :
    Except CompileError Statement → Except CompileError Statement → Prop
  | error (e : CompileError) : InterchangeableOutcome (.error e) (.error e)
  | ok {s t : Statement} (h : s.Interchangeable t) : InterchangeableOutcome (.ok s) (.ok t)

theorem InterchangeableOutcome.refl (x : Except CompileError Statement) :
    InterchangeableOutcome x x := by
  cases x with
  | error e => exact .error e
  | ok s => exact .ok ⟨rfl, fun _ ↦ rfl⟩

namespace Backend

variable {b : Backend} {s : String} {ps p : Predicate}

/-- The conditions of an assembly are the condition of its statement, and nothing else of it. -/
theorem assemble_conditions (a : Assembly) (es : List Sql.Expr) :
    b.assemble { a with conditions := es } = (b.assemble a).map fun st ↦
      { st with select := { st.select with condition := Sql.Expr.andAll? es } } := by
  rw [assemble, assemble]
  cases b.orderField with
  | error e => rfl
  | ok order =>
    obtain ⟨f, r⟩ := order
    dsimp only [bind, Except.bind, pure, Except.pure, Except.map]
    rw [Assembly.foldl_require_conditions]
    rfl

theorem assemble_interchangeable {a : Assembly} {e e' : Sql.Expr}
    (h : ∀ scope, e.truth scope = e'.truth scope) :
    InterchangeableOutcome (b.assemble { a with conditions := [e] })
      (b.assemble { a with conditions := [e'] }) := by
  rw [assemble_conditions a [e], assemble_conditions a [e']]
  cases b.assemble a with
  | error err => exact .error err
  | ok st => exact .ok ⟨rfl, fun scope ↦ congrArg some (h scope)⟩

theorem compile_singleton (p : Predicate) (top : Option Nat) :
    b.compile ⟨[p], top⟩ = b.plan p >>= fun plan ↦ b.assemble (.ofPlans [plan]) := by
  rw [compile, if_neg (by exact Bool.false_ne_true), List.mapM_cons]
  cases b.plan p with
  | error e => rfl
  | ok plan => rfl

theorem satelliteFor?_singleton (field s : String) (negated : Bool) (f : Field) :
    satelliteFor? ⟨field, .isIn, .texts [s], negated⟩ f
      = satelliteFor? ⟨field, .equal, .text s, negated⟩ f := by
  rw [satelliteFor?, satelliteFor?]
  simp [Operand.hasPlaceholder]

/-- On the column of a field the two predicates are planned as conditions with the same truth. -/
theorem exists_planColumn_singleton (b : Backend) (field s : String) (negated : Bool) (f : Field)
    (r : Relation) : ∃ e e' touched unanchored,
      b.planColumn ⟨field, .isIn, .texts [s], negated⟩ f r
        = .ok (.shared e r touched unanchored) ∧
      b.planColumn ⟨field, .equal, .text s, negated⟩ f r
        = .ok (.shared e' r touched unanchored) ∧
      ∀ scope, e.truth scope = e'.truth scope := by
  refine ⟨_, _, _, _, rfl, rfl, fun scope ↦ ?_⟩
  have htruth := Sql.truth_inList_singleton scope (b.columnExpr f r) (.text s)
  cases negated with
  | false => exact htruth
  | true =>
    dsimp only
    rw [if_pos rfl, if_pos rfl, Sql.Expr.truth_negate, Sql.Expr.truth_negate]
    exact congrArg Truth.not htruth

/-- **Plans.** The two predicates have the same plan, or plans that share all but a condition with
the same truth. -/
theorem plan_of_forOne (h : Predicate.ForOne s ps p) : b.plan ps = b.plan p ∨
    ∃ e e' r touched unanchored, b.plan ps = .ok (.shared e r touched unanchored) ∧
      b.plan p = .ok (.shared e' r touched unanchored) ∧
      ∀ scope, e.truth scope = e'.truth scope := by
  rw [plan, plan, h.field_eq]
  cases hf : b.catalog.get? p.field with
  | none => exact .inl rfl
  | some f =>
    dsimp only
    cases hr : f.relation with
    | none => exact .inl rfl
    | some r =>
      dsimp only
      by_cases htable : (!b.schema.hasTable r.table) = true
      · rw [if_pos htable, if_pos htable]
        exact .inl rfl
      rw [if_neg htable, if_neg htable]
      cases h with
      | place field hop negated =>
        rw [if_pos (by exact hop), if_pos (by exact hop)]
        exact .inl rfl
      | value field negated =>
        rw [if_neg (by exact Bool.false_ne_true), if_neg (by exact Bool.false_ne_true),
          satelliteFor?_singleton]
        cases satelliteFor? ⟨field, .equal, .text s, negated⟩ f with
        | some s' => exact .inl rfl
        | none =>
          obtain ⟨e, e', touched, unanchored, hps, hp, htruth⟩ :=
            b.exists_planColumn_singleton field s negated f r
          exact .inr ⟨e, e', r, touched, unanchored, hps, hp, htruth⟩

/-- **Statements.** The two predicates are compiled to statements that can take each other's
place. -/
theorem compile_of_forOne (h : Predicate.ForOne s ps p) (top : Option Nat) :
    InterchangeableOutcome (b.compile ⟨[ps], top⟩) (b.compile ⟨[p], top⟩) := by
  rw [compile_singleton, compile_singleton]
  rcases plan_of_forOne h (b := b) with heq | ⟨e, e', r, touched, unanchored, hps, hp, htruth⟩
  · rw [heq]
    exact .refl _
  · rw [hps, hp]
    exact assemble_interchangeable (a := .ofPlans [.shared e r touched unanchored]) htruth

end Backend

/-! ## Both -/

/-- **Lists of one value.** Whether a textual field is asked for a list with one bare value or for
that value, both clauses are accepted or both are refused. Over any corpus, statements for the one
and the other are refused for the same reason, or they are the same apart from conditions with the
same truth. The filters have one step each, on the same column, with the same truth on every row
unless a number is compared with an undefined one, and without negation they keep the same rows. -/
theorem list_of_one_value {catalog : Catalog}
    (hcatalog : (∃ columns, catalog = .columnar columns) ∨ ∃ schema, catalog = .relational schema)
    (totals : Totals) {word raw : String} {f : Field} (hword : Text.IsWord word)
    (hf : catalog.lookup? word = some f) (hkind : f.kind.IsTextual) (hraw : Query.IsBare raw)
    (negated : Bool) :
    ((∃ q, Query.read catalog totals ((Comparator.forList negated).clause word raw) = .ok q) ↔
      ∃ q, Query.read catalog totals ((Comparator.forValue negated).clause word raw) = .ok q) ∧
    ∀ qs q, Query.read catalog totals ((Comparator.forList negated).clause word raw) = .ok qs →
      Query.read catalog totals ((Comparator.forValue negated).clause word raw) = .ok q →
      (∃ p g step step', q.predicates = [p] ∧ catalog.get? p.field = some g ∧
        RowFilter.compile catalog qs = .ok ⟨[step]⟩ ∧
        RowFilter.compile catalog q = .ok ⟨[step']⟩ ∧
        step.column = g.column ∧ step.SameUnless (p.ComparesUndefined g) step' ∧
        (negated = false → ∀ row, step.expr.holds row = step'.expr.holds row)) ∧
      ∀ b : Backend, InterchangeableOutcome (b.compile qs) (b.compile q) := by
  have hclosed : catalog.Closed := by
    rcases hcatalog with ⟨columns, hcolumnar⟩ | ⟨schema, hrelational⟩
    · exact hcolumnar ▸ Catalog.closed_columnar columns
    · exact hrelational ▸ Catalog.closed_relational schema
  obtain ⟨s, ps, p, hps, hp, hone, hnegated⟩ :=
    Query.exists_readPredicate_of_bare hkind hraw totals word negated
  obtain ⟨hallowed, hallowed'⟩ := Field.allows_of_isTextual hkind negated
  have hne : Comparator.forList negated ≠ .notLike := by cases negated <;> decide
  have hne' : Comparator.forValue negated ≠ .notLike := by cases negated <;> decide
  have hlist (q : Query) := @Query.read_clause_iff _ _ _ _ _ _ _ q hne hword hraw.isWord hf hallowed
    hps
  have hvalue (q : Query) := @Query.read_clause_iff _ _ _ _ _ _ _ q hne' hword hraw.isWord hf
    hallowed' hp
  refine ⟨?_, fun qs q hqs hq ↦ ?_⟩
  · simp only [hlist, hvalue, exists_and_left, exists_eq]
  · obtain rfl := ((hlist qs).mp hqs).2
    obtain rfl := ((hvalue q).mp hq).2
    refine ⟨?_, fun b ↦ Backend.compile_of_forOne hone none⟩
    have hadmits := Query.admits_of_readPredicate (Catalog.get?_of_lookup? hf) hallowed' hp
    obtain ⟨g, hg⟩ := Catalog.exists_get?_of_contains (hadmits.contains_field hclosed)
    obtain ⟨step, step', hstep, hstep', hcolumn, hsame, hholds⟩ :=
      RowFilter.exists_compileStep_of_forOne hone hg
    refine ⟨p, g, step, step', rfl, hg, ?_, ?_, hcolumn, hsame, fun hpositive ↦ ?_⟩
    · exact RowFilter.compile_singleton hstep none
    · exact RowFilter.compile_singleton hstep' none
    · exact hholds (hone.negated_eq ▸ hnegated.trans hpositive)

/-- What `clitic in 'kin'` is read as. -/
def cliticList : Query := ⟨[⟨"clitic", .isIn, .texts ["Kin"], false⟩], none⟩

/-- A clitic is asked for in a list and by itself. -/
theorem list_of_one_clitic : ∃ q st st',
    Query.read (.relational fullSchema) {} "clitic in 'kin'" = .ok cliticList ∧
    Query.read (.relational fullSchema) {} "clitic = 'kin'" = .ok q ∧
    fullBackend.compile cliticList = .ok st ∧ fullBackend.compile q = .ok st' ∧
    st.Interchangeable st' := by
  have hread : Query.read (.relational fullSchema) {} "clitic in 'kin'" = .ok cliticList := by
    decide +kernel
  have hfield : (Catalog.relational fullSchema).lookup? "clitic"
      = some (Catalog.featureField fullSchema "clitic") := by decide +kernel
  have hword : Text.IsWord "clitic" := ⟨by decide, by simp [isWordGap]⟩
  have hbare : Query.IsBare "'kin'" :=
    ⟨by decide, by simp [Text.isBlank], by decide, by decide, by decide⟩
  obtain ⟨haccepted, hsame⟩ := list_of_one_value (.inr ⟨fullSchema, rfl⟩) {} hword hfield
    (.feature .anyOf) hbare false
  obtain ⟨q, hq⟩ := haccepted.mp ⟨cliticList, hread⟩
  obtain ⟨-, hstatements⟩ := hsame cliticList q hread hq
  have houtcome := hstatements fullBackend
  have hok : (fullBackend.compile cliticList).isOk = true := by decide +kernel
  obtain ⟨st, hst⟩ := exists_of_isOk hok
  rw [hst] at houtcome
  generalize hst' : fullBackend.compile q = outcome at houtcome
  cases houtcome with
  | @ok _ st' h => exact ⟨q, st, st', hread, hq, hst, hst', h⟩

/-- **An undefined number.** A form that is a number is not in a list with an undefined number, but
it is not known to be different from it. -/
theorem undefined_number_listed : ∃ qs q step step',
    Query.read (.columnar ["form", "frequency"]) {} "form notin nan" = .ok qs ∧
    Query.read (.columnar ["form", "frequency"]) {} "form != nan" = .ok q ∧
    RowFilter.compile (.columnar ["form", "frequency"]) qs = .ok ⟨[step]⟩ ∧
    RowFilter.compile (.columnar ["form", "frequency"]) q = .ok ⟨[step']⟩ ∧
    step.expr.truth (.ofCells ["form", "frequency"] [.int 12, .int 5]) = .ok (some true) ∧
    step'.expr.truth (.ofCells ["form", "frequency"] [.int 12, .int 5]) = .ok none := by
  refine ⟨_, _, _, _, rfl, rfl, rfl, rfl, ?_, ?_⟩
  · decide
  · decide

end CorpusQuery

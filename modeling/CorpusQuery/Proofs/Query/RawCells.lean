import CorpusQuery.Proofs.Export.ColumnKinds
import CorpusQuery.Proofs.Lists
import CorpusQuery.Proofs.Query.FlatScan
import CorpusQuery.Proofs.Sql.StoredCell

/-!
# What textual predicates find in the cells of an export

A predicate on a textual field asks about texts, and an export is a file of texts. In between stand
the kinds of the columns: a cell of a numeric column is read as a number, and what a test sees is
the text of that number, or the number itself. So a test finds what is written in a cell if reading
keeps its text. It does in every column that is textual, and for every cell that is no number. A
number that is written as it is displayed is kept as well, except that equality compares numbers
there.

A number that is written otherwise is not kept. Tests on the end of a form then miss forms that have
this end.

## Main statements

* `passes_iff_raw_text`: which rows pass a query of textual predicates.
* `ending_form_missed`: a form that a test on its own ending misses.
-/

namespace CorpusQuery

/-! ## Textual predicates -/

namespace Operator

/-- The operators that ask about texts as they are. -/
def IsTextual : Operator → Prop
  | .equal | .isIn | .startsWith | .middle | .endsWith => True
  | _ => False

/-- What a textual operator asks of a text: to be one of the listed ones, or to have one of them in
the right place. -/
def Accepts (op : Operator) (texts : List String) (s : String) : Prop :=
  match op with
  | .equal | .isIn => s ∈ texts
  | .startsWith => ∃ t ∈ texts, t.toList <+: s.toList
  | .endsWith => ∃ t ∈ texts, t.toList <:+ s.toList
  | .middle => ∃ t ∈ texts,
      (t.toList <:+: s.toList ∧ ¬t.toList <+: s.toList) ∧ ¬t.toList <:+ s.toList
  | _ => False

end Operator

/-- A predicate that asks about the text of a field, one value in a cell, and is not negated. -/
structure Predicate.AsksText (c : Catalog) (p : Predicate) : Prop where
  positive : p.negated = false
  operator : p.operator.IsTextual
  field : ∃ f, c.get? p.field = some f ∧ (f.kind = .text ∨ f.kind = .feature .exact)

/-- The operands that textual predicates have: texts, and one text where equality is asked for. -/
structure Predicate.TextOperand (p : Predicate) : Prop where
  values : p.operand.values = p.operand.asTexts.map .text
  single : p.operator = .equal → ∃ s, p.operand.asTexts = [s]

theorem Operand.Textual.values_eq {c : Comparator} {o : Operand} (h : o.Textual c) :
    o.values = o.asTexts.map .text := by
  cases h with
  | one | many => rfl

theorem Operand.Textual.textOperand {c : Comparator} {o : Operand} (h : o.Textual c)
    (field : String) (negated : Bool) :
    Predicate.TextOperand ⟨field, c.operator, o, negated⟩ := by
  refine ⟨h.values_eq, ?_⟩
  intro hequal
  cases h with
  | one hc s => exact ⟨s, rfl⟩
  | many hc s ss =>
    have hlist : ∀ c : Comparator, c.operator = .equal → c.isSet = false := by
      intro c
      cases c <;> decide
    exact absurd ((hlist c hequal).symm.trans hc) Bool.false_ne_true

/-- **Operands.** An admitted predicate on a field of a flat table that is not numeric asks about
texts. -/
theorem Catalog.Admits.textOperand {columns : List String} {p : Predicate} {f : Field}
    (h : (columnar columns).Admits p) (hoperator : p.operator.IsTextual)
    (hf : (columnar columns).get? p.field = some f) (hnumeric : f.kind ≠ .numeric) :
    p.TextOperand := by
  cases h with
  | compound => exact absurd hoperator id
  | number x hg hnumber =>
    obtain rfl := Option.some.inj (hg.symm.trans hf)
    exact absurd hnumber hnumeric
  | relative x hg hnumber hrel =>
    exact absurd (kind_of_relative_columnar (mem_of_get? hg) hrel hf) hnumeric
  | @position g place op o hg hplace hop ho =>
    refine ⟨ho.values_eq, fun hequal ↦ ?_⟩
    cases place <;> cases hequal
  | text hg hk hop ho => exact ho.textOperand _ _
  | plainLemma hl hop hallowed ho => exact ho.textOperand _ _

/-! ## Tests on values -/

namespace Value

theorem holds_testTruth (v : Value) (kind : TextTest) (t : String) :
    (v.testTruth kind t).holds = true
      ↔ ∃ s, v.asText? = some s ∧ (Value.text s).testTruth kind t = some true := by
  rw [testTruth, Truth.holds, beq_iff_eq, Option.map_eq_some_iff]
  simp [testTruth, asText?]

theorem holds_memberTruth_singleton (v w : Value) :
    (v.memberTruth [w]).holds = (v.comparisonTruth .equal w).holds := by
  rw [memberTruth]
  by_cases hnull : v.isNull = true
  · rw [if_pos hnull, comparisonTruth, hnull, Bool.true_or, if_pos rfl]
  · rw [if_neg hnull, List.any_cons, List.any_nil, Bool.or_false]
    rcases v.comparisonTruth .equal w with _ | _ | _ <;> rfl

theorem holds_memberTruth_text (s : String) (ts : List String) :
    ((Value.text s).memberTruth (ts.map .text)).holds = true ↔ s ∈ ts := by
  rw [memberTruth_text, Truth.holds, beq_iff_eq, Option.some_inj, List.any_eq_true]
  constructor
  · rintro ⟨t, ht, heq⟩
    obtain rfl := Std.compare_eq_iff_eq.mp (beq_iff_eq.mp heq)
    exact ht
  · intro hs
    exact ⟨s, hs, beq_iff_eq.mpr (Std.compare_eq_iff_eq.mpr rfl)⟩

/-- To look for each part in the text of a value is to look in its text for some part. -/
theorem exists_part_iff {P : String → String → Prop} (v : Value) (parts : List String) :
    (∃ part ∈ parts, ∃ s, v.asText? = some s ∧ P part s)
      ↔ ∃ s, v.asText? = some s ∧ ∃ part ∈ parts, P part s := by
  constructor
  · rintro ⟨part, hpart, s, hs, hfound⟩
    exact ⟨s, hs, part, hpart, hfound⟩
  · rintro ⟨s, hs, part, hpart, hfound⟩
    exact ⟨part, hpart, s, hs, hfound⟩

end Value

namespace RowFilter

variable {row : Row} {f : Field} {p : Predicate} {v : Value} {e : RowExpr}

/-- The value keeps its text where values are compared as such. -/
def ComparesText (op : Operator) (v : Value) : Prop :=
  op.isPositional = true ∨ ∀ s, v.asText? = some s → v = .text s

theorem ComparesText.holds_memberTruth {op : Operator} (h : ComparesText op v)
    (hequal : op.isPositional = false) (texts : List String) :
    (v.memberTruth (texts.map .text)).holds = true ↔ ∃ s, v.asText? = some s ∧ s ∈ texts := by
  have hkept := h.resolve_left (by simp [hequal])
  cases hs : v.asText? with
  | none =>
    obtain rfl := Value.asText?_eq_none.mp hs
    simp [Value.memberTruth, Value.isNull, Truth.holds]
  | some s =>
    obtain rfl := hkept s hs
    rw [Value.holds_memberTruth_text]
    simp

theorem exists_truth_test (hv : (target f).eval row = .ok v) (kind : TextTest)
    (he : RowExpr.any? (p.operand.asTexts.map fun s ↦ .test (target f) kind s) = some e) :
    ∃ t, e.truth row = .ok t ∧ (t.holds = true ↔ ∃ s, v.asText? = some s ∧
      ∃ part ∈ p.operand.asTexts, (Value.text s).testTruth kind part = some true) := by
  obtain ⟨t, ht, hholds⟩ := RowExpr.exists_truth_any he fun s _ ↦ RowExpr.truth_test hv kind s
  refine ⟨t, ht, hholds.trans ?_⟩
  simp only [Value.holds_testTruth]
  exact v.exists_part_iff p.operand.asTexts

theorem truth_inMiddle (hv : (target f).eval row = .ok v) (part : String) :
    (inMiddle (target f) part).truth row
      = .ok (((v.testTruth .contains part).and (v.testTruth .startsWith part).not).and
          (v.testTruth .endsWith part).not) :=
  RowExpr.truth_and
    (RowExpr.truth_and (RowExpr.truth_test hv _ _) (RowExpr.truth_not (RowExpr.truth_test hv _ _)))
    (RowExpr.truth_not (RowExpr.truth_test hv _ _))

theorem holds_inMiddle (v : Value) (part : String) :
    (((v.testTruth .contains part).and (v.testTruth .startsWith part).not).and
        (v.testTruth .endsWith part).not).holds = true
      ↔ ∃ s, v.asText? = some s ∧
        (part.toList <:+: s.toList ∧ ¬part.toList <+: s.toList) ∧ ¬part.toList <:+ s.toList := by
  rw [Truth.holds_and, Truth.holds_and]
  simp only [Value.testTruth]
  cases v.asText? with
  | none => simp [Truth.holds]
  | some s =>
    simp [Truth.holds, Truth.not, Text.startsWith, Text.endsWith, Text.contains, Text.isInfix_iff,
      ← List.isPrefixOf_iff_prefix, ← List.isSuffixOf_iff_suffix]

/-- **One test.** A textual predicate is true of a value if its text is accepted, as long as the
value is compared as a text. A missing value is accepted by none. -/
theorem exists_truth_positiveExpr (hoperand : p.TextOperand) (hop : p.operator.IsTextual)
    (hkind : f.kind ≠ .feature .anyOf) (hv : (target f).eval row = .ok v)
    (htext : ComparesText p.operator v) (he : positiveExpr f p = .ok e) :
    ∃ t, e.truth row = .ok t ∧ (t.holds = true ↔
      ∃ s, v.asText? = some s ∧ p.operator.Accepts p.operand.asTexts s) := by
  have hmember (hequal : p.operator.isPositional = false) :=
    htext.holds_memberTruth hequal p.operand.asTexts
  rw [positiveExpr.eq_def] at he
  cases hoperator : p.operator with
  | startsWith =>
    rw [hoperator] at he
    obtain ⟨t, ht, hholds⟩ := exists_truth_test hv .startsWith (anyText_eq_ok_iff.mp he)
    refine ⟨t, ht, hholds.trans ?_⟩
    simp [Value.testTruth, Value.asText?, Operator.Accepts, Text.startsWith,
      ← List.isPrefixOf_iff_prefix]
  | endsWith =>
    rw [hoperator] at he
    obtain ⟨t, ht, hholds⟩ := exists_truth_test hv .endsWith (anyText_eq_ok_iff.mp he)
    refine ⟨t, ht, hholds.trans ?_⟩
    simp [Value.testTruth, Value.asText?, Operator.Accepts, Text.endsWith,
      ← List.isSuffixOf_iff_suffix]
  | middle =>
    rw [hoperator] at he
    obtain ⟨t, ht, hholds⟩ := RowExpr.exists_truth_any (anyText_eq_ok_iff.mp he) fun s _ ↦
      truth_inMiddle hv s
    refine ⟨t, ht, hholds.trans ?_⟩
    simp only [holds_inMiddle, Operator.Accepts]
    exact v.exists_part_iff p.operand.asTexts
  | isIn =>
    rw [hoperator] at he
    dsimp only at he
    rw [if_neg hkind, hoperand.values] at he
    obtain rfl := Except.ok.inj he
    exact ⟨_, RowExpr.truth_isIn hv _, hmember (by rw [hoperator]; rfl)⟩
  | equal =>
    rw [hoperator] at he
    dsimp only at he
    obtain ⟨s, hs⟩ := hoperand.single hoperator
    rw [if_neg hkind, comparedWith, hoperator, hoperand.values, hs] at he
    obtain rfl := Except.ok.inj he
    refine ⟨_, RowExpr.truth_compare hv _ rfl, ?_⟩
    have hone := hmember (by rw [hoperator]; rfl)
    rw [hs, List.map_singleton, v.holds_memberTruth_singleton, ← hs] at hone
    exact hone
  | less | greater | atMost | atLeast | like =>
    rw [hoperator] at hop
    exact absurd hop id

end RowFilter

/-! ## Cells as they are written and as they are read -/

/-- A text as a field sees it. -/
def Field.plain (f : Field) (s : String) : String :=
  match f.strip with
  | some c => Text.without s c
  | none => s

namespace Export

variable {e : Export} {cells : List String}

/-- What is written in a column of a record. -/
def rawCell (e : Export) (cells : List String) (column : String) : String :=
  match e.column? column with
  | some c => cells[c.ordinal]?.getD ""
  | none => ""

/-- What a column of a record is read as. -/
def readCell (e : Export) (cells : List String) (column : String) : Value :=
  match e.column? column with
  | some c => c.kind.readCell (e.rawCell cells column)
  | none => .null

theorem ofCells_typedRow {column : String} (h : column ∈ e.columnNamesOf) (cells : List String) :
    Row.ofCells e.columnNamesOf (e.typedRow cells) column = some (e.readCell cells column) := by
  obtain ⟨c, hc⟩ : ∃ c, e.column? column = some c := by
    obtain ⟨c, hmem, rfl⟩ := List.mem_map.mp h
    exact Option.isSome_iff_exists.mp (List.find?_isSome.mpr ⟨c, hmem, beq_self_eq_true _⟩)
  have hrow : Row.ofCells e.columnNamesOf (e.typedRow cells) column
      = (e.column? column).map fun c ↦ c.kind.readCell (cells[c.ordinal]?.getD "") :=
    idxOf?_map_bind _ _ column e.columns
  rw [hrow, readCell, rawCell, hc]
  rfl

/-- Reading keeps what is written in a cell for a field: what the tests see is its text, and where
they compare values it is a text. Nothing is written in an empty cell. -/
def Keeps (e : Export) (cells : List String) (f : Field) (op : Operator) : Prop :=
  e.rawCell cells f.column = "" ∨
    (e.readCell cells f.column).asText? = some (e.rawCell cells f.column) ∧
      (op.isPositional = true ∨ f.strip.isSome = true ∨
        e.readCell cells f.column = .text (e.rawCell cells f.column))

/-- What is written for a predicate meets it: something is written in the cell of its field and,
without the character that the field leaves out, it has one of the asked texts in the asked
place. -/
def Meets (e : Export) (cells : List String) (p : Predicate) : Prop :=
  ∃ f, (Catalog.columnar e.columnNamesOf).get? p.field = some f ∧
    e.rawCell cells f.column ≠ "" ∧
    p.operator.Accepts p.operand.asTexts (f.plain (e.rawCell cells f.column))

/-- What is written in a cell is kept if the column is textual or the cell is no number. -/
theorem keeps_of_text {c : ExportColumn} {f : Field} {op : Operator}
    (hc : e.column? f.column = some c)
    (h : c.kind = .text ∨ Kind.ofCell (e.rawCell cells f.column) = .text) :
    e.Keeps cells f op := by
  by_cases hempty : e.rawCell cells f.column = ""
  · exact .inl hempty
  have hread : e.readCell cells f.column = .text (e.rawCell cells f.column) := by
    rw [readCell, hc]
    rcases h with hkind | htext
    · have hnonempty : (e.rawCell cells f.column).isEmpty = false := by
        simpa [String.isEmpty_iff] using hempty
      dsimp only
      rw [hkind, Kind.readCell, hnonempty, if_neg Bool.false_ne_true]
      rfl
    · exact c.kind.readCell_of_ofCell_text htext
  refine .inr ⟨?_, .inr (.inr hread)⟩
  rw [hread]
  rfl

theorem readCell_eq_null (h : e.rawCell cells column = "") : e.readCell cells column = .null := by
  rw [readCell]
  split
  · rw [h]
    rfl
  · rfl

end Export

namespace RowFilter

variable {e : Export} {cells : List String} {f : Field} {op : Operator}

/-- **Reading a field.** On a row of an export a field has a value, and where reading keeps what is
written the value has the written text, unless nothing is written. -/
theorem exists_eval_target (hcolumn : f.column ∈ e.columnNamesOf) (h : e.Keeps cells f op) :
    ∃ v, (target f).eval (.ofCells e.columnNamesOf (e.typedRow cells)) = .ok v ∧
      ComparesText op v ∧ ∀ s, v.asText? = some s
        ↔ e.rawCell cells f.column ≠ "" ∧ s = f.plain (e.rawCell cells f.column) := by
  have hread : (RowExpr.column f.column).eval (.ofCells e.columnNamesOf (e.typedRow cells))
      = .ok (e.readCell cells f.column) := by
    rw [RowExpr.eval, Export.ofCells_typedRow hcolumn]
  by_cases hempty : e.rawCell cells f.column = ""
  · -- An empty cell is a missing value, also without a character.
    rw [Export.readCell_eq_null hempty] at hread
    have htarget : (target f).eval (.ofCells e.columnNamesOf (e.typedRow cells)) = .ok .null := by
      rw [target.eq_def]
      cases f.strip with
      | none => exact hread
      | some c => exact RowExpr.eval_strip hread c
    refine ⟨.null, htarget, .inr fun s hs ↦ ?_, fun s ↦ ?_⟩
    · cases hs
    · simp [Value.asText?, hempty]
  · obtain ⟨htext, hplace⟩ := h.resolve_left hempty
    cases hstrip : f.strip with
    | none =>
      rw [hstrip] at hplace
      refine ⟨e.readCell cells f.column, ?_, ?_, fun s ↦ ?_⟩
      · rw [target.eq_def, hstrip]
        exact hread
      · refine hplace.imp_right fun hsame s hs ↦ ?_
        have hraw := hsame.resolve_left (by simp)
        rw [hraw] at hs ⊢
        exact congrArg _ (Option.some.inj hs)
      · rw [htext, Field.plain, hstrip, Option.some_inj, and_iff_right hempty, eq_comm]
    | some c =>
      have hwithout : (e.readCell cells f.column).without c
          = .text (Text.without (e.rawCell cells f.column) c) := by
        rw [Value.without, htext]
      refine ⟨.text (Text.without (e.rawCell cells f.column) c), ?_, ?_, fun s ↦ ?_⟩
      · rw [target.eq_def, hstrip]
        exact (RowExpr.eval_strip hread c).trans (congrArg _ hwithout)
      · exact .inr fun s hs ↦ congrArg _ (Option.some.inj hs)
      · rw [Field.plain, hstrip, Value.asText?, Option.some_inj, and_iff_right hempty, eq_comm]

/-- **One predicate.** The step for a textual predicate is true of a row if what is written for the
predicate meets it. -/
theorem exists_truth_compileStep {p : Predicate} {step : FilterStep}
    (hadmits : (Catalog.columnar e.columnNamesOf).Admits p)
    (hasks : p.AsksText (.columnar e.columnNamesOf))
    (hkeeps : ∀ f, (Catalog.columnar e.columnNamesOf).get? p.field = some f →
      e.Keeps cells f p.operator)
    (hstep : compileStep (.columnar e.columnNamesOf) p = .ok step) :
    ∃ t, step.expr.truth (.ofCells e.columnNamesOf (e.typedRow cells)) = .ok t ∧
      (t.holds = true ↔ e.Meets cells p) := by
  obtain ⟨f, hf, hkind⟩ := hasks.field
  have hcolumn := Catalog.column_mem_of_mem_columnar f (Catalog.mem_of_get? hf)
  have hsingle : f.kind ≠ .feature .anyOf := by
    rcases hkind with hkind | hkind <;> rw [hkind] <;> decide
  have hnumeric : f.kind ≠ .numeric := by
    rcases hkind with hkind | hkind <;> rw [hkind] <;> decide
  obtain ⟨v, hv, htext, hwritten⟩ := exists_eval_target hcolumn (hkeeps f hf)
  obtain ⟨e', he'⟩ := exists_positiveExpr_eq_ok hadmits.asTexts_ne_nil f
  rw [compileStep_of_get? hf he', hasks.positive, if_neg Bool.false_ne_true] at hstep
  obtain rfl := Except.ok.inj hstep
  have hoperand := hadmits.textOperand hasks.operator hf hnumeric
  obtain ⟨t, ht, hholds⟩ := exists_truth_positiveExpr hoperand hasks.operator hsingle hv htext he'
  refine ⟨t, ht, hholds.trans ?_⟩
  simp only [hwritten, and_assoc]
  constructor
  · rintro ⟨s, hnonempty, rfl, haccepts⟩
    exact ⟨f, hf, hnonempty, haccepts⟩
  · rintro ⟨g, hg, hnonempty, haccepts⟩
    obtain rfl := Option.some.inj (hf.symm.trans hg)
    exact ⟨_, hnonempty, rfl, haccepts⟩

end RowFilter

/-- **What is written.** An accepted query of textual predicates has a filter, and a row passes it
if what is written in the record meets all predicates, as long as reading the cells that they ask
about keeps what is written there. -/
theorem passes_iff_raw_text {e : Export} {totals : Totals} {input : String} {q : Query}
    (hread : Query.read (.columnar e.columnNamesOf) totals input = .ok q)
    (hasks : ∀ p ∈ q.predicates, p.AsksText (.columnar e.columnNamesOf))
    (hnonempty : q.predicates ≠ []) :
    ∃ filter, RowFilter.compile (.columnar e.columnNamesOf) q = .ok filter ∧
      ∀ cells : List String, (∀ p ∈ q.predicates, ∀ f,
          (Catalog.columnar e.columnNamesOf).get? p.field = some f →
            e.Keeps cells f p.operator) →
        (filter.passes e.columnNamesOf (e.typedRow cells) = true ↔
          ∀ p ∈ q.predicates, e.Meets cells p) := by
  have hadmits (p : Predicate) (hp : p ∈ q.predicates) := Query.admits_of_mem_read hread hp
  obtain ⟨steps, hsteps⟩ := exists_mapM_eq_ok fun p hp ↦
    RowFilter.exists_compileStep_eq_ok (Catalog.closed_columnar e.columnNamesOf) (hadmits p hp)
  have hcompile : RowFilter.compile (.columnar e.columnNamesOf) q = .ok ⟨steps⟩ := by
    rw [RowFilter.compile, Query.isEmpty, List.isEmpty_eq_false_iff.mpr hnonempty,
      if_neg Bool.false_ne_true, RowFilter.compileSteps, hsteps]
    rfl
  refine ⟨⟨steps⟩, hcompile, fun cells hkeeps ↦ ?_⟩
  obtain ⟨kept, hkept, hall⟩ := RowFilter.exists_allHold_of_mapM hsteps fun p hp step hstep ↦
    RowFilter.exists_truth_compileStep (hadmits p hp) (hasks p hp) (hkeeps p hp) hstep
  rw [RowFilter.passes, RowFilter.holds, hkept]
  exact hall

/-! ## Forms that are numbers -/

/-- The export that a file with these lines is opened as. -/
def formsExport (kind : Kind) (content : String) : Export where
  path := "export.csv"
  format := {}
  records := RawRecord.ofBytes 44 content.toUTF8.data.toList
  columns := [⟨"form", kind, 0⟩]

/-- What `end = 007` is read as. -/
def endingPredicate : Predicate := ⟨"form", .endsWith, .text "007", false⟩

theorem read_ending :
    Query.read (.columnar ["form"]) {} "end = 007" = .ok { predicates := [endingPredicate] } := rfl

theorem get?_form :
    (Catalog.columnar ["form"]).get? "form" = some (Catalog.flatField .text "form") := rfl

theorem asksText_ending : endingPredicate.AsksText (.columnar ["form"]) :=
  ⟨rfl, trivial, _, get?_form, .inl rfl⟩

theorem meets_ending (kind : Kind) (content : String) :
    (formsExport kind content).Meets ["007"] endingPredicate := by
  have hraw : (formsExport kind content).rawCell ["007"] "form" = "007" := rfl
  refine ⟨_, get?_form, ?_, "007", List.mem_singleton_self _, ?_⟩
  · rw [Catalog.flatField, hraw]
    decide
  · exact List.suffix_refl _

/-- Where one form is no number, all forms are read as they are written. -/
theorem ending_form_found :
    Export.open? "export.csv" {} (some "form\n007\non\n".toUTF8.data.toList)
        = .ok (formsExport .text "form\n007\non\n") ∧
      ∃ q filter, Query.read (.columnar ["form"]) {} "end = 007" = .ok q ∧
        RowFilter.compile (.columnar ["form"]) q = .ok filter ∧
        filter.passes ["form"] [.text "007"] = true := by
  refine ⟨rfl, ?_⟩
  let e := formsExport .text "form\n007\non\n"
  obtain ⟨filter, hcompile, hpasses⟩ := @passes_iff_raw_text e {} _ _ read_ending
    (fun p hp ↦ List.mem_singleton.mp hp ▸ asksText_ending) (List.cons_ne_nil _ _)
  refine ⟨_, filter, read_ending, hcompile, (hpasses ["007"] fun p hp f hf ↦ ?_).mpr fun p hp ↦ ?_⟩
  · obtain rfl := List.mem_singleton.mp hp
    obtain rfl := Option.some.inj (get?_form.symm.trans hf)
    exact Export.keeps_of_text rfl (.inl rfl)
  · obtain rfl := List.mem_singleton.mp hp
    exact meets_ending .text "form\n007\non\n"

/-- **A form missed.** Where all forms are numbers, a test on the whole of a form misses it if it is
written with a leading zero. -/
theorem ending_form_missed :
    Export.open? "export.csv" {} (some "form\n007\n12\n".toUTF8.data.toList)
        = .ok (formsExport .int "form\n007\n12\n") ∧
      (formsExport .int "form\n007\n12\n").dataCells = [["007"], ["12"]] ∧
      ∃ q filter, Query.read (.columnar ["form"]) {} "end = 007" = .ok q ∧
        RowFilter.compile (.columnar ["form"]) q = .ok filter ∧
        (∀ p ∈ q.predicates, p.AsksText (.columnar ["form"]) ∧
          (formsExport .int "form\n007\n12\n").Meets ["007"] p) ∧
        filter.passes ["form"] ((formsExport .int "form\n007\n12\n").typedRow ["007"])
          = false := by
  refine ⟨rfl, by decide, { predicates := [endingPredicate] }, _, rfl, rfl, ?_, ?_⟩
  · intro p hp
    obtain rfl := List.mem_singleton.mp hp
    exact ⟨asksText_ending, meets_ending .int "form\n007\n12\n"⟩
  · decide

end CorpusQuery

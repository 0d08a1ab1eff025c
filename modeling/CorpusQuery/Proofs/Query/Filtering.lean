import CorpusQuery.FlatCorpus
import CorpusQuery.Proofs.Catalog.Closure
import CorpusQuery.Proofs.Query.Compiling
import CorpusQuery.Proofs.RowExpr.Sorts
import CorpusQuery.Proofs.Statement.Plans

/-!
# Filters do not fail

Once a query has a filter, nothing is left to go wrong but the reading of the data. Two invariants
carry this. What a predicate is compiled to is a condition, with the backing column of its field and
literals as the only values in it; and the backing columns of a flat table are columns of the table,
including those of features that go by another name, of the plain lemma and of relative counts. So
every row that has a cell for each column decides every filter, and it does not matter what the
cells hold or whether the query was read or built otherwise.

A table can therefore always be filtered, and a scan of an export stops at nothing but a faulty
record, or at a column to sort by that the export does not have.
-/

namespace CorpusQuery

/-! ## Conditions on one column -/

namespace RowExpr

/-- A condition that names no column but one. -/
structure ConditionOn (column : String) (e : RowExpr) : Prop where
  condition : e.Condition
  names : ∀ c, e.Names c → c = column

variable {column : String} {l r e : RowExpr}

theorem ConditionOn.and (hl : ConditionOn column l) (hr : ConditionOn column r) :
    ConditionOn column (.and l r) :=
  ⟨.and hl.condition hr.condition, fun c hc ↦ hc.elim (hl.names c) (hr.names c)⟩

theorem ConditionOn.or (hl : ConditionOn column l) (hr : ConditionOn column r) :
    ConditionOn column (.or l r) :=
  ⟨.or hl.condition hr.condition, fun c hc ↦ hc.elim (hl.names c) (hr.names c)⟩

theorem ConditionOn.not (h : ConditionOn column e) : ConditionOn column (.not e) :=
  ⟨.not h.condition, h.names⟩

theorem ConditionOn.any {α : Type} {test : α → RowExpr} {xs : List α}
    (h : any? (xs.map test) = some e) (htest : ∀ x, ConditionOn column (test x)) :
    ConditionOn column e :=
  any?_induction (fun _ _ ↦ .or) (List.forall_mem_map.mpr fun x _ ↦ htest x) h

end RowExpr

/-! ## Rows that have all columns -/

/-- A row has a value in every column of a table. -/
def Row.Covers (row : Row) (columns : List String) : Prop :=
  ∀ c ∈ columns, ∃ v, row c = some v

/-- A list of cells that is long enough covers the columns, whatever columns have the same name. -/
theorem Row.covers_ofCells {columns : List String} {cells : List Value}
    (h : columns.length ≤ cells.length) : (Row.ofCells columns cells).Covers columns := by
  intro c hc
  obtain ⟨i, hi⟩ := Option.isSome_iff_exists.mp (List.isSome_idxOf?.mpr hc)
  have hlt : i < columns.length := (List.findIdx?_eq_some_iff_findIdx_eq.mp hi).1
  refine ⟨cells[i], ?_⟩
  rw [Row.ofCells, hi]
  exact List.getElem?_eq_getElem (Nat.lt_of_lt_of_le hlt h)

/-- Every record gives a cell for each column, even if it has too few itself. -/
theorem Export.length_typedRow (e : Export) (cells : List String) :
    (e.typedRow cells).length = e.columnNamesOf.length := by
  rw [typedRow, columnNamesOf, List.length_map, List.length_map]

theorem Export.covers_typedRow (e : Export) (cells : List String) :
    (Row.ofCells e.columnNamesOf (e.typedRow cells)).Covers e.columnNamesOf :=
  Row.covers_ofCells (Nat.le_of_eq (e.length_typedRow cells).symm)

/-! ## Filters -/

namespace RowFilter

open RowExpr (Condition ConditionOn Subject)

theorem subject_target (f : Field) : Subject (target f) := by
  rw [target.eq_def]
  cases f.strip with
  | none => exact .column f.column
  | some c => exact .strip (.column f.column) c

theorem eq_of_names_target {f : Field} {c : String} (h : (target f).Names c) : c = f.column := by
  rw [target.eq_def] at h
  cases hstrip : f.strip with
  | none =>
    rw [hstrip] at h
    exact h
  | some d =>
    rw [hstrip] at h
    exact h

theorem conditionOn_test (f : Field) (kind : TextTest) (s : String) :
    ConditionOn f.column (.test (target f) kind s) :=
  ⟨.test (subject_target f) kind s, fun _ hc ↦ eq_of_names_target hc⟩

theorem conditionOn_isIn (f : Field) (values : List Value) :
    ConditionOn f.column (.isIn (target f) values) :=
  ⟨.isIn (subject_target f) values, fun _ hc ↦ eq_of_names_target hc⟩

theorem conditionOn_compare (f : Field) (op : Comparison) (v : Value) :
    ConditionOn f.column (.compare (target f) op (.literal v)) :=
  ⟨.compare (subject_target f) op (.literal v),
    fun _ hc ↦ hc.elim eq_of_names_target False.elim⟩

theorem conditionOn_inMiddle (f : Field) (s : String) :
    ConditionOn f.column (inMiddle (target f) s) :=
  ((conditionOn_test f .contains s).and (conditionOn_test f .startsWith s).not).and
    (conditionOn_test f .endsWith s).not

/-- **One predicate.** Whatever a predicate asks for, it is compiled to a condition on the backing
column. -/
theorem conditionOn_of_positiveExpr {f : Field} {p : Predicate} {e : RowExpr}
    (h : positiveExpr f p = .ok e) : ConditionOn f.column e := by
  have hexpressed := expressed_positiveExpr f p
  rw [h] at hexpressed
  cases hexpressed with
  | any kind he => exact ConditionOn.any he (conditionOn_test f kind)
  | middle he => exact ConditionOn.any he (conditionOn_inMiddle f)
  | like s => exact conditionOn_test f .like s
  | isIn => exact conditionOn_isIn f _
  | compare op => exact conditionOn_compare f op _

theorem conditionOn_of_compileStep {catalog : Catalog} {p : Predicate} {step : FilterStep}
    (h : compileStep catalog p = .ok step) :
    ∃ f ∈ catalog.fields, ConditionOn f.column step.expr := by
  rw [compileStep] at h
  split at h
  · cases h
  · next f hf =>
    obtain ⟨e, he, h⟩ := exists_of_bind_eq_ok h
    obtain rfl := Except.ok.inj h
    have hcondition := conditionOn_of_positiveExpr he
    refine ⟨f, Catalog.mem_of_get? hf, ?_⟩
    dsimp only
    split
    · exact hcondition.not
    · exact hcondition

/-- All steps of the filter are conditions on columns of a table. -/
def ConditionsOn (columns : List String) (f : RowFilter) : Prop :=
  ∀ e ∈ f.steps.map (·.expr), ∃ column ∈ columns, ConditionOn column e

theorem mapM_of_compileSteps {catalog : Catalog} {q : Query} {f : RowFilter}
    (h : compileSteps catalog q = .ok f) :
    q.predicates.mapM (compileStep catalog) = .ok f.steps := by
  rw [compileSteps] at h
  cases hsteps : q.predicates.mapM (compileStep catalog) with
  | error err =>
    rw [hsteps] at h
    cases h
  | ok steps =>
    rw [hsteps] at h
    obtain rfl := Except.ok.inj h
    rfl

/-- **Whole filters.** Over a flat table all steps of a filter are conditions on columns of the
table. -/
theorem conditionsOn_of_compileSteps {columns : List String} {q : Query} {f : RowFilter}
    (h : compileSteps (.columnar columns) q = .ok f) : ConditionsOn columns f := by
  intro e he
  obtain ⟨step, hstep, rfl⟩ := List.mem_map.mp he
  obtain ⟨p, -, hp⟩ := exists_of_mem_mapM (mapM_of_compileSteps h) hstep
  obtain ⟨field, hfield, hcondition⟩ := conditionOn_of_compileStep hp
  exact ⟨field.column, Catalog.column_mem_of_mem_columnar field hfield, hcondition⟩

variable {columns : List String} {f : RowFilter}

/-- **Rows.** A row that covers the columns decides the filter. -/
theorem ConditionsOn.exists_holds (hf : ConditionsOn columns f) {row : Row}
    (hrow : row.Covers columns) : ∃ kept, f.holds row = .ok kept := by
  apply RowExpr.exists_allHold
  · intro e he
    obtain ⟨column, -, hcondition⟩ := hf e he
    exact hcondition.condition
  · intro e he c hc
    obtain ⟨column, hcolumn, hcondition⟩ := hf e he
    rw [hcondition.names c hc]
    exact hrow column hcolumn

/-- **Tables.** A table whose rows are long enough can be filtered. -/
theorem ConditionsOn.exists_keepRows (hf : ConditionsOn columns f) {rows : List (List Value)}
    (hrows : ∀ cells ∈ rows, columns.length ≤ cells.length) :
    ∃ kept, f.keepRows columns rows = .ok kept := by
  induction rows with
  | nil => exact ⟨[], rfl⟩
  | cons cells rows ih =>
    obtain ⟨kept, hkept⟩ := hf.exists_holds (Row.covers_ofCells (hrows cells List.mem_cons_self))
    obtain ⟨rest, hrest⟩ := ih fun cells' h ↦ hrows cells' (List.mem_cons_of_mem cells h)
    refine ⟨if kept then cells :: rest else rest, ?_⟩
    rw [keepRows, hkept, hrest]
    rfl

/-- Whether a row passes a filter that decides it. -/
def passes (f : RowFilter) (columns : List String) (cells : List Value) : Bool :=
  (f.holds (.ofCells columns cells)).toOption.getD false

theorem eq_filter_of_keepRows {rows kept : List (List Value)}
    (h : f.keepRows columns rows = .ok kept) : kept = rows.filter (f.passes columns) := by
  induction rows generalizing kept with
  | nil =>
    obtain rfl := Except.ok.inj h
    rfl
  | cons cells rows ih =>
    obtain ⟨passed, hpassed, h⟩ := exists_of_bind_eq_ok h
    obtain ⟨rest, hrest, h⟩ := exists_of_bind_eq_ok h
    obtain rfl := Except.ok.inj h
    have hcells : f.passes columns cells = passed := by
      rw [passes, hpassed]
      rfl
    rw [List.filter_cons, hcells, ih hrest]

theorem ConditionsOn.exists_apply (hf : ConditionsOn columns f) (top : Option Nat) {t : Table}
    (hcolumns : t.columns = columns) (hrows : ∀ cells ∈ t.rows, columns.length ≤ cells.length) :
    ∃ t', TableFilter.apply ⟨f, top⟩ t = .ok t' := by
  obtain ⟨kept, hkept⟩ := hf.exists_keepRows hrows
  have happly : f.apply t = .ok { t with rows := kept } := by
    rw [apply, hcolumns, hkept]
    rfl
  rw [TableFilter.apply, happly]
  exact ⟨_, rfl⟩

/-! ## Scans -/

/-- **Scans.** A scan stops at nothing but a faulty record. -/
theorem ConditionsOn.scanRows_cases {e : Export} (hf : ConditionsOn e.columnNamesOf f)
    (records : List (Except RecordError (List String))) :
    (∃ rows, e.scanRows (f.steps.map (·.expr)) records = .ok rows) ∨
      ∃ fault, .error fault ∈ records ∧
        e.scanRows (f.steps.map (·.expr)) records = .error (.record fault) := by
  induction records with
  | nil => exact .inl ⟨[], rfl⟩
  | cons record records ih =>
    cases record with
    | error fault => exact .inr ⟨fault, List.mem_cons_self, rfl⟩
    | ok cells =>
      obtain ⟨kept, hkept⟩ := hf.exists_holds (e.covers_typedRow cells)
      rw [holds] at hkept
      rw [Export.scanRows, hkept]
      rcases ih with ⟨rows, hrows⟩ | ⟨fault, hfault, hrows⟩
      · rw [hrows]
        exact .inl ⟨_, rfl⟩
      · rw [hrows]
        exact .inr ⟨fault, List.mem_cons_of_mem _ hfault, rfl⟩

theorem ConditionsOn.unknownColumn?_eq {e : Export} (hf : ConditionsOn e.columnNamesOf f)
    {scan : Export.Scan} (hscan : scan.filters = f.steps.map (·.expr)) :
    e.unknownColumn? scan = (scan.sort.map (·.1)).filter (!e.columnNamesOf.contains ·) := by
  have hnone : (scan.filters.flatMap (·.columns)).find? (fun name ↦
      !e.columnNamesOf.contains name) = none := by
    rw [List.find?_eq_none]
    intro name hname
    obtain ⟨expr, hexpr, hname⟩ := List.mem_flatMap.mp hname
    obtain ⟨column, hcolumn, hcondition⟩ := hf expr (hscan ▸ hexpr)
    rw [hcondition.names name (RowExpr.mem_columns.mp hname), List.contains_iff_mem.mpr hcolumn]
    decide
  rw [Export.unknownColumn?, List.find?_append, hnone, Option.none_or]
  cases scan.sort.map (·.1) with
  | none => rfl
  | some column =>
    rw [Option.toList_some, List.find?_singleton, Option.filter_some]

end RowFilter

/-- **Filters do not fail.** A filter for a query over the columns of a flat table decides every row
that has these columns, filters every table of them, and stops a scan of an export with them at
nothing but a faulty record. The column that a scan sorts by is its own affair. -/
theorem filter_never_fails {columns : List String} {q : Query} {f : RowFilter}
    (h : RowFilter.compileSteps (.columnar columns) q = .ok f) :
    (∀ row : Row, row.Covers columns → ∃ kept, f.holds row = .ok kept) ∧
    (∀ cells : List Value, columns.length ≤ cells.length →
      ∃ kept, f.holds (.ofCells columns cells) = .ok kept) ∧
    (∀ (top : Option Nat) (t : Table), t.columns = columns →
      (∀ cells ∈ t.rows, columns.length ≤ cells.length) →
        ∃ t', TableFilter.apply ⟨f, top⟩ t = .ok t') ∧
    ∀ (e : Export) (scan : Export.Scan), e.columnNamesOf = columns →
      scan.filters = f.steps.map (·.expr) →
        (∃ t, e.collect scan = .ok t) ∨
        (∃ fault, .error fault ∈ Export.dataRecords e.format e.records ∧
          e.collect scan = .error (.record fault)) ∨
        ∃ column ascending, scan.sort = some (column, ascending) ∧ column ∉ columns ∧
          e.collect scan = .error (.columnNotFound column) := by
  have hf : RowFilter.ConditionsOn columns f := RowFilter.conditionsOn_of_compileSteps h
  refine ⟨fun row ↦ hf.exists_holds, fun cells hcells ↦ hf.exists_holds (Row.covers_ofCells hcells),
    fun top t ↦ hf.exists_apply top, ?_⟩
  rintro e scan rfl hscan
  have hunknown := hf.unknownColumn?_eq hscan
  rw [Export.collect, hunknown]
  cases hsort : (scan.sort.map (·.1)).filter (!e.columnNamesOf.contains ·) with
  | some column =>
    obtain ⟨hcolumn, hnone⟩ := Option.filter_eq_some_iff.mp hsort
    obtain ⟨⟨_, ascending⟩, hsome, rfl⟩ := Option.map_eq_some_iff.mp hcolumn
    exact .inr (.inr ⟨_, ascending, hsome, by simpa using hnone, rfl⟩)
  | none =>
    rcases hf.scanRows_cases (Export.dataRecords e.format e.records) with
      ⟨rows, hrows⟩ | ⟨fault, hfault, hrows⟩
    · rw [hscan, hrows]
      exact .inl ⟨_, rfl⟩
    · rw [hscan, hrows]
      exact .inr (.inl ⟨fault, hfault, rfl⟩)

/-- A table with cells of all kinds in its columns, and with one row that is too long. -/
def mixedTable : Table where
  columns := ["lemma", "form", "case", "clitic", "frequency"]
  rows := [[.text "ka#la", .text "kala", .text "Nom", .null, .int 7],
    [.null, .int 7, .real 2.5, .text "kin,kaan", .text "many", .null]]

/-- Tests of every sort on that table: the middle of a number, a plain lemma where there is none, a
case that is compared with a number, one of several clitics and a frequency that is no number. -/
def mixedQuery : Query where
  predicates := [⟨"form", .middle, .texts ["a", "l"], true⟩,
    ⟨"lemmac", .isIn, .texts ["kala", "#"], true⟩,
    ⟨"nouncase", .equal, .number (.int 1), true⟩,
    ⟨"clitic", .isIn, .texts ["kin", "han"], false⟩,
    ⟨"relfrequency", .atLeast, .text "few", true⟩]

/-- The filter for these tests decides rows of any sort and filters the table. -/
theorem filters_mixedTable :
    ∃ f, RowFilter.compileSteps (.columnar mixedTable.columns) mixedQuery = .ok f ∧
      (∃ kept, f.holds (.ofCells mixedTable.columns
        [.real 0.5, .null, .int 1, .int 2, .text "many"]) = .ok kept) ∧
      ∃ t, TableFilter.apply ⟨f, some 1⟩ mixedTable = .ok t := by
  have hcompile : RowFilter.compileSteps (.columnar mixedTable.columns) mixedQuery = .ok _ := rfl
  obtain ⟨-, hcells, htable, -⟩ := filter_never_fails hcompile
  exact ⟨_, hcompile, hcells _ (by decide), htable _ mixedTable rfl (by decide)⟩

end CorpusQuery

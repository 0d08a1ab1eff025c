import CorpusQuery.Proofs.Query.Filtering
import CorpusQuery.Proofs.Table.Finishing

/-!
# What a flat corpus answers

Where all records can be read, nothing else goes wrong on the way from an accepted query to its
table, since filters do not fail. So the answer to a query over an export can be given in closed
form: the rows that pass the filter, sorted, cut and finished.
-/

namespace CorpusQuery

/-- A record with given texts as cells. -/
def RawRecord.ofTexts (cells : List String) : RawRecord :=
  ⟨{}, cells.map fun s ↦ s.toUTF8.data.toList⟩

namespace Export

/-- All records with data can be read. -/
def Readable (e : Export) : Prop :=
  ∀ record ∈ dataRecords e.format e.records, ∃ cells, record = .ok cells

/-- The cells of the records that can be read. -/
def dataCells (e : Export) : List (List String) :=
  (dataRecords e.format e.records).filterMap (·.toOption)

/-- The rows of the records that can be read. -/
def typedRows (e : Export) : List (List Value) := e.dataCells.map e.typedRow

theorem readable_of_dataRecords_eq {e : Export} (rows : List (List String))
    (h : dataRecords e.format e.records = rows.map .ok) : e.Readable := by
  rw [Readable, h]
  exact fun record hrecord ↦ (List.mem_map.mp hrecord).imp fun _ h ↦ h.2.symm

theorem Readable.dataRecords_eq {e : Export} (h : e.Readable) :
    dataRecords e.format e.records = e.dataCells.map .ok := by
  rw [Readable] at h
  rw [dataCells]
  generalize dataRecords e.format e.records = records at h
  induction records with
  | nil => rfl
  | cons record records ih =>
    obtain ⟨cells, rfl⟩ := h _ List.mem_cons_self
    exact congrArg (Except.ok cells :: ·) (ih fun r hr ↦ h r (List.mem_cons_of_mem _ hr))

theorem mem_dataRecords_of_mem_dataCells {e : Export} {cells : List String}
    (h : cells ∈ e.dataCells) :
    .ok cells ∈ dataRecords e.format e.records := by
  obtain ⟨record, hrecord, hcells⟩ := List.mem_filterMap.mp h
  rcases record with fault | cells'
  · cases hcells
  · obtain rfl := Option.some.inj hcells
    exact hrecord

theorem forall_ok_of_scanRows_eq_ok {e : Export} {filters : List RowExpr}
    {records : List (Except RecordError (List String))} {rows : List (List Value)}
    (h : e.scanRows filters records = .ok rows) :
    ∀ record ∈ records, ∃ cells, record = .ok cells := by
  induction records generalizing rows with
  | nil => exact fun _ hrecord ↦ absurd hrecord List.not_mem_nil
  | cons record records ih =>
    rcases record with fault | cells
    · cases h
    · rw [scanRows] at h
      obtain ⟨kept, -, h⟩ := exists_of_bind_eq_ok h
      obtain ⟨rest, hrest, -⟩ := exists_of_bind_eq_ok h
      exact List.forall_mem_cons.mpr ⟨⟨cells, rfl⟩, ih hrest⟩

theorem readable_of_collect_eq_ok {e : Export} {scan : Scan} {t : Table}
    (h : e.collect scan = .ok t) : e.Readable := by
  rw [collect] at h
  split at h
  · cases h
  obtain ⟨rows, hrows, -⟩ := exists_of_bind_eq_ok h
  exact forall_ok_of_scanRows_eq_ok hrows

end Export

namespace RowFilter

/-- **Filters of several predicates.** Where each predicate of a query has a truth on a row, the row
passes if all of them hold. -/
theorem exists_allHold_of_mapM {catalog : Catalog} {row : Row} {ps : List Predicate}
    {steps : List FilterStep} {P : Predicate → Prop}
    (h : ps.mapM (compileStep catalog) = .ok steps)
    (hstep : ∀ p ∈ ps, ∀ step, compileStep catalog p = .ok step →
      ∃ t, step.expr.truth row = .ok t ∧ (t.holds = true ↔ P p)) :
    ∃ kept, RowExpr.allHold row (steps.map (·.expr)) = .ok kept ∧
      (kept = true ↔ ∀ p ∈ ps, P p) := by
  induction ps generalizing steps with
  | nil =>
    obtain rfl := Except.ok.inj h
    exact ⟨true, rfl, by simp⟩
  | cons p ps ih =>
    obtain ⟨step, steps, hp, hps, rfl⟩ := mapM_cons_eq_ok h
    obtain ⟨t, ht, hholds⟩ := hstep p List.mem_cons_self step hp
    obtain ⟨kept, hkept, hall⟩ := ih hps fun p' hp' ↦ hstep p' (List.mem_cons_of_mem p hp')
    have hfirst : step.expr.holds row = .ok t.holds := by
      rw [RowExpr.holds, ht]
      rfl
    rw [List.map_cons, RowExpr.allHold, hfirst]
    refine ⟨t.holds && kept, ?_, ?_⟩
    · dsimp only [bind, Except.bind]
      cases t.holds with
      | true => exact hkept
      | false => rfl
    · rw [Bool.and_eq_true, hholds, hall, List.forall_mem_cons]

variable {e : Export} {f : RowFilter}

theorem ConditionsOn.holds_typedRow (hf : ConditionsOn e.columnNamesOf f) (cells : List String) :
    f.holds (.ofCells e.columnNamesOf (e.typedRow cells))
      = .ok (f.passes e.columnNamesOf (e.typedRow cells)) := by
  obtain ⟨kept, hkept⟩ := hf.exists_holds (e.covers_typedRow cells)
  rw [passes, hkept]
  rfl

theorem ConditionsOn.scanRows_eq (hf : ConditionsOn e.columnNamesOf f)
    {records : List (Except RecordError (List String))}
    (h : ∀ record ∈ records, ∃ cells, record = .ok cells) :
    e.scanRows (f.steps.map (·.expr)) records
      = .ok (((records.filterMap (·.toOption)).map e.typedRow).filter
          (f.passes e.columnNamesOf)) := by
  induction records with
  | nil => rfl
  | cons record records ih =>
    obtain ⟨cells, rfl⟩ := h _ List.mem_cons_self
    have hholds := hf.holds_typedRow cells
    rw [holds] at hholds
    have hcells : (Except.ok cells : Except RecordError (List String)).toOption = some cells := rfl
    rw [Export.scanRows, hholds, ih fun record hr ↦ h record (List.mem_cons_of_mem _ hr),
      List.filterMap_cons_some hcells, List.map_cons, List.filter_cons]
    rfl

theorem ConditionsOn.collect_eq_ok (hf : ConditionsOn e.columnNamesOf f) (hreadable : e.Readable)
    {column : String} (hcolumn : column ∈ e.columnNamesOf) (ascending : Bool) (n : Nat) :
    e.collect { filters := f.steps.map (·.expr), sort := some (column, ascending), limit := some n }
      = .ok ⟨e.columnNamesOf, (Table.sortRows ((e.columnNamesOf.idxOf? column).getD 0) ascending
          (e.typedRows.filter (f.passes e.columnNamesOf))).take n⟩ := by
  have hcontains : e.columnNamesOf.contains column = true := List.contains_iff_mem.mpr hcolumn
  obtain ⟨i, hi⟩ := Option.isSome_iff_exists.mp (List.isSome_idxOf?.mpr hcolumn)
  have hscan := hf.scanRows_eq hreadable
  rw [Export.collect, hf.unknownColumn?_eq rfl, Option.map_some, Option.filter_some, hcontains,
    Bool.not_true, if_neg Bool.false_ne_true]
  dsimp only
  rw [hscan]
  simp only [bind, Except.bind, Table.sortBy?, Table.columnIndex?, hi, Option.map_some,
    Option.getD_some]
  rfl

end RowFilter

namespace FlatCorpus

variable {e : Export} {totals : Totals} {c : FlatCorpus} {settings : QuerySettings} {q : Query}
  {filter : RowFilter}

/-- The rows that pass a filter. -/
def matchingRows (c : FlatCorpus) (filter : RowFilter) : List (List Value) :=
  c.source.typedRows.filter (filter.passes c.source.columnNamesOf)

/-- Where the column stands that rows are sorted by. -/
def orderPosition (c : FlatCorpus) (settings : QuerySettings) : Nat :=
  (c.source.columnNamesOf.idxOf? (Catalog.resolve settings.orderBy)).getD 0

/-- The rows that pass a filter in their order, before they are cut. -/
def orderedRows (c : FlatCorpus) (filter : RowFilter) (settings : QuerySettings) :
    List (List Value) :=
  Table.sortRows (c.orderPosition settings) settings.ascending (c.matchingRows filter)

/-- What a scan for a query returns. -/
def scannedTable (c : FlatCorpus) (filter : RowFilter) (settings : QuerySettings) : Table :=
  ⟨c.source.columnNamesOf, (c.orderedRows filter settings).take settings.rowLimit⟩

/-- The scanned table without the rows that `top` leaves out. -/
def narrow (top : Option Nat) (t : Table) : Table :=
  match top with
  | some n => t.topPerForm n
  | none => t

theorem orderedRows_perm (c : FlatCorpus) (filter : RowFilter) (settings : QuerySettings) :
    (c.orderedRows filter settings).Perm (c.matchingRows filter) := List.mergeSort_perm _ _

theorem rows_finish_finishSteps (t : Table) :
    (t.finish (finishSteps totals settings)).rows
      = t.rows.map (Table.finishRow t.columns (finishSteps totals settings)) :=
  Table.rows_finish (fun _ ↦ Table.local_of_mem_anchor_relative) t.columns t.rows

theorem eq_of_ofExport (h : ofExport e totals = .ok c) :
    "form" ∈ e.columnNamesOf ∧ c.source = e ∧ c.catalog = .columnar e.columnNamesOf := by
  rw [ofExport] at h
  split at h
  · next hform =>
    obtain rfl := Except.ok.inj h
    dsimp only
    exact ⟨List.contains_iff_mem.mp hform, rfl, rfl⟩
  · cases h

theorem conditionsOn_of_compile (hopen : ofExport e totals = .ok c)
    (hcompile : RowFilter.compile c.catalog q = .ok filter) :
    RowFilter.ConditionsOn e.columnNamesOf filter := by
  obtain ⟨-, -, hcatalog⟩ := eq_of_ofExport hopen
  rw [hcatalog, RowFilter.compile] at hcompile
  split at hcompile
  · cases hcompile
  · exact RowFilter.conditionsOn_of_compileSteps hcompile

/-- What a query that has been read is answered. -/
def answer (c : FlatCorpus) (q : Query) (settings : QuerySettings) : Outcome :=
  match RowFilter.compile c.catalog q with
  | .error e => .rejected e.message
  | .ok filter => c.run filter q.top settings

theorem query_of_read {input : String} (hread : Query.read c.catalog c.totals input = .ok q) :
    c.query input settings = c.answer q settings := by
  rw [query, hread]
  rfl

theorem answer_eq_ok (hopen : ofExport e totals = .ok c) (hreadable : e.Readable)
    (hcompile : RowFilter.compile c.catalog q = .ok filter)
    (horder : Catalog.resolve settings.orderBy ∈ e.columnNamesOf) :
    c.answer q settings = .ok ((narrow q.top (c.scannedTable filter settings)).finish
      (finishSteps c.totals settings)) := by
  have hf := conditionsOn_of_compile hopen hcompile
  obtain ⟨-, rfl, -⟩ := eq_of_ofExport hopen
  have hcontains : c.source.columnNamesOf.contains (Catalog.resolve settings.orderBy) = true :=
    List.contains_iff_mem.mpr horder
  have hcollect := hf.collect_eq_ok hreadable horder settings.ascending settings.rowLimit
  simp only [answer, hcompile, run, hcontains, hcollect, Bool.not_true, Bool.false_eq_true,
    if_false]
  rfl

/-- **The answer.** An accepted query over an export that can be read is answered with the rows that
pass its filter, sorted, cut and finished. -/
theorem query_eq_ok {input : String} (hopen : ofExport e totals = .ok c) (hreadable : e.Readable)
    (hread : Query.read c.catalog c.totals input = .ok q)
    (hcompile : RowFilter.compile c.catalog q = .ok filter)
    (horder : Catalog.resolve settings.orderBy ∈ e.columnNamesOf) :
    c.query input settings = .ok ((narrow q.top (c.scannedTable filter settings)).finish
      (finishSteps c.totals settings)) := by
  rw [query_of_read hread]
  exact answer_eq_ok hopen hreadable hcompile horder

/-- Conversely a query that is answered has a filter, the export has the column that rows are sorted
by, and all its records can be read. -/
theorem exists_of_answer_eq_ok {t : Table} (hopen : ofExport e totals = .ok c)
    (h : c.answer q settings = .ok t) :
    e.Readable ∧ Catalog.resolve settings.orderBy ∈ e.columnNamesOf ∧
      ∃ filter, RowFilter.compile c.catalog q = .ok filter := by
  obtain ⟨-, rfl, -⟩ := eq_of_ofExport hopen
  rw [answer] at h
  split at h
  · cases h
  next filter hcompile =>
  rw [run] at h
  dsimp only at h
  split at h
  · cases h
  next horder =>
  refine ⟨?_, by simpa using horder, filter, hcompile⟩
  generalize hcollect : c.source.collect _ = collected at h
  cases collected with
  | error fault => cases h
  | ok t' => exact Export.readable_of_collect_eq_ok hcollect

end FlatCorpus

end CorpusQuery

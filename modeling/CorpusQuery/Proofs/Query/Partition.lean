import CorpusQuery.Proofs.Lists
import CorpusQuery.Proofs.Query.Composition
import CorpusQuery.Proofs.Query.Negation
import CorpusQuery.Proofs.Table.Identity
import CorpusQuery.Proofs.Table.Top

/-!
# Splitting a query by a predicate

Of the rows that a query returns, those that have something in the backing column of a predicate
either meet the predicate or its negation. So they are the rows of two further queries, one with the
predicate and one with its negation, as long as rows are neither cut off nor left out.

The row limit is no danger to this: a query below the limit is not cut, and one predicate more does
not give it more rows. But `top` is, because the rows of a form compete within each query on their
own. A row that loses in the base query may win in one of the others. Only if no row of the base
query is left out, none is left out of the others, which have no more rows of any form.

## Main statements

* `rows_split_by_predicate`: how a predicate splits single rows and the rows of a query.
* `top_query_not_split`: a query with `top` that is not split.
-/

namespace CorpusQuery

/-- A query with one predicate more. -/
def Query.and (q : Query) (p : Predicate) : Query := { q with predicates := q.predicates ++ [p] }

/-! ## One predicate more -/

/-- Whether a row passes a step that decides it. -/
def FilterStep.keeps (s : FilterStep) (columns : List String) (cells : List Value) : Bool :=
  (s.expr.holds (.ofCells columns cells)).toOption.getD false

namespace RowFilter

theorem allHold_append (row : Row) (es : List RowExpr) (e : RowExpr) :
    RowExpr.allHold row (es ++ [e])
      = RowExpr.allHold row es >>= fun kept ↦ if kept then e.holds row else .ok false := by
  induction es with
  | nil =>
    rw [List.nil_append, RowExpr.allHold, RowExpr.allHold]
    generalize e.holds row = kept
    rcases kept with _ | _ | _ <;> rfl
  | cons first es ih =>
    rw [List.cons_append, RowExpr.allHold, RowExpr.allHold, ih]
    generalize first.holds row = kept
    rcases kept with _ | _ | _ <;> rfl

theorem passes_append (steps : List FilterStep) (s : FilterStep) (columns : List String)
    (cells : List Value) : passes ⟨steps ++ [s]⟩ columns cells
      = (passes ⟨steps⟩ columns cells && s.keeps columns cells) := by
  rw [passes, passes, holds, holds, List.map_append, List.map_singleton, allHold_append,
    FilterStep.keeps]
  dsimp only
  generalize RowExpr.allHold (.ofCells columns cells) (steps.map (·.expr)) = kept
  rcases kept with _ | _ | _
  · rfl
  · rfl
  · exact (Bool.true_and _).symm

theorem compile_and {catalog : Catalog} {q : Query} {filter : RowFilter} {p : Predicate}
    {s : FilterStep} (h : compile catalog q = .ok filter) (hs : compileStep catalog p = .ok s) :
    compile catalog (q.and p) = .ok ⟨filter.steps ++ [s]⟩ := by
  rw [compile] at h
  split at h
  · cases h
  · have hsteps := mapM_of_compileSteps h
    have hnonempty : (q.and p).isEmpty = false := by simp [Query.and, Query.isEmpty]
    rw [compile, hnonempty, if_neg Bool.false_ne_true, compileSteps, Query.and]
    dsimp only
    rw [List.mapM_append, hsteps, List.mapM_cons, hs]
    rfl

end RowFilter

/-! ## Queries that are answered in full -/

namespace FlatCorpus

variable {e : Export} {totals : Totals} {c : FlatCorpus} {settings : QuerySettings} {q : Query}
  {filter : RowFilter} {p : Predicate} {s : FilterStep} {t : Table}

/-- The rows that pass a filter as a table, before any row is cut off or left out. -/
def orderedTable (c : FlatCorpus) (filter : RowFilter) (settings : QuerySettings) : Table :=
  ⟨c.source.columnNamesOf, c.orderedRows filter settings⟩

/-- A query is answered with all rows that pass its filter: none is cut off, and `top` leaves none
out. -/
structure AnsweredInFull (c : FlatCorpus) (settings : QuerySettings) (q : Query)
    (filter : RowFilter) : Prop where
  compile : RowFilter.compile c.catalog q = .ok filter
  readable : c.source.Readable
  order : Catalog.resolve settings.orderBy ∈ c.source.columnNamesOf
  limit : (c.matchingRows filter).length ≤ settings.rowLimit
  top : (narrow q.top (c.orderedTable filter settings)).rows.length
    = (c.orderedTable filter settings).rows.length

theorem scannedTable_eq (h : (c.matchingRows filter).length ≤ settings.rowLimit) :
    c.scannedTable filter settings = c.orderedTable filter settings := by
  have hlength : (c.orderedRows filter settings).length ≤ settings.rowLimit := by
    rwa [(c.orderedRows_perm filter settings).length_eq]
  rw [scannedTable, orderedTable, List.take_of_length_le hlength]

theorem narrow_eq_self_of_subperm {top : Option ℕ} {t' : Table} (hcolumns : t'.columns = t.columns)
    (hrows : t'.rows.Subperm t.rows) (h : (narrow top t).rows.length = t.rows.length) :
    narrow top t' = t' := by
  cases top with
  | none => rfl
  | some n => exact Table.topPerForm_eq_self_of_subperm hcolumns hrows h

/-- **The answer in full.** -/
theorem AnsweredInFull.answer_eq_ok (h : c.AnsweredInFull settings q filter)
    (hopen : ofExport e totals = .ok c) :
    c.answer q settings
      = .ok ((c.orderedTable filter settings).finish (finishSteps c.totals settings)) := by
  obtain ⟨-, rfl, -⟩ := eq_of_ofExport hopen
  rw [FlatCorpus.answer_eq_ok hopen h.readable h.compile h.order, scannedTable_eq h.limit,
    narrow_eq_self_of_subperm rfl (List.Subperm.refl _) h.top]

theorem exists_answeredInFull (hopen : ofExport e totals = .ok c)
    (hanswer : c.answer q settings = .ok t)
    (htop : c.answer { q with top := none } settings = .ok t)
    (hlimit : t.rows.length < settings.rowLimit) :
    ∃ filter, c.AnsweredInFull settings q filter := by
  obtain ⟨hreadable, horder, filter, hcompile⟩ := exists_of_answer_eq_ok hopen hanswer
  obtain ⟨-, rfl, -⟩ := eq_of_ofExport hopen
  have hfull := answer_eq_ok (q := q) hopen hreadable hcompile horder
  have hfull' := answer_eq_ok (q := { q with top := none }) hopen hreadable hcompile horder
  have hrows := congrArg Table.rows (Outcome.ok.inj (hanswer.symm.trans hfull))
  have hrows' := congrArg Table.rows (Outcome.ok.inj (htop.symm.trans hfull'))
  rw [rows_finish_finishSteps] at hrows hrows'
  -- A table that is shorter than the limit has not been cut.
  have hlength : (c.matchingRows filter).length ≤ settings.rowLimit := by
    have hscanned := congrArg List.length hrows'
    rw [List.length_map, narrow, scannedTable, List.length_take] at hscanned
    have hordered := (c.orderedRows_perm filter settings).length_eq
    omega
  rw [scannedTable_eq hlength] at hrows hrows'
  refine ⟨filter, hcompile, hreadable, horder, hlength, ?_⟩
  have hlengths := congrArg List.length (hrows.symm.trans hrows')
  rwa [List.length_map, List.length_map] at hlengths

theorem matchingRows_append (c : FlatCorpus) (filter : RowFilter) (s : FilterStep) :
    c.matchingRows ⟨filter.steps ++ [s]⟩
      = (c.matchingRows filter).filter (s.keeps c.source.columnNamesOf) := by
  rw [matchingRows, matchingRows, List.filter_filter]
  refine List.filter_congr fun row _ ↦ ?_
  rw [RowFilter.passes_append, Bool.and_comm]

/-- **One predicate more.** With one predicate more a query is still answered in full. -/
theorem AnsweredInFull.and (h : c.AnsweredInFull settings q filter)
    (hs : RowFilter.compileStep c.catalog p = .ok s) :
    c.AnsweredInFull settings (q.and p) ⟨filter.steps ++ [s]⟩ := by
  have hsublist : (c.matchingRows ⟨filter.steps ++ [s]⟩).Sublist (c.matchingRows filter) := by
    rw [matchingRows_append]
    exact List.filter_sublist
  have hsubperm : (c.orderedRows ⟨filter.steps ++ [s]⟩ settings).Subperm
      (c.orderedRows filter settings) :=
    ((c.orderedRows_perm _ settings).subperm.trans hsublist.subperm).trans
      (c.orderedRows_perm filter settings).symm.subperm
  refine ⟨RowFilter.compile_and h.compile hs, h.readable, h.order,
    hsublist.length_le.trans h.limit, ?_⟩
  have hwhole : narrow q.top (c.orderedTable ⟨filter.steps ++ [s]⟩ settings)
      = c.orderedTable ⟨filter.steps ++ [s]⟩ settings :=
    narrow_eq_self_of_subperm (t := c.orderedTable filter settings) rfl hsubperm h.top
  exact congrArg (fun t ↦ t.rows.length) hwhole

/-- What a row is finished to. -/
def shown (c : FlatCorpus) (settings : QuerySettings) (row : List Value) : List Value :=
  Table.finishRow c.source.columnNamesOf (finishSteps c.totals settings) row

/-- The columns that a table is finished to. -/
def shownColumns (c : FlatCorpus) (settings : QuerySettings) : List String :=
  ((⟨c.source.columnNamesOf, []⟩ : Table).finish (finishSteps c.totals settings)).columns

/-- A table shows the rows that pass a filter, in some order. -/
structure Shows (c : FlatCorpus) (settings : QuerySettings) (t : Table) (filter : RowFilter) :
    Prop where
  columns : t.columns = c.shownColumns settings
  rows : t.rows.Perm ((c.matchingRows filter).map (c.shown settings))

theorem AnsweredInFull.exists_shows (h : c.AnsweredInFull settings q filter)
    (hopen : ofExport e totals = .ok c) :
    ∃ t, c.answer q settings = .ok t ∧ c.Shows settings t filter := by
  refine ⟨_, h.answer_eq_ok hopen, ?_, ?_⟩
  · exact Table.columns_finish (fun _ ↦ Table.local_of_mem_anchor_relative) _ _ _
  · rw [rows_finish_finishSteps]
    exact (c.orderedRows_perm filter settings).map _

theorem ofCells_shown {row : List Value} (hrow : row.length = c.source.columnNamesOf.length)
    {column : String} (hcolumn : column ∉ Catalog.relatives.map (·.1)) :
    Row.ofCells (c.shownColumns settings) (c.shown settings row) column
      = Row.ofCells c.source.columnNamesOf row column :=
  Table.ofCells_finishRow hrow (fun _ ↦ Table.local_of_mem_anchor_relative) hcolumn []

theorem length_of_mem_matchingRows {row : List Value} (h : row ∈ c.matchingRows filter) :
    row.length = c.source.columnNamesOf.length := by
  obtain ⟨cells, -, rfl⟩ := List.mem_map.mp (List.mem_filter.mp h).1
  exact c.source.length_typedRow cells

end FlatCorpus

/-! ## Splitting -/

/-- The rows of a table that have something in a column are those of two tables with the same
columns, and these have no row in common. -/
structure Table.SplitBy (t : Table) (column : String) (yes no : Table) : Prop where
  columns_yes : yes.columns = t.columns
  columns_no : no.columns = t.columns
  rows : (t.rows.filter fun row ↦ Row.ofCells t.columns row column != some .null).Perm
    (yes.rows ++ no.rows)
  apart : ∀ row ∈ yes.rows, row ∉ no.rows

namespace FlatCorpus

variable {e : Export} {totals : Totals} {c : FlatCorpus} {settings : QuerySettings} {q : Query}
  {filter : RowFilter} {s s' : FilterStep} {t yes no : Table} {column : String}

/-- **Splitting an answer.** Two steps split an answer if what they come to depends on one cell, and
they are opposed unless it is missing. -/
theorem Shows.splitBy (hcolumn : column ∉ Catalog.relatives.map (·.1)) {kept kept' : Value → Bool}
    (hkept : ∀ v, ∀ row : Row, row column = some v →
      s.expr.holds row = .ok (kept v) ∧ s'.expr.holds row = .ok (kept' v))
    (hnull : kept .null = false ∧ kept' .null = false)
    (hcells : ∀ row ∈ c.matchingRows filter, ∃ v,
      Row.ofCells c.source.columnNamesOf row column = some v ∧ (v ≠ .null → kept' v = !kept v))
    (ht : c.Shows settings t filter) (hyes : c.Shows settings yes ⟨filter.steps ++ [s]⟩)
    (hno : c.Shows settings no ⟨filter.steps ++ [s']⟩) : t.SplitBy column yes no := by
  have hcell (row : List Value) (hrow : row ∈ c.matchingRows filter) :
      Row.ofCells (c.shownColumns settings) (c.shown settings row) column
        = Row.ofCells c.source.columnNamesOf row column :=
    ofCells_shown (length_of_mem_matchingRows hrow) hcolumn
  have hkeeps (row : List Value) (v : Value)
      (hv : Row.ofCells c.source.columnNamesOf row column = some v) :
      s.keeps c.source.columnNamesOf row = kept v ∧
        s'.keeps c.source.columnNamesOf row = kept' v := by
    obtain ⟨hholds, hholds'⟩ := hkept v _ hv
    rw [FilterStep.keeps, FilterStep.keeps, hholds, hholds']
    exact ⟨rfl, rfl⟩
  have hyesRows := hyes.rows
  have hnoRows := hno.rows
  rw [matchingRows_append] at hyesRows hnoRows
  constructor
  case columns_yes => exact hyes.columns.trans ht.columns.symm
  case columns_no => exact hno.columns.trans ht.columns.symm
  case rows =>
    rw [ht.columns]
    refine (ht.rows.filter _).trans ?_
    refine List.Perm.trans ?_ (hyesRows.append hnoRows).symm
    rw [List.filter_map, ← List.map_append]
    refine (perm_filter_append fun row hrow ↦ ?_).map _
    obtain ⟨v, hv, hopposed⟩ := hcells row hrow
    obtain ⟨hkeep, hkeep'⟩ := hkeeps row v hv
    rw [Function.comp_apply, hcell row hrow, hv, hkeep, hkeep']
    by_cases hmissing : v = .null
    · subst hmissing
      exact .inl ⟨by decide, hnull⟩
    · exact .inr ⟨by simpa using hmissing, hopposed hmissing⟩
  case apart =>
    intro row hrow hrow'
    obtain ⟨first, hfirst, hshown⟩ := List.mem_map.mp (hyesRows.mem_iff.mp hrow)
    obtain ⟨second, hsecond, hshown'⟩ := List.mem_map.mp (hnoRows.mem_iff.mp hrow')
    obtain ⟨hfirst, hpasses⟩ := List.mem_filter.mp hfirst
    obtain ⟨hsecond, hpasses'⟩ := List.mem_filter.mp hsecond
    obtain ⟨v, hv, hopposed⟩ := hcells first hfirst
    -- Both rows are finished to the same one, so they have the same cell in the column.
    have hv' : Row.ofCells c.source.columnNamesOf second column = some v := by
      rw [← hcell second hsecond, hshown', ← hshown, hcell first hfirst, hv]
    rw [(hkeeps first v hv).1] at hpasses
    rw [(hkeeps second v hv').2] at hpasses'
    by_cases hmissing : v = .null
    · rw [hmissing, hnull.1] at hpasses
      cases hpasses
    · rw [hopposed hmissing, hpasses] at hpasses'
      cases hpasses'

/-- **Splitting a query.** A query that is answered in full is split by every predicate that its
corpus admits, unless an undefined number is involved. -/
theorem AnsweredInFull.exists_splitBy {p : Predicate} {f : Field}
    (h : c.AnsweredInFull settings q filter) (hopen : ofExport e totals = .ok c)
    (hanswer : c.answer q settings = .ok t) (hadmits : c.catalog.Admits p)
    (hf : c.catalog.get? p.field = some f)
    (hdefined : ∀ row ∈ t.rows, ∀ v, Row.ofCells t.columns row f.column = some v → v ≠ .null →
      p.DefinedOn v) :
    ∃ yes no, c.answer (q.and p) settings = .ok yes ∧
      c.answer (q.and p.flipped) settings = .ok no ∧ t.SplitBy f.column yes no := by
  obtain ⟨-, rfl, hcatalog⟩ := eq_of_ofExport hopen
  rw [hcatalog] at hadmits hf
  obtain ⟨g, hg, hcolumn, hdecides⟩ := hadmits.exists_decides
  obtain rfl := Option.some.inj (hg.symm.trans hf)
  rw [← hcatalog] at hdecides
  choose kept kept' hrows hnull hopposed using hdecides
  obtain ⟨⟨s, hs, -⟩, s', hs', -⟩ := hrows .null (fun _ ↦ some .null) rfl
  have hkept (v : Value) (row : Row) (hrow : row g.column = some v) :
      s.expr.holds row = .ok (kept v) ∧ s'.expr.holds row = .ok (kept' v) := by
    obtain ⟨⟨s₁, hs₁, hholds⟩, s₁', hs₁', hholds'⟩ := hrows v row hrow
    obtain rfl := Except.ok.inj (hs.symm.trans hs₁)
    obtain rfl := Except.ok.inj (hs'.symm.trans hs₁')
    exact ⟨hholds, hholds'⟩
  have hrelative : g.column ∉ Catalog.relatives.map (·.1) :=
    Catalog.column_not_mem_relatives g (Catalog.mem_of_get? hg)
  obtain ⟨t', ht', hshows⟩ := h.exists_shows hopen
  obtain rfl := Outcome.ok.inj (hanswer.symm.trans ht')
  obtain ⟨yes, hyes, hshowsYes⟩ := (h.and hs).exists_shows hopen
  obtain ⟨no, hno, hshowsNo⟩ := (h.and hs').exists_shows hopen
  refine ⟨yes, no, hyes, hno, ?_⟩
  refine hshows.splitBy hrelative hkept (hnull .null rfl) (fun row hrow ↦ ?_) hshowsYes hshowsNo
  have hlength := length_of_mem_matchingRows hrow
  obtain ⟨v, hv⟩ := Row.covers_ofCells hlength.ge g.column hcolumn
  refine ⟨v, hv, fun hmissing ↦ hopposed v hmissing ?_⟩
  have hshown : c.shown settings row ∈ t.rows := hshows.rows.mem_iff.mpr (List.mem_map_of_mem hrow)
  refine hdefined _ hshown v ?_ hmissing
  rw [hshows.columns, ofCells_shown hlength hrelative, hv]

theorem AnsweredInFull.query_and {base clause : String} {p : Predicate}
    (h : c.AnsweredInFull settings q filter) (hbase : Query.read c.catalog c.totals base = .ok q)
    (hclause : Query.read c.catalog c.totals clause = .ok ⟨[p], none⟩) :
    c.query (base ++ " and " ++ clause) settings = c.answer (q.and p) settings := by
  have hpredicates : q.predicates ≠ [] := by
    intro hnil
    have hcompile := h.compile
    rw [RowFilter.compile, Query.isEmpty, hnil] at hcompile
    cases hcompile
  exact query_of_read (Query.read_and hbase hpredicates hclause)

end FlatCorpus

/-- **Splitting by a predicate.** On every row of a flat table a predicate of an accepted query and
its negation come to something. Neither holds if the cell in the backing column is missing, and else
exactly one of them does unless the cell or an operand is an undefined number or reads as one.

So a query below the row limit is split by them: its rows that have something in that column are
those that it has with the predicate and those that it has with the negation, as long as its `top`,
if it has one, leaves no row out. Behind the text of the query a clause for a predicate has the same
effect. -/
theorem rows_split_by_predicate {columns : List String} {totals : Totals} {input : String}
    {q : Query} {p : Predicate} (hread : Query.read (.columnar columns) totals input = .ok q)
    (hp : p ∈ q.predicates) :
    ∃ f, (Catalog.columnar columns).get? p.field = some f ∧
      (∀ cells : List Value, cells.length = columns.length → ∃ v kept kept',
        Row.ofCells columns cells f.column = some v ∧
        p.Decides (.columnar columns) (.ofCells columns cells) kept ∧
        p.flipped.Decides (.columnar columns) (.ofCells columns cells) kept' ∧
        (v = .null → kept = false ∧ kept' = false) ∧
        (v ≠ .null → p.DefinedOn v → kept' = !kept)) ∧
      ∀ (e : Export) (known : Totals) (c : FlatCorpus) (settings : QuerySettings) (base : String)
        (b : Query) (t : Table), e.columnNamesOf = columns → FlatCorpus.ofExport e known = .ok c →
        Query.read c.catalog c.totals base = .ok b → c.query base settings = .ok t →
        c.answer { b with top := none } settings = .ok t → t.rows.length < settings.rowLimit →
        (∀ row ∈ t.rows, ∀ v, Row.ofCells t.columns row f.column = some v → v ≠ .null →
          p.DefinedOn v) →
        ∃ yes no, c.answer (b.and p) settings = .ok yes ∧
          c.answer (b.and p.flipped) settings = .ok no ∧ t.SplitBy f.column yes no ∧
          ∀ clause p', Query.read c.catalog c.totals clause = .ok ⟨[p'], none⟩ →
            c.query (base ++ " and " ++ clause) settings = c.answer (b.and p') settings := by
  have hadmits := Query.admits_of_mem_read hread hp
  obtain ⟨f, hf, hcolumn, hdecides⟩ := hadmits.exists_decides
  refine ⟨f, hf, fun cells hlength ↦ ?_, ?_⟩
  · obtain ⟨v, hv⟩ := Row.covers_ofCells hlength.ge f.column hcolumn
    obtain ⟨kept, kept', hrows, hnull, hopposed⟩ := hdecides v
    obtain ⟨hkept, hkept'⟩ := hrows _ hv
    exact ⟨v, kept, kept', hv, hkept, hkept', hnull, hopposed⟩
  · rintro e known c settings base b t rfl hopen hbase hquery htop hlimit hdefined
    obtain ⟨-, -, hcatalog⟩ := FlatCorpus.eq_of_ofExport hopen
    rw [FlatCorpus.query_of_read hbase] at hquery
    rw [← hcatalog] at hadmits hf
    obtain ⟨filter, hfull⟩ := FlatCorpus.exists_answeredInFull hopen hquery htop hlimit
    obtain ⟨yes, no, hyes, hno, hsplit⟩ := hfull.exists_splitBy hopen hquery hadmits hf hdefined
    exact ⟨yes, no, hyes, hno, hsplit, fun clause p' hclause ↦ hfull.query_and hbase hclause⟩

/-! ## A form with two parts of speech -/

/-- An export with two uses of one form, as different parts of speech and the frequent one first. -/
def posUses : Export where
  path := "export.csv"
  format := {}
  records := [.ofTexts ["form", "pos", "frequency"], .ofTexts ["on", "VERB", "90"],
    .ofTexts ["on", "AUX", "10"]]
  columns := [⟨"form", .text, 0⟩, ⟨"pos", .text, 1⟩, ⟨"frequency", .int, 2⟩]

/-- The corpus of that export. -/
def posCorpus : FlatCorpus := ⟨posUses, .columnar posUses.columnNamesOf, {}⟩

/-- The use as a verb. -/
def verbUse : List Value := [.text "on", .text "VERB", .int 90]

/-- The use as an auxiliary. -/
def auxUse : List Value := [.text "on", .text "AUX", .int 10]

/-- The predicate for the form. -/
def onForm : Predicate := ⟨"form", .equal, .text "on", false⟩

/-- The predicate for verbs. -/
def isVerb : Predicate := ⟨"pos", .equal, .text "VERB", false⟩

theorem readable_posUses : posUses.Readable :=
  Export.readable_of_dataRecords_eq [["on", "VERB", "90"], ["on", "AUX", "10"]] (by decide)

theorem ofExport_posUses : FlatCorpus.ofExport posUses {} = .ok posCorpus := rfl

theorem query_posCorpus {input : String} {q : Query} {filter : RowFilter} {rows : List (List Value)}
    (hread : Query.read posCorpus.catalog posCorpus.totals input = .ok q)
    (hcompile : RowFilter.compile posCorpus.catalog q = .ok filter)
    (hmatching : posCorpus.matchingRows filter = rows)
    (hsorted : rows.Pairwise fun r s ↦
      Table.cellOrder false (Table.cellAt 2 r) (Table.cellAt 2 s) != .gt) :
    posCorpus.query input {} = .ok ((FlatCorpus.narrow q.top
      ⟨posUses.columnNamesOf, rows.take 10000⟩).finish [.anchor]) := by
  have horder : Catalog.resolve ({} : QuerySettings).orderBy ∈ posUses.columnNamesOf := by decide
  have hquery := FlatCorpus.query_eq_ok ofExport_posUses readable_posUses hread hcompile horder
  have hposition : posCorpus.orderPosition {} = 2 := by decide
  have hordered : posCorpus.orderedRows filter {} = rows := by
    rw [FlatCorpus.orderedRows, hposition, hmatching]
    exact List.mergeSort_of_pairwise hsorted
  rw [FlatCorpus.scannedTable, hordered] at hquery
  exact hquery

/-- The columns of the export with some rows. -/
def posTable (rows : List (List Value)) : Table := ⟨posUses.columnNamesOf, rows⟩

theorem query_on : posCorpus.query "form = on" {} = .ok (posTable [verbUse, auxUse]) := by
  have hquery := @query_posCorpus "form = on" ⟨[onForm], none⟩ _ [verbUse, auxUse] rfl rfl
    (by decide) (by decide)
  rw [hquery]
  decide

/-- The uses of the form are split into the verb and the others. -/
theorem verbs_split_from_others :
    (∃ kept kept', isVerb.Decides posCorpus.catalog (.ofCells posUses.columnNamesOf auxUse) kept ∧
      isVerb.flipped.Decides posCorpus.catalog (.ofCells posUses.columnNamesOf auxUse) kept' ∧
      kept' = !kept) ∧
    ∃ yes no, posCorpus.query ("form = on" ++ " and " ++ "pos = verb") {} = .ok yes ∧
      posCorpus.query ("form = on" ++ " and " ++ "pos != verb") {} = .ok no ∧
      (posTable [verbUse, auxUse]).SplitBy "pos" yes no := by
  have hread : Query.read (.columnar posUses.columnNamesOf) {} "pos = verb"
      = .ok ⟨[isVerb], none⟩ := rfl
  have hread' : Query.read (.columnar posUses.columnNamesOf) {} "pos != verb"
      = .ok ⟨[isVerb.flipped], none⟩ := rfl
  have hmem : isVerb ∈ (⟨[isVerb], none⟩ : Query).predicates := List.mem_cons_self
  obtain ⟨f, hf, hrows, hqueries⟩ := rows_split_by_predicate hread hmem
  obtain rfl : Catalog.flatField .text "pos" = f := Option.some.inj hf
  constructor
  · obtain ⟨v, kept, kept', hv, hkept, hkept', -, hopposed⟩ := hrows auxUse rfl
    obtain rfl : Value.text "AUX" = v := Option.some.inj hv
    exact ⟨kept, kept', hkept, hkept', hopposed (by decide) (by decide)⟩
  · have hdefined : ∀ row ∈ (posTable [verbUse, auxUse]).rows, ∀ v,
        Row.ofCells posUses.columnNamesOf row "pos" = some v → v ≠ .null →
          isVerb.DefinedOn v := by
      rw [posTable, List.forall_mem_cons, List.forall_mem_singleton]
      constructor
      · intro v hv _
        obtain rfl : Value.text "VERB" = v := Option.some.inj hv
        decide
      · intro v hv _
        obtain rfl : Value.text "AUX" = v := Option.some.inj hv
        decide
    obtain ⟨yes, no, hyes, hno, hsplit, htext⟩ := hqueries posUses {} posCorpus {} "form = on"
      ⟨[onForm], none⟩ _ rfl ofExport_posUses rfl query_on query_on (by decide) hdefined
    exact ⟨yes, no, (htext _ _ hread).trans hyes, (htext _ _ hread').trans hno, hsplit⟩

theorem rankable_posUses : ∀ row ∈ [verbUse, auxUse], Table.Rankable (Table.frequencyOf 2 row) := by
  rw [List.forall_mem_cons, List.forall_mem_singleton]
  constructor
  · intro x hx
    cases hx
    decide
  · intro x hx
    cases hx
    decide

theorem narrow_posTable {rows shown : List (List Value)} (hrows : rows ⊆ [verbUse, auxUse])
    (hshown : (((posTable rows).keepRows fun i ↦
      decide (Table.place 0 2 rows i < 1)).finish [.anchor]) = posTable shown) :
    (FlatCorpus.narrow (some 1) (posTable rows)).finish [.anchor] = posTable shown := by
  have hrankable : ∀ row ∈ rows, Table.Rankable (Table.frequencyOf 2 row) :=
    fun row hrow ↦ rankable_posUses row (hrows hrow)
  rw [FlatCorpus.narrow, Table.topPerForm_eq rfl rfl hrankable]
  exact hshown

/-- **Halves that are more than the whole.** The most frequent use of the form is a verb, and so is
the most frequent of the verbs. But among the other uses there is a most frequent one as well. -/
theorem top_query_not_split : FlatCorpus.ofExport posUses {} = .ok posCorpus ∧
    posCorpus.query "form = on and top 1" {} = .ok (posTable [verbUse]) ∧
    posCorpus.query "form = on and top 1 and pos = verb" {} = .ok (posTable [verbUse]) ∧
    posCorpus.query "form = on and top 1 and pos != verb" {} = .ok (posTable [auxUse]) ∧
    ¬(posTable [verbUse]).SplitBy "pos" (posTable [verbUse]) (posTable [auxUse]) := by
  have hbase := @query_posCorpus "form = on and top 1" ⟨[onForm], some 1⟩ _ [verbUse, auxUse] rfl
    rfl (by decide) (by decide)
  have hyes := @query_posCorpus "form = on and top 1 and pos = verb" ⟨[onForm, isVerb], some 1⟩ _
    [verbUse] rfl rfl (by decide) (by decide)
  have hno := @query_posCorpus "form = on and top 1 and pos != verb"
    ⟨[onForm, isVerb.flipped], some 1⟩ _ [auxUse] rfl rfl (by decide) (by decide)
  refine ⟨ofExport_posUses, hbase.trans (congrArg _ ?_), hyes.trans (congrArg _ ?_),
    hno.trans (congrArg _ ?_), ?_⟩
  · exact narrow_posTable (by simp) (by decide +kernel)
  · exact narrow_posTable (by simp) (by decide +kernel)
  · exact narrow_posTable (by simp) (by decide +kernel)
  · intro hsplit
    have hlength := hsplit.rows.length_eq
    revert hlength
    decide

end CorpusQuery

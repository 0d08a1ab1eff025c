import CorpusQuery.Proofs.Export.Opening
import CorpusQuery.Proofs.Query.FlatScan
import CorpusQuery.Proofs.Table.Columns

/-!
# The columns of an answer

The columns of an export are named by the cells of its first record, as queries spell them: letter
case, blanks around a cell and the choice between blanks, hyphens and full stops make no difference.
So two columns can get one name, and no step between the file and the answer compares the names of
columns with each other. Anchoring lists columns by their names, and a name that two columns share
is listed for each of them but means the first one. The answer then has two copies of that column,
and the other one behind them.

Where all names are different this cannot happen, and the columns of an answer are those of the
header in another order. Whatever the names are, no column is lost, and none comes from elsewhere.

## Main statements

* `columns_of_query`: the columns of an answer are pairwise different exactly if the header names
  are, and then every header column is there once.
* `shared_name_repeated`: an export where two columns get one name.
-/

namespace CorpusQuery

namespace FlatCorpus

variable {c : FlatCorpus}

theorem exists_header_of_open? {path : String} {format : DelimitedFormat}
    {content : Option (List UInt8)} (h : FlatCorpus.open? path format content = .ok c) :
    ∃ bytes header totals, content = some bytes ∧
      Export.firstRecord (RawRecord.ofBytes format.delimiter bytes) = .ok header ∧
      c.source.columnNamesOf = header.map Export.columnName ∧ ofExport c.source totals = .ok c := by
  obtain ⟨e, he, h⟩ := exists_of_bind_eq_ok h
  obtain ⟨totals, -, h⟩ := exists_of_bind_eq_ok h
  obtain ⟨bytes, header, hbytes, hheader, hnames⟩ :=
    Export.columnNamesOf_of_open? (mapError_eq_ok.mp he)
  obtain ⟨hform, rfl, -⟩ := eq_of_ofExport h
  refine ⟨bytes, header, totals, hbytes, hheader, ?_, h⟩
  rw [hnames] at hform
  rw [hnames, Export.columnNames, if_pos (Export.hasHeader_of_form_mem hform)]

theorem columns_narrow (top : Option ℕ) (t : Table) : (narrow top t).columns = t.columns := by
  cases top with
  | none => rfl
  | some n =>
    rw [narrow, Table.topPerForm]
    split <;> rfl

theorem exists_finish_of_query {e : Export} {totals : Totals} {input : String}
    {settings : QuerySettings} {t : Table} (hopen : ofExport e totals = .ok c)
    (h : c.query input settings = .ok t) : ∃ scanned : Table,
      scanned.columns = e.columnNamesOf ∧ t = scanned.finish (finishSteps c.totals settings) := by
  rw [query] at h
  split at h
  · cases h
  next q hread =>
  obtain ⟨hreadable, horder, filter, hcompile⟩ := exists_of_answer_eq_ok hopen h
  have hanswer := answer_eq_ok hopen hreadable hcompile horder
  obtain ⟨-, rfl, -⟩ := eq_of_ofExport hopen
  exact ⟨_, columns_narrow q.top _, Outcome.ok.inj (h.symm.trans hanswer)⟩

end FlatCorpus

/-- **The columns of an answer.** Where a corpus can be opened and a query without relative columns
is answered, every column of the header is in the answer and no other one is. The names of the
columns are pairwise different exactly if the names in the header are, and then they are those of
the header in another order, each of them once. -/
theorem columns_of_query {path : String} {format : DelimitedFormat} {content : Option (List UInt8)}
    {c : FlatCorpus} {input : String} {settings : QuerySettings} {t : Table}
    (hopen : FlatCorpus.open? path format content = .ok c) (hrelative : settings.relative = false)
    (hquery : c.query input settings = .ok t) :
    ∃ bytes header, content = some bytes ∧
      Export.firstRecord (RawRecord.ofBytes format.delimiter bytes) = .ok header ∧
      (header.map Export.columnName).Subperm t.columns ∧
      t.columns ⊆ header.map Export.columnName ∧
      (t.columns.Nodup ↔ (header.map Export.columnName).Nodup) ∧
      ((header.map Export.columnName).Nodup → t.columns.Perm (header.map Export.columnName) ∧
        ∀ name ∈ header.map Export.columnName, t.columns.count name = 1) := by
  obtain ⟨bytes, header, totals, hbytes, hheader, hnames, hexport⟩ :=
    FlatCorpus.exists_header_of_open? hopen
  obtain ⟨scanned, hcolumns, rfl⟩ := FlatCorpus.exists_finish_of_query hexport hquery
  have hanchor : scanned.finish (FlatCorpus.finishSteps c.totals settings)
      = scanned.anchorColumns := by
    rw [FlatCorpus.finishSteps, hrelative]
    rfl
  refine ⟨bytes, header, hbytes, hheader, ?_⟩
  rw [hanchor, ← hnames, ← hcolumns]
  refine ⟨Table.columns_subperm_arrange _ _, Table.arrange_columns_subset _ _,
    Table.nodup_columns_anchorColumns_iff, fun hnodup ↦ ?_⟩
  have hperm := Table.perm_columns_anchorColumns hnodup
  refine ⟨hperm, fun name hname ↦ ?_⟩
  rw [hperm.count_eq]
  exact List.count_eq_one_of_mem hnodup hname

/-! ## Two spellings of one name -/

/-- A file with one row, and a name for its second column. -/
def oneRowFile (second : String) : List UInt8 :=
  ("form," ++ second ++ ",frequency\non,ON,5\n").toUTF8.data.toList

/-- The export in that file. -/
def oneRowExport (second : String) : Export where
  path := "export.csv"
  format := {}
  records := RawRecord.ofBytes 44 (oneRowFile second)
  columns := [⟨"form", .text, 0⟩, ⟨Export.columnName second, .text, 1⟩, ⟨"frequency", .int, 2⟩]

/-- The filter of `form = on`. -/
def onFilter : RowFilter :=
  ⟨[⟨"form", .compare (.column "form") .equal (.literal (.text "on"))⟩]⟩

/-- What the query is read as. -/
def onQuery : Query := { predicates := [⟨"form", .equal, .text "on", false⟩] }

theorem columnNamesOf_oneRowExport (second : String) :
    (oneRowExport second).columnNamesOf = ["form", Export.columnName second, "frequency"] := rfl

theorem exists_answer_oneRow {second : String}
    (hopen : Export.open? "export.csv" {} (some (oneRowFile second)) = .ok (oneRowExport second))
    (hrecords : Export.dataRecords (oneRowExport second).format (oneRowExport second).records
      = [.ok ["on", "ON", "5"]])
    (hread : ∀ totals, Query.read (.columnar (oneRowExport second).columnNamesOf) totals "form = on"
      = .ok onQuery)
    (hcompile : RowFilter.compile (.columnar (oneRowExport second).columnNamesOf) onQuery
      = .ok onFilter) :
    ∃ c, FlatCorpus.open? "export.csv" {} (some (oneRowFile second)) = .ok c ∧
      c.query "form = on" {} = .ok (Table.anchorColumns
        ⟨(oneRowExport second).columnNamesOf, [[.text "on", .text "ON", .int 5]]⟩) := by
  have hreadable : (oneRowExport second).Readable := by simp [Export.Readable, hrecords]
  obtain ⟨totals, htotals⟩ : ∃ totals, (oneRowExport second).totals = .ok totals := by
    rw [Export.totals, hrecords]
    exact ⟨_, rfl⟩
  have hform : (oneRowExport second).columnNamesOf.contains "form" = true := by
    simp [columnNamesOf_oneRowExport]
  obtain ⟨c, hcorpus⟩ : ∃ c, FlatCorpus.ofExport (oneRowExport second) totals = .ok c :=
    ⟨_, if_pos hform⟩
  have horder : Catalog.resolve "frequency" ∈ (oneRowExport second).columnNamesOf := by
    have hresolve : Catalog.resolve "frequency" = "frequency" := by decide
    simp [hresolve, columnNamesOf_oneRowExport]
  obtain ⟨-, hsource, hcatalog⟩ := FlatCorpus.eq_of_ofExport hcorpus
  rw [← hcatalog] at hread hcompile
  have hquery : c.query "form = on" {}
      = .ok ((FlatCorpus.narrow none (c.scannedTable onFilter {})).finish [.anchor]) :=
    FlatCorpus.query_eq_ok hcorpus hreadable (hread c.totals) hcompile horder
  have hmatching : c.matchingRows onFilter = [[.text "on", .text "ON", .int 5]] := by
    have hrows : (oneRowExport second).typedRows = [[.text "on", .text "ON", .int 5]] := by
      rw [Export.typedRows, Export.dataCells, hrecords]
      rfl
    rw [FlatCorpus.matchingRows, hsource, hrows]
    rfl
  have hordered : c.orderedRows onFilter {} = [[.text "on", .text "ON", .int 5]] := by
    rw [FlatCorpus.orderedRows, hmatching, Table.sortRows, List.mergeSort_singleton]
  refine ⟨c, ?_, ?_⟩
  · simp only [FlatCorpus.open?, hopen, htotals, Except.mapError, bind, Except.bind]
    exact hcorpus
  · rw [hquery, FlatCorpus.scannedTable, hordered, hsource]
    rfl

/-- A header with three names. -/
theorem columns_of_query_threeNames : ∃ c t,
    FlatCorpus.open? "export.csv" {} (some (oneRowFile "Pos")) = .ok c ∧
      c.query "form = on" {} = .ok t ∧ t.columns.Perm ["form", "pos", "frequency"] ∧
      ∀ name ∈ ["form", "pos", "frequency"], t.columns.count name = 1 := by
  obtain ⟨c, hopen, hquery⟩ := @exists_answer_oneRow "Pos" rfl rfl (fun _ ↦ rfl) rfl
  obtain ⟨bytes, header, hbytes, hheader, -, -, -, hdistinct⟩ := columns_of_query hopen rfl hquery
  obtain rfl := Option.some.inj hbytes
  obtain rfl : ["form", "Pos", "frequency"] = header := Except.ok.inj hheader
  have hnames : ["form", "Pos", "frequency"].map Export.columnName
      = ["form", "pos", "frequency"] := by
    decide +kernel
  rw [hnames] at hdistinct
  obtain ⟨hperm, hcount⟩ := hdistinct (by decide)
  exact ⟨c, _, hopen, hquery, hperm, hcount⟩

/-- **A name shared.** Two columns get one name if it is spelled with another case. The answer has
the first of them twice, and the other one at the end. -/
theorem shared_name_repeated : ∃ c t,
    FlatCorpus.open? "export.csv" {} (some (oneRowFile "Form")) = .ok c ∧
      c.query "form = on" {} = .ok t ∧
      t.columns = ["form", "form", "frequency", "form"] ∧
      t.rows = [[.text "on", .text "on", .int 5, .text "ON"]] ∧ ¬t.columns.Nodup := by
  obtain ⟨c, hopen, hquery⟩ := @exists_answer_oneRow "Form" rfl rfl (fun _ ↦ rfl) rfl
  have hcolumns : (oneRowExport "Form").columnNamesOf = ["form", "form", "frequency"] := by
    decide +kernel
  rw [hcolumns] at hquery
  exact ⟨c, _, hopen, hquery, by decide, by decide, by decide⟩

end CorpusQuery

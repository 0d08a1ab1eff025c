import CorpusQuery.Proofs.Query.FlatScan
import CorpusQuery.Proofs.Table.ConsistentOrder
import CorpusQuery.Proofs.Table.Top

/-!
# The most frequent rows of a query over an export

`top` is no part of the filter: it narrows the table that the scan returns, and the scan sorts and
cuts before that. So `top` compares the rows of a form that stand above the cut, in the order that
was asked for. A row that is returned is one of the most frequent ones among these.

Among all rows that pass the filter more rows can come before it: exactly those of its form below
the cut that are more frequent. There are none if the cut leaves out nothing, but where rows are
sorted by another column, or with rare rows first, the most frequent rows of a form may be the ones
that are cut off.

All this is about sorts that have a result: the cells of the column that rows are sorted by have to
compare consistently, and frequencies have to be numbers or missing.

## Main statements

* `top_rows_of_query`: which rows are returned, and when these are the most frequent ones of all.
* `top_row_cut_off`: an export where they are not.
-/

namespace CorpusQuery

namespace Table

variable {form freq : ℕ}

/-- **Rows that are left.** A row that is left has fewer than `n` rows of its form before it in the
table that was cut, and in the table before that as well unless more frequent ones were cut off. -/
theorem place_lt_of_take {rows : List (List Value)} {m n i : ℕ} {row : List Value} (him : i < m)
    (hrow : rows[i]? = some row) (hplace : place form freq (rows.take m) i < n)
    (hcut : ∀ other ∈ rows.drop m, sameForm form row other = true →
      rankKey (frequencyOf freq other) ≤ rankKey (frequencyOf freq row)) :
    place form freq rows i < n := by
  have hat : rowAt rows i = row := by rw [rowAt, hrow, Option.getD_some]
  have hnone : ((rows.drop m).countP fun other ↦ sameForm form row other &&
      decide (rankKey (frequencyOf freq row) < rankKey (frequencyOf freq other))) = 0 := by
    rw [List.countP_eq_zero]
    intro other hother hbetter
    rw [Bool.and_eq_true, decide_eq_true_iff] at hbetter
    exact not_lt_of_ge (hcut other hother hbetter.1) hbetter.2
  rw [place_eq_add_countP him, hat, hnone]
  exact hplace

end Table

/-- **The most frequent rows.** Take an accepted query with `top` over an export that can be read,
and let the rows that pass its filter compare consistently in the column that they are sorted by and
have frequencies that are numbers, if any. Then the query is answered. The rows that pass are sorted
stably and cut, those are left that fewer than `n` rows of their form come before, and each is
finished on its own. Fewer than `n` rows of its form come before a row among all rows that pass, as
long as no row that was cut off has its form and is more frequent. Without a column of frequencies
no row is left out. -/
theorem top_rows_of_query {e : Export} {totals : Totals} {c : FlatCorpus} {settings : QuerySettings}
    {input : String} {q : Query} {filter : RowFilter} {n : ℕ}
    (hopen : FlatCorpus.ofExport e totals = .ok c) (hreadable : e.Readable)
    (hread : Query.read c.catalog c.totals input = .ok q) (htop : q.top = some n)
    (hcompile : RowFilter.compile c.catalog q = .ok filter)
    (horder : Catalog.resolve settings.orderBy ∈ e.columnNamesOf)
    (hconsistent : Table.Consistent settings.ascending (c.orderPosition settings)
      (c.matchingRows filter))
    (hrankable : ∀ freq, e.columnNamesOf.idxOf? "frequency" = some freq →
      ∀ row ∈ c.matchingRows filter, Table.Rankable (Table.frequencyOf freq row)) :
    ∃ t form, c.query input settings = .ok t ∧ e.columnNamesOf.idxOf? "form" = some form ∧
      Table.StablySorted settings.ascending (c.orderPosition settings) (c.matchingRows filter)
        (c.orderedRows filter settings) ∧
      (∀ freq, e.columnNamesOf.idxOf? "frequency" = some freq →
        t = ((c.scannedTable filter settings).keepRows fun i ↦
          decide (Table.place form freq (c.scannedTable filter settings).rows i < n)).finish
            (FlatCorpus.finishSteps c.totals settings) ∧
        ∀ shown ∈ t.rows, ∃ i row, i < settings.rowLimit ∧
          (c.orderedRows filter settings)[i]? = some row ∧
          shown = Table.finishRow e.columnNamesOf (FlatCorpus.finishSteps c.totals settings) row ∧
          Table.place form freq ((c.orderedRows filter settings).take settings.rowLimit) i < n ∧
          ((∀ other ∈ (c.orderedRows filter settings).drop settings.rowLimit,
              Table.sameForm form row other = true →
                Table.rankKey (Table.frequencyOf freq other)
                  ≤ Table.rankKey (Table.frequencyOf freq row)) →
            Table.place form freq (c.orderedRows filter settings) i < n)) ∧
      (e.columnNamesOf.idxOf? "frequency" = none →
        t.rows = ((c.orderedRows filter settings).take settings.rowLimit).map
          (Table.finishRow e.columnNamesOf (FlatCorpus.finishSteps c.totals settings))) := by
  have hquery := FlatCorpus.query_eq_ok hopen hreadable hread hcompile horder
  obtain ⟨hform, rfl, -⟩ := FlatCorpus.eq_of_ofExport hopen
  obtain ⟨form, hform⟩ := Option.isSome_iff_exists.mp (List.isSome_idxOf?.mpr hform)
  rw [htop] at hquery
  refine ⟨_, form, hquery, hform, Table.sortRows_stablySorted hconsistent,
    fun freq hfreq ↦ ?_, fun hnone ↦ ?_⟩
  · have hscanned : ∀ row ∈ (c.scannedTable filter settings).rows,
        Table.Rankable (Table.frequencyOf freq row) := by
      intro row hrow
      exact hrankable freq hfreq row
        ((c.orderedRows_perm filter settings).subset (List.mem_of_mem_take hrow))
    have hformIndex : (c.scannedTable filter settings).columnIndex? "form" = some form := hform
    have hfreqIndex : (c.scannedTable filter settings).columnIndex? "frequency" = some freq := hfreq
    have hkept : FlatCorpus.narrow (some n) (c.scannedTable filter settings)
        = (c.scannedTable filter settings).keepRows fun i ↦
          decide (Table.place form freq (c.scannedTable filter settings).rows i < n) :=
      Table.topPerForm_eq hformIndex hfreqIndex hscanned n
    refine ⟨congrArg (Table.finish · _) hkept, fun shown hshown ↦ ?_⟩
    rw [hkept, FlatCorpus.rows_finish_finishSteps] at hshown
    obtain ⟨row, hrow, rfl⟩ := List.mem_map.mp hshown
    obtain ⟨i, hrow, hplace⟩ := Table.mem_rows_keepRows.mp hrow
    have hi : i < settings.rowLimit := by
      by_contra hlarge
      rw [FlatCorpus.scannedTable, List.getElem?_take_eq_none (not_lt.mp hlarge)] at hrow
      cases hrow
    have hordered : (c.orderedRows filter settings)[i]? = some row := by
      rwa [FlatCorpus.scannedTable, List.getElem?_take_of_lt hi] at hrow
    have hfewer := of_decide_eq_true hplace
    exact ⟨i, row, hi, hordered, rfl, hfewer, Table.place_lt_of_take hi hordered hfewer⟩
  · have hsame : FlatCorpus.narrow (some n) (c.scannedTable filter settings)
        = c.scannedTable filter settings := by
      have hindex : (c.scannedTable filter settings).columnIndex? "frequency" = none := hnone
      have hformIndex : (c.scannedTable filter settings).columnIndex? "form" = some form := hform
      rw [FlatCorpus.narrow, Table.topPerForm, hindex, hformIndex]
    rw [hsame, FlatCorpus.rows_finish_finishSteps]
    rfl

/-! ## A form with two rows -/

/-- An export with two uses of one form, the rare one first. -/
def twoUses : Export where
  path := "export.csv"
  format := {}
  records := [.ofTexts ["form", "frequency"], .ofTexts ["on", "10"], .ofTexts ["on", "90"]]
  columns := [⟨"form", .text, 0⟩, ⟨"frequency", .int, 1⟩]

/-- The two rows of the form. -/
def twoUsesRows : List (List Value) := [[.text "on", .int 10], [.text "on", .int 90]]

/-- The most frequent use of the form. -/
def twoUsesQuery : Query where
  predicates := [⟨"form", .equal, .text "on", false⟩]
  top := some 1

/-- The filter for the form. -/
def twoUsesFilter : RowFilter :=
  ⟨[⟨"form", .compare (.column "form") .equal (.literal (.text "on"))⟩]⟩

theorem readable_twoUses : twoUses.Readable :=
  Export.readable_of_dataRecords_eq [["on", "10"], ["on", "90"]] (by decide)

theorem exists_twoUsesCorpus : ∃ c, FlatCorpus.ofExport twoUses {} = .ok c ∧
    Query.read c.catalog c.totals "form = on and top 1" = .ok twoUsesQuery ∧
    RowFilter.compile c.catalog twoUsesQuery = .ok twoUsesFilter ∧
    c.matchingRows twoUsesFilter = twoUsesRows ∧
    ∀ settings : QuerySettings, settings.orderBy = "frequency" → settings.ascending = true →
      c.orderPosition settings = 1 ∧ c.orderedRows twoUsesFilter settings = twoUsesRows := by
  have hmatching : twoUses.typedRows.filter (twoUsesFilter.passes twoUses.columnNamesOf)
      = twoUsesRows := by decide
  have hascending : twoUsesRows.Pairwise fun r s ↦
      Table.cellOrder true (Table.cellAt 1 r) (Table.cellAt 1 s) != .gt := by decide
  refine ⟨⟨twoUses, .columnar twoUses.columnNamesOf, {}⟩, rfl, rfl, rfl, hmatching, ?_⟩
  intro settings horder hdirection
  have hposition : FlatCorpus.orderPosition ⟨twoUses, .columnar twoUses.columnNamesOf, {}⟩ settings
      = 1 := by
    rw [FlatCorpus.orderPosition, horder]
    decide
  rw [FlatCorpus.orderedRows, hposition, hdirection, FlatCorpus.matchingRows, hmatching]
  exact ⟨rfl, List.mergeSort_of_pairwise hascending⟩

theorem rankable_twoUsesRows :
    ∀ row ∈ twoUsesRows, Table.Rankable (Table.frequencyOf 1 row) := by
  rw [twoUsesRows, List.forall_mem_cons, List.forall_mem_singleton]
  constructor
  · intro x hx
    cases hx
    decide
  · intro x hx
    cases hx
    decide

theorem consistent_twoUsesRows : Table.Consistent true 1 twoUsesRows := by
  apply Table.Consistent.of_fitsKind (k := .int)
  · unfold Value.FitsKind
    decide
  · rw [twoUsesRows, List.forall_mem_cons, List.forall_mem_singleton]
    exact ⟨nofun, nofun⟩

/-- Where nothing is cut off the row that is returned is the most frequent one. -/
theorem top_row_of_twoUses : ∃ c t, FlatCorpus.ofExport twoUses {} = .ok c ∧
    c.query "form = on and top 1" { ascending := true } = .ok t ∧
    t.rows = [[.text "on", .int 90]] ∧ ∀ shown ∈ t.rows, ∃ i row, twoUsesRows[i]? = some row ∧
      shown = Table.finishRow twoUses.columnNamesOf (FlatCorpus.finishSteps c.totals {}) row ∧
      Table.place 0 1 twoUsesRows i < 1 := by
  obtain ⟨c, hopen, hread, hcompile, hmatching, hordered⟩ := exists_twoUsesCorpus
  obtain ⟨hposition, hrows⟩ := hordered { ascending := true } rfl rfl
  have hconsistent : Table.Consistent true (c.orderPosition { ascending := true })
      (c.matchingRows twoUsesFilter) := by
    rw [hposition, hmatching]
    exact consistent_twoUsesRows
  have hrankable : ∀ freq, twoUses.columnNamesOf.idxOf? "frequency" = some freq →
      ∀ row ∈ c.matchingRows twoUsesFilter, Table.Rankable (Table.frequencyOf freq row) := by
    intro freq hfreq
    obtain rfl : 1 = freq := Option.some.inj hfreq
    exact hmatching ▸ rankable_twoUsesRows
  obtain ⟨t, form, hquery, hform, -, htop, -⟩ :=
    @top_rows_of_query twoUses {} c { ascending := true } _ twoUsesQuery twoUsesFilter 1 hopen
      readable_twoUses hread rfl hcompile (by decide) hconsistent hrankable
  obtain rfl : 0 = form := Option.some.inj hform
  obtain ⟨ht, hshown⟩ := htop 1 rfl
  have hcomputed : t.rows = [[.text "on", .int 90]] := by
    obtain ⟨-, hsource, -⟩ := FlatCorpus.eq_of_ofExport hopen
    have hsteps : FlatCorpus.finishSteps c.totals { ascending := true } = [.anchor] := rfl
    rw [ht, FlatCorpus.scannedTable, hrows, hsource, hsteps]
    decide +kernel
  refine ⟨c, t, hopen, hquery, hcomputed, fun shown hmem ↦ ?_⟩
  obtain ⟨i, row, -, hrow, hfinished, -, hplace⟩ := hshown shown hmem
  rw [hrows] at hrow hplace
  exact ⟨i, row, hrow, hfinished, hplace fun other hother ↦ absurd hother List.not_mem_nil⟩

/-- **The most frequent row cut off.** With one row, and rare rows first, the row that is returned
is the rarer one of the two that pass. -/
theorem top_row_cut_off : ∃ c q filter t, FlatCorpus.ofExport twoUses {} = .ok c ∧
    Query.read c.catalog c.totals "form = on and top 1" = .ok q ∧ q.top = some 1 ∧
    RowFilter.compile c.catalog q = .ok filter ∧
    c.matchingRows filter = [[.text "on", .int 10], [.text "on", .int 90]] ∧
    c.query "form = on and top 1" { rowLimit := 1, ascending := true } = .ok t ∧
    t.rows = [[.text "on", .int 10]] ∧
    c.orderedRows filter { rowLimit := 1, ascending := true }
      = [[.text "on", .int 10], [.text "on", .int 90]] ∧
    ¬Table.place 0 1 (c.orderedRows filter { rowLimit := 1, ascending := true }) 0 < 1 := by
  obtain ⟨c, hopen, hread, hcompile, hmatching, hordered⟩ := exists_twoUsesCorpus
  have hrows := (hordered { rowLimit := 1, ascending := true } rfl rfl).2
  have horder : Catalog.resolve "frequency" ∈ twoUses.columnNamesOf := by decide
  have hquery : c.query "form = on and top 1" { rowLimit := 1, ascending := true }
      = .ok ((FlatCorpus.narrow (some 1)
          (c.scannedTable twoUsesFilter { rowLimit := 1, ascending := true })).finish [.anchor]) :=
    FlatCorpus.query_eq_ok hopen readable_twoUses hread hcompile horder
  have hplace : ¬Table.place 0 1 twoUsesRows 0 < 1 := by decide +kernel
  have hshown : ((FlatCorpus.narrow (some 1)
      (c.scannedTable twoUsesFilter { rowLimit := 1, ascending := true })).finish [.anchor]).rows
      = [[.text "on", .int 10]] := by
    obtain ⟨-, hsource, -⟩ := FlatCorpus.eq_of_ofExport hopen
    rw [FlatCorpus.scannedTable, hrows, hsource, FlatCorpus.narrow, Table.topPerForm_eq rfl rfl]
    · decide
    · exact fun row hrow ↦ rankable_twoUsesRows row (List.mem_of_mem_take hrow)
  refine ⟨c, twoUsesQuery, twoUsesFilter, _, hopen, hread, rfl, hcompile, hmatching, hquery,
    hshown, hrows, ?_⟩
  rwa [hrows]

end CorpusQuery

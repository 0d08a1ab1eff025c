import CorpusQuery.Proofs.Query.ShownWords
import CorpusQuery.Proofs.Query.WordLists
import CorpusQuery.Proofs.Table.Ranking
import CorpusQuery.Proofs.Table.Sorting

/-!
# Rows in the same order

A query orders its rows by a column and takes the first of them. In a relational corpus the database
sorts by the datum of the column, and a missing datum counts as the smallest. In a corpus from an
export the rows themselves are sorted, and a missing cell is last in both directions.

Let both kinds of corpora hold the same rows, and let no two rows that meet the query tie. Then
both answer with one ranking of the rows that have a count, and at most one row lacks it. In
descending order both put it last. In ascending order the relational corpus puts it first and the
export last: the answers differ if a row lacks its count, and then a limit may also keep different
rows.

## Main statements

* `SameRows.exists_query_eq_ok`: what a relational corpus answers, as a list of its words.
* `SameRows.exists_flat_query_eq_ok`: what an export answers, as a list of the same words.
* `same_order_of_query`: the two answers have the same rows in the same order, up to the place of
  the row without a count in ascending order.
-/

namespace CorpusQuery

open Sql (Datum)
open Ranking (bne_gt_compare keyLE)

/-! ## Orders as keys -/

/-- **The order of statements.** Data that hold numbers are ordered by these, in either direction;
what is missing counts as smaller, so it is first in ascending and last in descending order. -/
theorem Database.keyOrder_eq {d d' : Datum} (hd : d.Counted) (hd' : d'.Counted) (e : Sql.Expr)
    (ascending : Bool) :
    (Database.keyOrder
        [{ expr := e, direction := some (if ascending then .ascending else .descending) }]
        [d] [d'] != .gt) = keyLE ascending (!ascending) d.size? d'.size? := by
  have hfirst : Database.keyOrder
        [{ expr := e, direction := some (if ascending then .ascending else .descending) }] [d] [d']
      = if ascending then d.order d' else (d.order d').swap := by
    have hthen (o : Ordering) : o.then .eq = o := by cases o <;> rfl
    cases ascending with
    | true => exact hthen _
    | false => exact hthen _
  rw [hfirst]
  cases hd with
  | missing =>
    cases hd' with
    | missing => cases ascending <;> rfl
    | held hb =>
      rw [(Datum.Counted.order_null hb).1, hb]
      cases ascending <;> rfl
  | held ha =>
    cases hd' with
    | missing =>
      rw [(Datum.Counted.order_null ha).2, ha]
      cases ascending <;> rfl
    | held hb =>
      rw [Datum.order_of_size? ha hb, ha, hb]
      exact bne_gt_compare ascending _ _ _

/-- **The order of scans.** Cells that hold numbers are ordered by these, in either direction; what
is missing is last in both. -/
theorem SameNumber.cellOrder_eq {d d' : Datum} {v v' : Value} (h : SameNumber d v)
    (h' : SameNumber d' v')
    (hkind : v.size?.isSome = true → v'.size?.isSome = true → v.kind = v'.kind)
    (ascending : Bool) :
    (Table.cellOrder ascending v v' != .gt) = keyLE ascending true d.size? d'.size? := by
  refine Table.cellOrder_eq_keyLE h.isNull_eq h'.isNull_eq (fun x y hx hy ↦ ?_) ascending
  rw [h.size?_eq] at hx
  rw [h'.size?_eq] at hy
  have hsame : v.kind = v'.kind := hkind (by rw [hx]; rfl) (by rw [hy]; rfl)
  exact Value.order?_of_kind_eq hsame hx hy

theorem Export.kind_readCell {e : Export} {column : String} {cells cells' : List String}
    (h : (e.readCell cells column).size?.isSome = true)
    (h' : (e.readCell cells' column).size?.isSome = true) :
    (e.readCell cells column).kind = (e.readCell cells' column).kind := by
  have hkind (k : Kind) (cell : String) (hsize : (k.readCell cell).size?.isSome = true) :
      (k.readCell cell).kind = k := by
    rcases k.readCell_cases cell with hread | ⟨s, hread⟩ | ⟨hk, n, hread, -⟩ | ⟨hk, x, hread⟩
    · rw [hread] at hsize
      cases hsize
    · rw [hread] at hsize
      cases hsize
    · rw [hread, hk]
      rfl
    · rw [hread, hk]
      rfl
  rw [readCell] at h
  rw [readCell] at h'
  rw [readCell, readCell]
  cases hcolumn : e.column? column with
  | none => rfl
  | some c =>
    rw [hcolumn] at h h'
    exact (hkind _ _ h).trans (hkind _ _ h').symm

/-! ## Queries over a relational corpus -/

/-- The words that meet all predicates of a query. -/
def Database.matching (db : Database) (b : Backend) (q : Query) : List Part :=
  db.words.filter fun w ↦ q.predicates.all (db.meets b w)

theorem Backend.order_of_compile {b : Backend} {q : Query} {st : Statement} {f : Field}
    {r : Relation} (h : b.compile q = .ok st)
    (hf : b.catalog.lookup? b.settings.orderBy = some f) (hr : f.relation = some r) :
    f.relative = none ∧ st.select.order = [{
      expr := b.columnExpr f r
      direction := some (if b.settings.ascending then .ascending else .descending) }] := by
  obtain ⟨-, plans, hassemble⟩ := exists_assemble_of_compile h
  obtain ⟨f', r', horder, heq⟩ := order_of_assemble hassemble
  obtain ⟨hf', hr', -⟩ := exists_field_of_orderField horder
  obtain rfl : f = f' := Option.some.inj (hf.symm.trans hf')
  obtain rfl : r = r' := Option.some.inj (hr.symm.trans hr')
  exact ⟨relative_of_orderField horder, heq⟩

section

variable {db : Database} {e : Export} {names : List String} {pairs : List (Part × List String)}
  {b : Backend} {q : Query} {st : Statement} {f : Field} {r : Relation}

theorem SameRows.counted (h : SameRows db e names pairs) {column : String}
    {count : Part × List String → Value} (hnumber : ∀ pair ∈ pairs,
      SameNumber ((db.companion pair.1 r).datum column) (count pair)) :
    ∀ w ∈ db.words, ((db.companion w r).datum column).Counted := by
  intro w hw
  obtain ⟨pair, hpair, rfl⟩ := List.mem_map.mp (h.words.symm.subset hw)
  exact (hnumber pair hpair).counted

theorem SameRows.pairwise_not_alike (h : SameRows db e names pairs) {plans : List ConditionPlan}
    {a : Assembly} {s : Sql.Select} (hs : b.SelectSpec plans a s) (hnamed : db.WellNamed)
    (hschema : b.schema = db.schema) (hposx : b.posx = false)
    (hf : f ∈ (Catalog.relational db.schema).fields) (hnumeric : f.kind = .numeric)
    (hr : f.relation = some r)
    (hcounted : ∀ w ∈ db.words, ((db.companion w r).datum f.column).Counted) {ws : List Part}
    (hws : ∀ w ∈ ws, w ∈ db.words) (hkeys : (ws.map (db.number? f r)).Nodup) :
    ws.Pairwise fun v w ↦ Database.alike (db.shown s v) (db.shown s w) = false := by
  refine (List.pairwise_map.mp hkeys).imp_of_mem fun {v w} hv hw hne ↦ ?_
  rw [Bool.eq_false_iff]
  intro halike
  exact hne (h.number?_eq_of_alike hs hnamed hschema hposx (hws v hv) (hws w hw) hf hnumeric hr
    hcounted halike)

/-- **Ordered words.** If no two words tie, the rows of a statement are those of the words that meet
the query, arranged by their counts. The word without a count is first in ascending order and last
in descending order. -/
theorem SameRows.orderedRows_eq (h : SameRows db e names pairs) (hlayout : db.FollowsLayout)
    (hnamed : db.WellNamed) (hcatalog : b.catalog = .relational db.schema)
    (hschema : b.schema = db.schema) (hposx : b.posx = false) (hcompile : b.compile q = .ok st)
    (horder : b.catalog.lookup? b.settings.orderBy = some f) (hnumeric : f.kind = .numeric)
    (hr : f.relation = some r)
    (hcounted : ∀ w ∈ db.words, ((db.companion w r).datum f.column).Counted) {ws : List Part}
    (hws : (db.matching b q).Perm ws) (hkeys : (ws.map (db.number? f r)).Nodup) :
    db.orderedRows st.select
      = (Ranking.arranged b.settings.ascending (!b.settings.ascending) (db.number? f r) ws).map
          fun w ↦ Database.outputRow st.select (db.entry w) := by
  have hcatalog' : b.catalog = .relational b.schema := hschema ▸ hcatalog
  obtain ⟨plans, a, hplans, hs⟩ := Backend.exists_select_of_compile hcatalog' hcompile
  have hf : f ∈ (Catalog.relational db.schema).fields := hcatalog ▸ Catalog.mem_of_get? horder
  obtain ⟨hstrip, -⟩ := Catalog.numeric_of_mem_relational f hf hnumeric
  have hsatellite := Catalog.isSatellite_of_mem_relational hf hr
  obtain ⟨-, hitems⟩ := Backend.order_of_compile hcompile horder hr
  have hmeets : (fun w ↦ !(db.hits plans w).isEmpty) = fun w ↦ q.predicates.all (db.meets b w) := by
    funext w
    rw [Database.isEmpty_hits]
    exact (all_eq_of_mapM hplans fun p plan hp ↦ Database.meets_eq_meetsPlan hcatalog' hp).symm
  have hmem : ∀ w ∈ ws, w ∈ db.words := fun w hw ↦ (List.mem_filter.mp (hws.symm.subset hw)).1
  have hmatching : ((db.matching b q).map (db.number? f r)).Nodup :=
    (hws.map _).nodup_iff.mpr hkeys
  have hdifferent := h.pairwise_not_alike hs hnamed hschema hposx hf hnumeric hr hcounted
    (fun w hw ↦ (List.mem_filter.mp hw).1) hmatching
  have hrows := Database.distinct_rows_eq_of_hits hposx hschema hlayout hs (hmeets ▸ hdifferent)
  rw [hmeets] at hrows
  rw [Database.orderedRows, hrows]
  refine Ranking.mergeSort_eq (hws.map _) hkeys fun v hv w hw ↦ ?_
  have hkey {w : Part} (hw : w ∈ ws) : (Database.outputRow st.select (db.entry w)).keys
      = [(db.companion w r).datum f.column] := by
    rw [Database.outputRow, hitems, List.map_singleton,
      Backend.eval_columnExpr hposx hstrip (hmem w hw) hsatellite]
  rw [hkey hv, hkey hw, hitems]
  exact Database.keyOrder_eq (hcounted v (hmem v hv)) (hcounted w (hmem w hw)) _ _

/-- **The answer of a relational corpus.** -/
theorem SameRows.exists_query_eq_ok {c : Corpus} {settings : QuerySettings} {input : String}
    (h : SameRows db e names pairs) (hopen : Corpus.ofDatabase db = .ok c)
    (hlayout : db.FollowsLayout) (hnamed : db.WellNamed)
    (hposx : (c.backend settings).posx = false)
    (hread : Query.read c.catalog c.totals input = .ok q) (htop : q.top = none)
    (hcompile : (c.backend settings).compile q = .ok st)
    (hfault : c.database.fault? st.select = none)
    (horder : c.catalog.lookup? settings.orderBy = some f) (hnumeric : f.kind = .numeric)
    (hr : f.relation = some r)
    (hcounted : ∀ w ∈ db.words, ((db.companion w r).datum f.column).Counted) {ws : List Part}
    (hws : (db.matching (c.backend settings) q).Perm ws)
    (hkeys : (ws.map (db.number? f r)).Nodup) :
    ∃ t, c.query input settings = .ok t ∧
      t.sequence = ((Ranking.arranged settings.ascending (!settings.ascending)
        (db.number? f r) ws).map Part.identity).take settings.rowLimit := by
  obtain ⟨rfl, hschema, hcatalog⟩ := Corpus.eq_of_ofDatabase hopen
  obtain ⟨plans, a, -, hs⟩ :=
    Backend.exists_select_of_compile (b := c.backend settings)
      (by rw [Corpus.backend, hcatalog, hschema]) hcompile
  obtain ⟨hlimit, hmerge⟩ := Backend.limit_of_compile hcompile
  have hrun := Corpus.run_eq_ok hfault settings
  refine ⟨_, by simp only [Corpus.query, hread, hcompile, hrun, htop]; rfl, ?_⟩
  have hlocal : ∀ step ∈ c.finishSteps st settings, step.Local := by
    intro step hstep
    rw [Corpus.finishSteps, hmerge, hposx] at hstep
    exact Table.local_of_mem_anchor_relative hstep
  have hrectangular : Table.Rectangular ⟨c.database.columnNames st.select,
      (c.database.selectRows st.select).map (·.map (·.toValue))⟩ := by
    intro row hrow
    obtain ⟨cells, hcells, rfl⟩ := List.mem_map.mp hrow
    rw [List.length_map]
    exact Database.length_of_mem_selectRows hcells
  rw [Table.sequence_finish hrectangular hlocal, Table.sequence_eq]
  have hfetch : (c.backend settings).fetchLimit = settings.rowLimit := by
    rw [Backend.fetchLimit, hposx]
    rfl
  have hrows := h.orderedRows_eq hlayout hnamed hcatalog hschema hposx hcompile horder hnumeric hr
    hcounted hws hkeys
  dsimp only
  rw [Database.selectRows, hlimit, hfetch, Database.takeLimit, hrows, List.map_take, List.map_take,
    List.map_take, List.map_map, List.map_map, List.map_map]
  refine congrArg (List.take _) (List.map_congr_left fun w hw ↦ ?_)
  have hmem : w ∈ c.database.words :=
    (List.mem_filter.mp (hws.symm.subset (Ranking.perm_arranged.subset hw))).1
  exact h.rowIdentity_shown hs hnamed hschema hposx hmem

theorem Export.cellAt_typedRow {column : String} (h : column ∈ e.columnNamesOf)
    (cells : List String) :
    Table.cellAt ((e.columnNamesOf.idxOf? column).getD 0) (e.typedRow cells)
      = e.readCell cells column := by
  obtain ⟨i, hi⟩ := Option.isSome_iff_exists.mp (List.isSome_idxOf?.mpr h)
  have hcell := ofCells_typedRow h cells
  rw [Row.ofCells, hi] at hcell
  rw [hi, Option.getD_some, Table.cellAt]
  exact congrArg (Option.getD · .null) hcell

/-- **The answer of an export.** The record without a count is last in both directions. -/
theorem SameRows.exists_flat_query_eq_ok {fc : FlatCorpus} {totals : Totals}
    {settings : QuerySettings} {input : String} {filter : RowFilter}
    (h : SameRows db e names pairs) (hopen : FlatCorpus.ofExport e totals = .ok fc)
    (hreadable : e.Readable) (hread : Query.read fc.catalog fc.totals input = .ok q)
    (htop : q.top = none) (hcompile : RowFilter.compile fc.catalog q = .ok filter)
    (hcolumn : Catalog.resolve settings.orderBy ∈ e.columnNamesOf)
    {kept : List (Part × List String)} (hkept : ∀ pair ∈ kept, pair ∈ pairs)
    (hrows : (fc.matchingRows filter).Perm (kept.map fun pair ↦ e.typedRow pair.2))
    (hsame : ∀ pair ∈ kept, SameNumber ((db.companion pair.1 r).datum f.column)
      (e.readCell pair.2 (Catalog.resolve settings.orderBy)))
    (hkeys : ((kept.map (·.1)).map (db.number? f r)).Nodup) :
    ∃ t, fc.query input settings = .ok t ∧
      t.sequence = ((Ranking.arranged settings.ascending true (db.number? f r)
        (kept.map (·.1))).map Part.identity).take settings.rowLimit := by
  have hquery := FlatCorpus.query_eq_ok hopen hreadable hread hcompile hcolumn
  obtain ⟨-, rfl, -⟩ := FlatCorpus.eq_of_ofExport hopen
  rw [htop] at hquery
  refine ⟨_, hquery, ?_⟩
  have hordered : fc.orderedRows filter settings
      = (Ranking.arranged settings.ascending true (db.number? f r ∘ fun pair ↦ pair.1) kept).map
          fun pair ↦ fc.source.typedRow pair.2 := by
    rw [List.map_map] at hkeys
    refine Ranking.mergeSort_eq hrows hkeys fun pair hpair pair' hpair' ↦ ?_
    rw [FlatCorpus.orderPosition, Export.cellAt_typedRow hcolumn, Export.cellAt_typedRow hcolumn]
    exact (hsame pair hpair).cellOrder_eq (hsame pair' hpair') Export.kind_readCell _
  have hrectangular : Table.Rectangular ⟨fc.source.columnNamesOf,
      (fc.orderedRows filter settings).take settings.rowLimit⟩ := by
    intro row hrow
    have hmem := (fc.orderedRows_perm filter settings).subset (List.mem_of_mem_take hrow)
    obtain ⟨cells, -, rfl⟩ := List.mem_map.mp (List.mem_filter.mp hmem).1
    exact fc.source.length_typedRow cells
  have hlocal : ∀ step ∈ FlatCorpus.finishSteps fc.totals settings, step.Local :=
    fun _ ↦ Table.local_of_mem_anchor_relative
  rw [FlatCorpus.narrow, FlatCorpus.scannedTable, Table.sequence_finish hrectangular hlocal,
    Table.sequence_eq, Ranking.arranged_map]
  dsimp only
  rw [hordered, List.map_take, List.map_map, List.map_map]
  refine congrArg (List.take _) (List.map_congr_left fun pair hpair ↦ ?_)
  exact (h.same pair (hkept pair (Ranking.perm_arranged.subset hpair))).rowIdentity_typedRow

end

/-- **Rows that both answer with.** Of the pairs of words and records those are left whose words
meet a query and whose records pass its filter. -/
theorem SameRows.exists_kept {db : Database} {e : Export} {names : List String}
    {pairs : List (Part × List String)} {b : Backend} {q : Query} {filter : RowFilter}
    {plans : List ConditionPlan} (h : SameRows db e names pairs)
    (hcatalog : b.catalog = .relational db.schema) (hschema : b.schema = db.schema)
    (hposx : b.posx = false) (hform : "form" ∈ e.columnNamesOf)
    (hnames : ∀ p ∈ q.predicates, p.field ∈ names)
    (hadmits : ∀ p ∈ q.predicates, (Catalog.columnar e.columnNamesOf).Admits p)
    (hq : q.Comparable e) (hplans : q.predicates.mapM b.plan = .ok plans)
    (hfilter : RowFilter.compileSteps (.columnar e.columnNamesOf) q = .ok filter) :
    ∃ kept : List (Part × List String), (∀ pair ∈ kept, pair ∈ pairs) ∧
      (db.matching b q).Perm (kept.map (·.1)) ∧
      (e.typedRows.filter (filter.passes e.columnNamesOf)).Perm
        (kept.map fun pair ↦ e.typedRow pair.2) := by
  have hpasses : ∀ pair ∈ pairs, filter.passes e.columnNamesOf (e.typedRow pair.2)
      = q.predicates.all (db.meets b pair.1) := by
    intro pair hpair
    exact (h.same pair hpair).passes_eq (h.mem_words hpair) (h.mem_records hpair) hcatalog hschema
      hposx hform hnames hadmits hq hplans hfilter
  obtain ⟨hwords, hrows⟩ := h.perm_filter (fun w ↦ q.predicates.all (db.meets b w))
    (filter.passes e.columnNamesOf) hpasses
  exact ⟨_, fun pair hpair ↦ (List.mem_filter.mp hpair).1, hwords.symm, hrows.symm⟩

/-- **Rows in the same order.** Let a relational corpus, without combined tags, and an export hold
the same rows, and let a query without a top be read by both. If it is ordered by a count, and no
two of the words that meet it tie, both answer. Their rows are those words: the ones with a count,
strictly in the direction of the order, and at most one without it. The export puts that one last,
the relational corpus puts it first in ascending and last in descending order. So the answers have
the same rows in the same order, whatever the limit, in descending order, and in ascending order
where no word lacks its count. -/
theorem same_order_of_query {db : Database} {e : Export} {totals : Totals} {c : Corpus}
    {fc : FlatCorpus} {settings : QuerySettings} {input : String} {q : Query} {st : Statement}
    {f : Field} {r : Relation} {pairs : List (Part × List String)}
    (hopen : Corpus.ofDatabase db = .ok c) (hopenFlat : FlatCorpus.ofExport e totals = .ok fc)
    (hlayout : db.FollowsLayout) (hnamed : db.WellNamed) (hreadable : e.Readable)
    (hsame : SameRows db e (Catalog.resolve settings.orderBy :: q.predicates.map (·.field)) pairs)
    (hread : Query.read c.catalog c.totals input = .ok q)
    (hreadFlat : Query.read fc.catalog fc.totals input = .ok q) (htop : q.top = none)
    (hq : q.Comparable e) (hposx : (c.backend settings).posx = false)
    (hcompile : (c.backend settings).compile q = .ok st)
    (hfault : c.database.fault? st.select = none)
    (horder : c.catalog.lookup? settings.orderBy = some f) (hnumeric : f.kind = .numeric)
    (hr : f.relation = some r) (hcolumn : Catalog.resolve settings.orderBy ∈ e.columnNamesOf)
    (hties : ((db.matching (c.backend settings) q).map (db.number? f r)).Nodup) :
    ∃ t t' missing ranked, c.query input settings = .ok t ∧ fc.query input settings = .ok t' ∧
      (ranked ++ missing).Perm (db.matching (c.backend settings) q) ∧
      (∀ w ∈ missing, db.number? f r w = none) ∧ missing.length ≤ 1 ∧
      (ranked.Pairwise fun v w ↦ ∃ x y, db.number? f r v = some x ∧ db.number? f r w = some y ∧
        Ranking.Precedes settings.ascending x y) ∧
      t.sequence = ((if settings.ascending then missing ++ ranked else ranked ++ missing).map
        Part.identity).take settings.rowLimit ∧
      t'.sequence = ((ranked ++ missing).map Part.identity).take settings.rowLimit ∧
      (settings.ascending = false ∨ missing = [] → t.sequence = t'.sequence) := by
  obtain ⟨rfl, hschema, hcatalog⟩ := Corpus.eq_of_ofDatabase hopen
  obtain ⟨hform, rfl, hcatalogFlat⟩ := FlatCorpus.eq_of_ofExport hopenFlat
  obtain ⟨hnonempty, -⟩ := Backend.exists_assemble_of_compile hcompile
  -- The export compiles what it could read.
  have hadmits : ∀ p ∈ q.predicates, (Catalog.columnar fc.source.columnNamesOf).Admits p := by
    rw [← hcatalogFlat]
    exact fun p hp ↦ Query.admits_of_mem_read hreadFlat hp
  obtain ⟨filter, hfilter⟩ :=
    RowFilter.exists_compileSteps_eq_ok (Catalog.closed_columnar _) hadmits
  have hcompileFlat : RowFilter.compile fc.catalog q = .ok filter := by
    rw [RowFilter.compile, hnonempty, hcatalogFlat]
    exact hfilter
  have hbackend : (c.backend settings).catalog = .relational (c.backend settings).schema := by
    rw [Corpus.backend, hcatalog, hschema]
  obtain ⟨plans, a, hplans, -⟩ := Backend.exists_select_of_compile hbackend hcompile
  obtain ⟨kept, hkept, hwords, hrows⟩ := hsame.exists_kept hcatalog hschema hposx hform
    (fun p hp ↦ List.mem_cons_of_mem _ (List.mem_map_of_mem hp)) hadmits hq hplans hfilter
  -- The field of the order is a count, and the export holds it in the column of its name.
  have hf : (Catalog.relational c.database.schema).get? (Catalog.resolve settings.orderBy)
      = some f := hcatalog ▸ horder
  obtain ⟨hrelative, -⟩ := Backend.order_of_compile hcompile horder hr
  obtain ⟨-, -, hcount⟩ := Catalog.numeric_of_mem_relational f (Catalog.mem_of_get? hf) hnumeric
  have hg := Catalog.get?_columnar_count (Catalog.name_of_get? hf ▸ hcount hrelative) hcolumn
  have hnumber : ∀ pair ∈ pairs, SameNumber ((c.database.companion pair.1 r).datum f.column)
      (fc.source.readCell pair.2 (Catalog.resolve settings.orderBy)) :=
    fun pair hpair ↦ hsame.sameNumber List.mem_cons_self hf hr hnumeric hg hpair
  have hkeys : ((kept.map (·.1)).map (c.database.number? f r)).Nodup :=
    (hwords.map _).nodup_iff.mp hties
  obtain ⟨t, ht, hsequence⟩ := hsame.exists_query_eq_ok hopen hlayout hnamed hposx hread htop
    hcompile hfault horder hnumeric hr (hsame.counted hnumber) hwords hkeys
  obtain ⟨t', ht', hsequence'⟩ := hsame.exists_flat_query_eq_ok hopenFlat hreadable hreadFlat htop
    hcompileFlat hcolumn hkept hrows (fun pair hpair ↦ hnumber pair (hkept pair hpair)) hkeys
  rw [Ranking.arranged] at hsequence
  rw [Ranking.arranged, if_pos rfl] at hsequence'
  refine ⟨t, t', Ranking.missing (c.database.number? f r) (kept.map (·.1)),
    Ranking.ranked settings.ascending (c.database.number? f r) (kept.map (·.1)), ht, ht',
    Ranking.perm_ranked_missing.trans hwords.symm, fun w hw ↦ Ranking.eq_none_of_mem_missing hw,
    Ranking.length_missing_le_one hkeys, Ranking.pairwise_ranked hkeys, ?_, hsequence', ?_⟩
  · rw [hsequence]
    cases settings.ascending <;> rfl
  · intro hagree
    rw [hsequence, hsequence']
    rcases hagree with hdescending | hnone
    · rw [hdescending]
      rfl
    · rw [hnone, List.append_nil]
      cases settings.ascending <;> rfl

/-! ## A word without a count -/

/-- A corpus of three words, one of them without a frequency. -/
def unevenDatabase : Database where
  tables := [
    { name := "wordfreqs"
      columns := [⟨"lemma", .text⟩, ⟨"form", .text⟩, ⟨"pos", .text⟩, ⟨"frequency", .numeric⟩]
      rows := [
        [.text "olla", .text "on", .text "VERB", .int 90],
        [.text "talo", .text "talo", .text "NOUN", .null],
        [.text "kuu", .text "kuun", .text "NOUN", .int 7]] }]

/-- The cells of an export of these words. -/
def unevenCells : List (List String) :=
  [["olla", "on", "VERB", "90"], ["talo", "talo", "NOUN", ""], ["kuu", "kuun", "NOUN", "7"]]

/-- An export of these words. -/
def unevenExport : Export where
  path := "export.csv"
  format := {}
  records := (["lemma", "form", "pos", "frequency"] :: unevenCells).map .ofTexts
  columns := [⟨"lemma", .text, 0⟩, ⟨"form", .text, 1⟩, ⟨"pos", .text, 2⟩, ⟨"frequency", .int, 3⟩]

/-- The words with their records. -/
def unevenPairs : List (Part × List String) := unevenDatabase.words.zip unevenCells

/-- All words but one that is not there. -/
def unevenQuery : Query where
  predicates := [⟨"form", .equal, .text "ja", true⟩]

/-- Settings for either direction. -/
def unevenSettings (ascending : Bool) : QuerySettings := { ascending, posx := false }

/-- The statement for the words. -/
def unevenStatement (ascending : Bool) : Statement where
  select := {
    items := ["lemma", "form", "pos", "frequency"].map fun column ↦ { expr := .of "w" column }
    sources := [{ table := { table := "wordfreqs" }, aliasName := some "w" }]
    condition := some (Sql.Expr.negate (.binary (.of "w" "form") .eq (.value (.text "ja"))))
    order := [{
      expr := .of "w" "frequency"
      direction := some (if ascending then .ascending else .descending) }]
    limit := some 10000 }
  indexHint := none
  limit := 10000
  posx := false

theorem schema_unevenDatabase : unevenDatabase.schema
    = { tables := [("wordfreqs", ["lemma", "form", "pos", "frequency"])] } := by
  have hnil : List.mergeSort ([] : List String) = [] := List.mergeSort_nil
  exact congrArg (Schema.mk _) hnil

theorem dataRecords_unevenExport :
    Export.dataRecords unevenExport.format unevenExport.records = unevenCells.map .ok := by
  decide

theorem readable_unevenExport : unevenExport.Readable :=
  Export.readable_of_dataRecords_eq unevenCells dataRecords_unevenExport

theorem wellNamed_unevenDatabase : unevenDatabase.WellNamed where
  tables := by decide
  columns := by decide

theorem followsLayout_unevenDatabase : unevenDatabase.FollowsLayout where
  features := by decide
  lemmas := by decide
  ngrams := by decide
  satellites := by
    have hnone : ∀ e ∈ Catalog.satelliteColumns, ∀ w ∈ unevenDatabase.words,
        (unevenDatabase.hanging w e.2 e.2.aliasName).length = 0 := by decide
    intro column r hcolumn w hw v
    have hnil := hnone _ (Catalog.mem_satelliteColumns hcolumn) w hw
    rw [List.length_eq_zero_iff.mp hnil]
    exact Nat.zero_le 1

theorem Part.HoldsText.of_hasText {p : Part} {column : String} {v : Value}
    (h : p.hasText column = true) (hv : (p.datum column).toValue = v) : p.HoldsText column v := by
  obtain ⟨s, hs⟩ := column?_of_hasText h
  rw [datum, hs] at hv
  subst hv
  exact ⟨.text s, .text, hs, rfl⟩

theorem holdsText_uneven {pair : Part × List String} (hpair : pair ∈ unevenPairs) {name : String}
    (hname : name ∈ ["lemma", "form", "pos"]) :
    name ∈ unevenExport.columnNamesOf ∧
      pair.1.HoldsText name (unevenExport.readCell pair.2 name) := by
  have htexts : ∀ pair ∈ unevenPairs, ∀ name ∈ ["lemma", "form", "pos"],
      name ∈ unevenExport.columnNamesOf ∧ pair.1.hasText name = true ∧
        (pair.1.datum name).toValue = unevenExport.readCell pair.2 name := by decide
  obtain ⟨hcolumn, htext, hread⟩ := htexts pair hpair name hname
  exact ⟨hcolumn, .of_hasText htext hread⟩

theorem sameNumber_uneven {pair : Part × List String} (hpair : pair ∈ unevenPairs) :
    SameNumber ((unevenDatabase.companion pair.1 .facts).datum "frequency")
      (unevenExport.readCell pair.2 "frequency") := by
  have hcounts : ∀ pair ∈ unevenPairs,
      (unevenDatabase.companion pair.1 .facts).datum "frequency"
          = .ofValue (unevenExport.readCell pair.2 "frequency") ∧
        (unevenExport.readCell pair.2 "frequency" = .null ∨
          (unevenExport.readCell pair.2 "frequency").size?.isSome = true) := by decide
  obtain ⟨hdatum, hnumber⟩ := hcounts pair hpair
  rw [hdatum]
  exact .of_ofValue hnumber

theorem get?_frequency_uneven :
    (Catalog.relational unevenDatabase.schema).get? "frequency"
        = some (Catalog.factField .numeric "frequency") ∧
      (Catalog.columnar unevenExport.columnNamesOf).get? "frequency"
        = some (Catalog.flatField .numeric "frequency") := by
  rw [schema_unevenDatabase]
  decide

theorem get?_form_uneven :
    (Catalog.relational unevenDatabase.schema).get? "form"
        = some (Catalog.factField .text "form") ∧
      (Catalog.columnar unevenExport.columnNamesOf).get? "form"
        = some (Catalog.flatField .text "form") := by
  rw [schema_unevenDatabase]
  decide

theorem sameWord_uneven {pair : Part × List String} (hpair : pair ∈ unevenPairs) :
    SameWord unevenDatabase unevenExport ["frequency", "form"] pair.1 pair.2 := by
  constructor
  case key =>
    have hfeats : ∀ pair ∈ unevenPairs,
        "feats" ∉ unevenExport.columnNamesOf ∧ pair.1.column? "feats" = none := by decide
    intro name hname
    have hsplit : name ∈ ["lemma", "form", "pos"] ++ ["feats"] := hname
    rcases List.mem_append.mp hsplit with hname | hname
    · exact .inl (holdsText_uneven hpair hname)
    · obtain rfl := List.mem_singleton.mp hname
      exact .inr (hfeats pair hpair)
  case reversed =>
    rw [schema_unevenDatabase]
    intro hreversed
    cases hreversed
  case field =>
    intro name hname f r g hf hr hg
    simp only [List.mem_cons, List.not_mem_nil, or_false] at hname
    rcases hname with rfl | rfl
    · obtain rfl := Option.some.inj (get?_frequency_uneven.1.symm.trans hf)
      obtain rfl := Option.some.inj (get?_frequency_uneven.2.symm.trans hg)
      obtain rfl := Option.some.inj hr
      exact .number rfl rfl (sameNumber_uneven hpair)
    · obtain rfl := Option.some.inj (get?_form_uneven.1.symm.trans hf)
      obtain rfl := Option.some.inj (get?_form_uneven.2.symm.trans hg)
      obtain rfl := Option.some.inj hr
      obtain ⟨-, hholds⟩ := holdsText_uneven hpair (by decide : "form" ∈ ["lemma", "form", "pos"])
      exact .text (by decide) (by decide) hholds hholds.text rfl fun s hs ↦
        (Option.some_ne_none s hs.symm).elim

theorem sameRows_uneven (ascending : Bool) : SameRows unevenDatabase unevenExport
    (Catalog.resolve (unevenSettings ascending).orderBy :: unevenQuery.predicates.map (·.field))
    unevenPairs where
  words := .of_eq rfl
  records := by
    rw [Export.dataCells, dataRecords_unevenExport]
    exact .of_eq rfl
  present := by decide
  columns := by
    rw [schema_unevenDatabase]
    decide
  same := by
    have hnames : Catalog.resolve (unevenSettings ascending).orderBy
        :: unevenQuery.predicates.map (·.field) = ["frequency", "form"] := by
      cases ascending <;> decide
    rw [hnames]
    exact fun pair hpair ↦ sameWord_uneven hpair

theorem exists_unevenCorpora : ∃ c fc, Corpus.ofDatabase unevenDatabase = .ok c ∧
    FlatCorpus.ofExport unevenExport {} = .ok fc ∧
    (∀ ascending, c.catalog.lookup? (unevenSettings ascending).orderBy
      = some (Catalog.factField .numeric "frequency")) ∧
    Query.read c.catalog c.totals "form != ja" = .ok unevenQuery ∧
    Query.read fc.catalog fc.totals "form != ja" = .ok unevenQuery ∧
    ∀ ascending, (c.backend (unevenSettings ascending)).posx = false ∧
      (c.backend (unevenSettings ascending)).compile unevenQuery
        = .ok (unevenStatement ascending) ∧
      c.database.fault? (unevenStatement ascending).select = none ∧
      (unevenDatabase.matching (c.backend (unevenSettings ascending)) unevenQuery)
        = unevenDatabase.words := by
  have hok : (Corpus.ofDatabase unevenDatabase).isOk = true := by decide
  obtain ⟨c, hopen⟩ := exists_of_isOk hok
  obtain ⟨hdatabase, hschema, hcatalog⟩ := Corpus.eq_of_ofDatabase hopen
  have hbackend (ascending : Bool) : c.backend (unevenSettings ascending)
      = ⟨.relational unevenDatabase.schema, unevenDatabase.schema, unevenSettings ascending⟩ := by
    rw [Corpus.backend, hcatalog, hschema]
  refine ⟨c, ⟨unevenExport, .columnar unevenExport.columnNamesOf, {}⟩, hopen, rfl,
    fun ascending ↦ ?_, ?_, rfl, fun ascending ↦ ?_⟩
  · rw [hcatalog, schema_unevenDatabase]
    cases ascending
    · decide
    · decide
  · rw [hcatalog, schema_unevenDatabase]
    rfl
  · rw [hbackend, hdatabase, schema_unevenDatabase]
    refine ⟨by cases ascending <;> decide, by cases ascending <;> rfl,
      by cases ascending <;> decide, List.filter_eq_self.mpr ?_⟩
    cases ascending
    · decide
    · decide

/-- The frequency of a word. -/
def unevenNumber? : Part → Option (WithBot (WithTop ℤ)) :=
  unevenDatabase.number? (Catalog.factField .numeric "frequency") .facts

theorem nodup_unevenNumbers : (unevenDatabase.words.map unevenNumber?).Nodup := by decide +kernel

theorem counted_uneven : ∀ w ∈ unevenDatabase.words, ((unevenDatabase.companion w .facts).datum
    (Catalog.factField .numeric "frequency").column).Counted :=
  (sameRows_uneven true).counted fun _ ↦ sameNumber_uneven

/-- The filter for the words. -/
def unevenFilter : RowFilter :=
  ⟨[⟨"form", .not (.compare (.column "form") .equal (.literal (.text "ja")))⟩]⟩

/-- The words and their records by ascending frequency, the one without a frequency last. -/
def unevenKept : List (Part × List String) := unevenPairs.drop 2 ++ unevenPairs.take 2

theorem perm_unevenKept : unevenKept.Perm unevenPairs :=
  List.perm_append_comm.trans (.of_eq (List.take_append_drop 2 unevenPairs))

theorem comparable_unevenQuery : unevenQuery.Comparable unevenExport where
  pattern := by decide
  percent := by
    intro p hp hlike
    obtain rfl := List.mem_singleton.mp hp
    cases hlike
  single := by
    intro p hp g hg
    obtain rfl := List.mem_singleton.mp hp
    obtain rfl := Option.some.inj (get?_form_uneven.2.symm.trans hg)
    decide
  reach := by
    intro p hp x hx
    obtain rfl := List.mem_singleton.mp hp
    cases hx

theorem perm_unevenRows : (unevenExport.typedRows.filter
    (unevenFilter.passes unevenExport.columnNamesOf)).Perm
      (unevenKept.map fun pair ↦ unevenExport.typedRow pair.2) := by
  have hrows : unevenExport.typedRows
      = unevenPairs.map fun pair ↦ unevenExport.typedRow pair.2 := by
    rw [Export.typedRows, Export.dataCells, dataRecords_unevenExport]
    rfl
  have hpasses : (unevenPairs.map fun pair ↦ unevenExport.typedRow pair.2).filter
      (unevenFilter.passes unevenExport.columnNamesOf)
        = unevenPairs.map fun pair ↦ unevenExport.typedRow pair.2 :=
    List.filter_eq_self.mpr (by decide)
  rw [hrows, hpasses]
  exact (perm_unevenKept.map _).symm

theorem arranged_uneven (missingLast : Bool) :
    (Ranking.arranged true missingLast unevenNumber? (unevenKept.map (·.1))).map Part.identity
      = if missingLast then
          [⟨"kuu", "kuun", "NOUN", ""⟩, ⟨"olla", "on", "VERB", ""⟩, ⟨"talo", "talo", "NOUN", ""⟩]
        else
          [⟨"talo", "talo", "NOUN", ""⟩, ⟨"kuu", "kuun", "NOUN", ""⟩,
            ⟨"olla", "on", "VERB", ""⟩] := by
  have hranked : Ranking.ranked true unevenNumber? (unevenKept.map (·.1))
      = (unevenKept.map (·.1)).filter fun w ↦ (unevenNumber? w).isSome :=
    List.mergeSort_of_pairwise (by decide +kernel)
  rw [Ranking.arranged, hranked]
  cases missingLast
  · decide
  · decide

/-- In descending order the word without a frequency is last on both sides. -/
theorem same_order_of_uneven : ∃ c fc t t', Corpus.ofDatabase unevenDatabase = .ok c ∧
    FlatCorpus.ofExport unevenExport {} = .ok fc ∧
    c.query "form != ja" (unevenSettings false) = .ok t ∧
    fc.query "form != ja" (unevenSettings false) = .ok t' ∧ t.sequence = t'.sequence := by
  obtain ⟨c, fc, hopen, hopenFlat, hcatalog, hread, hreadFlat, hstatement⟩ := exists_unevenCorpora
  obtain ⟨hposx, hcompile, hfault, hmatching⟩ := hstatement false
  have hties : ((unevenDatabase.matching (c.backend (unevenSettings false)) unevenQuery).map
      unevenNumber?).Nodup := hmatching ▸ nodup_unevenNumbers
  obtain ⟨t, t', missing, ranked, ht, ht', -, -, -, -, -, -, hsame⟩ :=
    same_order_of_query hopen hopenFlat followsLayout_unevenDatabase wellNamed_unevenDatabase
      readable_unevenExport (sameRows_uneven false) hread hreadFlat rfl comparable_unevenQuery hposx
      hcompile hfault (hcatalog false) rfl rfl (by decide) hties
  exact ⟨c, fc, t, t', hopen, hopenFlat, ht, ht', hsame (.inl rfl)⟩

/-- **Two orders.** In ascending order the word without a frequency is first in the answer of the
relational corpus and last in that of the export, although both hold the same rows and no two of
them tie. -/
theorem orders_differ_of_uneven : ∃ c fc t t', Corpus.ofDatabase unevenDatabase = .ok c ∧
    FlatCorpus.ofExport unevenExport {} = .ok fc ∧
    unevenDatabase.FollowsLayout ∧ unevenDatabase.WellNamed ∧ unevenExport.Readable ∧
    SameRows unevenDatabase unevenExport
      (Catalog.resolve (unevenSettings true).orderBy :: unevenQuery.predicates.map (·.field))
      unevenPairs ∧
    Query.read c.catalog c.totals "form != ja" = .ok unevenQuery ∧
    Query.read fc.catalog fc.totals "form != ja" = .ok unevenQuery ∧
    unevenQuery.Comparable unevenExport ∧ (c.backend (unevenSettings true)).posx = false ∧
    c.catalog.lookup? (unevenSettings true).orderBy
      = some (Catalog.factField .numeric "frequency") ∧
    (unevenDatabase.words.map unevenNumber?).Nodup ∧
    c.query "form != ja" (unevenSettings true) = .ok t ∧
    fc.query "form != ja" (unevenSettings true) = .ok t' ∧
    t.sequence
      = [⟨"talo", "talo", "NOUN", ""⟩, ⟨"kuu", "kuun", "NOUN", ""⟩, ⟨"olla", "on", "VERB", ""⟩] ∧
    t'.sequence = [⟨"kuu", "kuun", "NOUN", ""⟩, ⟨"olla", "on", "VERB", ""⟩,
      ⟨"talo", "talo", "NOUN", ""⟩] := by
  obtain ⟨c, fc, hopen, hopenFlat, hcatalog, hread, hreadFlat, hstatement⟩ := exists_unevenCorpora
  obtain ⟨hposx, hcompile, hfault, hmatching⟩ := hstatement true
  obtain ⟨-, hsource, hcatalogFlat⟩ := FlatCorpus.eq_of_ofExport hopenFlat
  have hkeys : ((unevenKept.map (·.1)).map unevenNumber?).Nodup :=
    ((perm_unevenKept.map _).map _).nodup_iff.mpr nodup_unevenNumbers
  have hwords : (unevenDatabase.matching (c.backend (unevenSettings true)) unevenQuery).Perm
      (unevenKept.map (·.1)) := by
    rw [hmatching]
    exact (sameRows_uneven true).words.symm.trans (perm_unevenKept.map _).symm
  obtain ⟨t, ht, hsequence⟩ := (sameRows_uneven true).exists_query_eq_ok hopen
    followsLayout_unevenDatabase wellNamed_unevenDatabase hposx hread rfl hcompile hfault
    (hcatalog true) rfl rfl counted_uneven hwords hkeys
  have hcompileFlat : RowFilter.compile fc.catalog unevenQuery = .ok unevenFilter := by
    rw [hcatalogFlat]
    rfl
  have hrows : (fc.matchingRows unevenFilter).Perm
      (unevenKept.map fun pair ↦ unevenExport.typedRow pair.2) := by
    rw [FlatCorpus.matchingRows, hsource]
    exact perm_unevenRows
  have hcolumn : Catalog.resolve (unevenSettings true).orderBy ∈ unevenExport.columnNamesOf := by
    decide
  have hname : Catalog.resolve (unevenSettings true).orderBy = "frequency" := by decide
  have hnumber : ∀ pair ∈ unevenKept,
      SameNumber ((unevenDatabase.companion pair.1 .facts).datum
          (Catalog.factField .numeric "frequency").column)
        (unevenExport.readCell pair.2 (Catalog.resolve (unevenSettings true).orderBy)) := by
    rw [hname]
    exact fun pair hpair ↦ sameNumber_uneven (perm_unevenKept.subset hpair)
  obtain ⟨t', ht', hsequence'⟩ := (sameRows_uneven true).exists_flat_query_eq_ok hopenFlat
    readable_unevenExport hreadFlat rfl hcompileFlat hcolumn perm_unevenKept.subset hrows hnumber
    hkeys
  refine ⟨c, fc, t, t', hopen, hopenFlat, followsLayout_unevenDatabase, wellNamed_unevenDatabase,
    readable_unevenExport, sameRows_uneven true, hread, hreadFlat, comparable_unevenQuery, hposx,
    hcatalog true, nodup_unevenNumbers, ht, ht', ?_, ?_⟩
  · exact hsequence.trans (congrArg (List.take _) (arranged_uneven false))
  · exact hsequence'.trans (congrArg (List.take _) (arranged_uneven true))

end CorpusQuery

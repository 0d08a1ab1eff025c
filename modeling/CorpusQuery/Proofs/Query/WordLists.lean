import CorpusQuery.Corpus
import CorpusQuery.Proofs.Query.Filtering
import CorpusQuery.Proofs.Selection.Distinct
import CorpusQuery.Proofs.Selection.Joined
import CorpusQuery.Proofs.Table.Finishing

/-!
# Which rows a list of word forms loses

A list of word forms is queried in two passes. The statement selects the rows of these forms, and
the query filters the table they are finished to. The limit on rows stands in the statement, so it
counts rows before the query has looked at them: a row that the query asks for is lost when enough
others come before it, even if the query keeps none of those.

This is the only way to lose one. A row of the facts table with the rows it is joined with is
selected if its form is in the list; being finished and being filtered depend on the row alone, as
long as no copies are merged; and a filter that could be read neither fails to compile nor fails on
a row.

## Main statements

* `matching_row_kept_or_cut`: what becomes of the rows of the given word forms.
* `matching_row_lost`: a row that is lost to one that the query does not want.
-/

namespace CorpusQuery

open Sql (Datum Expr)
open Assembly (lookups)

/-! ## Rows of given word forms -/

theorem Sql.Datum.equals_self (a : Sql.Affinity) {d : Datum} (h : d.isNull = false) :
    d.equals a d = true := by
  have hdrawn : ∃ e, drawn a d d = (e, e) := by
    rw [drawn]
    split
    · exact ⟨_, rfl⟩
    · split
      · exact ⟨_, rfl⟩
      · exact ⟨_, rfl⟩
  obtain ⟨e, he⟩ := hdrawn
  rw [equals, compareAs, h, he]
  exact beq_iff_eq.mpr (congrArg some (order_self e))

namespace Part

/-- Whether the form of a row is in a list, as the database compares forms. -/
def formIn (words : List String) (w : Part) : Bool :=
  words.any fun word ↦ w.columnIs "form" (.text word)

theorem formIn_of_text {words : List String} {w : Part} {a : Sql.Affinity} {word : String}
    (hform : w.column? "form" = some ⟨a, .text word⟩) (hword : word ∈ words) :
    w.formIn words = true := by
  refine List.any_eq_true.mpr ⟨word, hword, ?_⟩
  rw [columnIs, hform]
  exact Datum.equals_self a rfl

end Part

namespace Database

variable {db : Database} {b : Backend} {words : List String} {st : Statement}

/-- **Selected rows.** The statement for word forms combines every row of the facts table with the
rows of other tables, and the condition holds for the combination if the form is in the list. -/
theorem satisfies_words (hcatalog : b.catalog = .relational b.schema)
    (hcompile : b.compileWords words = .ok st) {c : Combination} (hc : c ∈ db.joined st.select) :
    ∃ w ∈ db.words, ∃ added, c = w :: added ∧ satisfies st.select c = w.formIn words := by
  obtain ⟨a, hs⟩ := Backend.exists_select_of_compileWords hcatalog hcompile
  obtain ⟨index, hsource⟩ := hs.sources
  obtain ⟨w, hw, added, rfl, -⟩ := exists_of_mem_joined hsource hc
  have hword : w ∈ db.words := hw
  refine ⟨w, hword, added, rfl, ?_⟩
  have hseparate : Combination.Separate (w :: added) := separate_of_mem_joined hs hc
  have hscope (name : String) :
      Combination.scope (w :: added) ⟨some Relation.facts.aliasName, name⟩ = w.column? name :=
    aliasName_of_mem_words hword ▸ Combination.scope_of_mem hseparate List.mem_cons_self name
  have hcondition : st.select.condition
      = some (.inList (.of Relation.facts.aliasName "form")
        ((words.map Value.text).map .value) false) := by
    rw [hs.condition, List.map_map]
    rfl
  rw [satisfies, hcondition]
  refine (holds_inValues hscope "form" (words.map .text)).trans ?_
  rw [List.any_map]
  rfl

theorem mem_orderedRows_words (hcatalog : b.catalog = .relational b.schema)
    (hcompile : b.compileWords words = .ok st) {r : OutputRow} :
    r ∈ db.orderedRows st.select ↔ ∃ w ∈ db.words, w.formIn words = true ∧ ∃ added,
      w :: added ∈ db.joined st.select ∧ outputRow st.select (w :: added) = r := by
  obtain ⟨a, hs⟩ := Backend.exists_select_of_compileWords hcatalog hcompile
  have hdistinct : st.select.distinct = false := hs.distinct
  rw [orderedRows, hdistinct]
  simp only [Bool.false_eq_true, if_false, List.mem_mergeSort, List.mem_map, List.mem_filter]
  constructor
  · rintro ⟨c, ⟨hc, hsatisfies⟩, rfl⟩
    obtain ⟨w, hw, added, rfl, hform⟩ := satisfies_words hcatalog hcompile hc
    exact ⟨w, hw, hform ▸ hsatisfies, added, hc, rfl⟩
  · rintro ⟨w, -, hform, added, hc, rfl⟩
    obtain ⟨w', -, added', heq, hsatisfies⟩ := satisfies_words hcatalog hcompile hc
    obtain ⟨rfl, rfl⟩ := List.cons.inj heq
    exact ⟨w :: added, ⟨hc, hsatisfies.trans hform⟩, rfl⟩

end Database

namespace Database

variable {db : Database} {s : Sql.Select}

theorem mem_of_mem_takeLimit {α : Type} {limit : Option Nat} {rows : List α} {r : α}
    (h : r ∈ takeLimit limit rows) : r ∈ rows := by
  cases limit with
  | none => exact h
  | some n => exact List.mem_of_mem_take h

theorem length_of_mem_selectRows {cells : List Datum} (h : cells ∈ db.selectRows s) :
    cells.length = (db.columnNames s).length := by
  obtain ⟨r, hr, rfl⟩ := List.mem_map.mp h
  have hr : r ∈ db.orderedRows s := mem_of_mem_takeLimit hr
  have houtput : r ∈ ((db.joined s).filter (satisfies s)).map (outputRow s) := by
    rw [orderedRows, List.mem_mergeSort] at hr
    split at hr
    · exact mem_of_mem_distinctRows hr
    · exact hr
  obtain ⟨c, -, rfl⟩ := List.mem_map.mp houtput
  rw [outputRow, columnNames, List.length_map, List.length_map]

end Database

/-! ## Finished rows -/

namespace Corpus

variable {db : Database} {c : Corpus} {s : Statement} {settings : QuerySettings} {t : Table}

theorem eq_of_ofDatabase (h : ofDatabase db = .ok c) :
    c.database = db ∧ c.schema = db.schema ∧ c.catalog = .relational db.schema := by
  rw [ofDatabase] at h
  split at h
  · cases h
  · obtain ⟨totals, -, h⟩ := exists_of_bind_eq_ok h
    obtain rfl := Except.ok.inj h
    refine ⟨rfl, rfl, ?_⟩
    dsimp only

/-- What a selected row is shown as, finished on its own. -/
def shownRow (c : Corpus) (s : Statement) (settings : QuerySettings)
    (r : Database.OutputRow) : List Value :=
  Table.finishRow (c.database.columnNames s.select) (c.finishSteps s settings)
    (r.cells.map (·.toValue))

/-- What a combination of rows is shown as. -/
def shown (c : Corpus) (s : Statement) (settings : QuerySettings) (parts : Combination) :
    List Value :=
  c.shownRow s settings (Database.outputRow s.select parts)

theorem run_eq_ok (h : c.database.fault? s.select = none) (settings : QuerySettings) :
    c.run s settings = .ok (Table.finish ⟨c.database.columnNames s.select,
      (c.database.selectRows s.select).map (·.map (·.toValue))⟩ (c.finishSteps s settings)) := by
  rw [run, fetch, Database.select, h]
  rfl

theorem eq_finish_of_run (h : c.run s settings = .ok t) :
    t = Table.finish ⟨c.database.columnNames s.select,
      (c.database.selectRows s.select).map (·.map (·.toValue))⟩ (c.finishSteps s settings) := by
  rw [run, fetch, Database.select] at h
  cases hfault : c.database.fault? s.select with
  | some e =>
    rw [hfault] at h
    cases h
  | none =>
    rw [hfault] at h
    exact (Except.ok.inj h).symm

theorem rectangular_of_run (h : c.run s settings = .ok t) : t.Rectangular := by
  rw [eq_finish_of_run h]
  refine Table.Rectangular.finish (fun row hrow ↦ ?_) _
  obtain ⟨cells, hcells, rfl⟩ := List.mem_map.mp hrow
  rw [List.length_map]
  exact Database.length_of_mem_selectRows hcells

/-- Without merging, the rows of the table are the first of the selected rows, each as it is
shown. -/
theorem rows_of_run (hposx : s.posx = false) (h : c.run s settings = .ok t) :
    t.rows = (Database.takeLimit s.select.limit (c.database.orderedRows s.select)).map
      (c.shownRow s settings) := by
  have hlocal : ∀ step ∈ c.finishSteps s settings, step.Local := by
    intro step hstep
    rw [finishSteps, hposx] at hstep
    exact Table.local_of_mem_anchor_relative hstep
  rw [eq_finish_of_run h, Table.rows_finish hlocal, Database.selectRows, List.map_map,
    List.map_map]
  rfl

end Corpus

/-! ## Filtering what was selected -/

namespace Corpus

variable {db : Database} {c : Corpus} {settings : QuerySettings} {words : List String}
  {input : String} {s : Statement} {t : Table} {q : Query}

/-- What is there to be filtered: the first of the selected rows. -/
theorem rows_of_words (hposx : settings.posx = false)
    (hcompile : (c.backend settings).compileWords words = .ok s)
    (hrun : c.run s settings = .ok t) :
    t.rows = ((c.database.orderedRows s.select).take settings.rowLimit).map
      (c.shownRow s settings) := by
  have hmerge : (c.backend settings).posx = false := by
    rw [Backend.posx, backend, hposx]
    rfl
  obtain ⟨hlimit, hposx⟩ := Backend.limit_of_compileWords hcompile
  rw [rows_of_run (hposx.trans hmerge) hrun, hlimit, Backend.fetchLimit, hmerge]
  rfl

theorem exists_narrow_eq_ok (ht : t.Rectangular)
    (hread : Query.read (.columnar t.columns) c.totals input = .ok q) (htop : q.top = none) :
    ∃ f, RowFilter.compileSteps (.columnar t.columns) q = .ok f ∧
      c.narrow t input = .ok ⟨t.columns, t.rows.filter (f.passes t.columns)⟩ := by
  obtain ⟨f, hf⟩ := RowFilter.exists_compileSteps_eq_ok (Catalog.closed_columnar t.columns)
    fun p hp ↦ Query.admits_of_mem_read hread hp
  have hconditions := RowFilter.conditionsOn_of_compileSteps hf
  obtain ⟨kept, hkept⟩ := hconditions.exists_keepRows fun cells hcells ↦
    Nat.le_of_eq (ht cells hcells).symm
  obtain rfl := RowFilter.eq_filter_of_keepRows hkept
  refine ⟨f, hf, ?_⟩
  have hcompile : TableFilter.compile (.columnar t.columns) q = .ok ⟨f, none⟩ := by
    rw [TableFilter.compile, hf, htop]
    rfl
  have happly : TableFilter.apply ⟨f, none⟩ t
      = .ok ⟨t.columns, t.rows.filter (f.passes t.columns)⟩ := by
    rw [TableFilter.apply, RowFilter.apply, hkept]
    rfl
  simp only [narrow, hread, hcompile, happly]

end Corpus

/-- **Rows of given word forms.** Where the statement for the forms could be run and the query could
be read over the columns of its table, the answer is a table of rows of these forms that satisfy the
query. Such a row is missing only if the statement fetched as many rows as the limit allows, and
then it stands behind them in the order of the statement. -/
theorem matching_row_kept_or_cut {db : Database} {c : Corpus} {settings : QuerySettings}
    {words : List String} {input : String} {s : Statement} {t : Table} {q : Query}
    (hopen : Corpus.ofDatabase db = .ok c) (hposx : settings.posx = false)
    (hcompile : (c.backend settings).compileWords words = .ok s)
    (hrun : c.run s settings = .ok t)
    (hread : Query.read (.columnar t.columns) c.totals input = .ok q) (htop : q.top = none) :
    ∃ f result, RowFilter.compileSteps (.columnar t.columns) q = .ok f ∧
      c.queryWords words input settings = .ok result ∧ result.columns = t.columns ∧
      result.rows = (((db.orderedRows s.select).take settings.rowLimit).map
        (c.shownRow s settings)).filter (f.passes t.columns) ∧
      (∀ cells ∈ result.rows, ∃ w ∈ db.words, w.formIn words = true ∧
        ∃ added, w :: added ∈ db.joined s.select ∧ cells = c.shown s settings (w :: added)) ∧
      ∀ w ∈ db.words, w.formIn words = true → ∀ added, w :: added ∈ db.joined s.select →
        f.passes t.columns (c.shown s settings (w :: added)) = true →
        c.shown s settings (w :: added) ∈ result.rows ∨
          t.rows.length = settings.rowLimit ∧
            Database.outputRow s.select (w :: added)
              ∈ (db.orderedRows s.select).drop settings.rowLimit := by
  obtain ⟨rfl, hschema, hcatalog⟩ := Corpus.eq_of_ofDatabase hopen
  obtain ⟨f, hf, hnarrow⟩ :=
    Corpus.exists_narrow_eq_ok (Corpus.rectangular_of_run hrun) hread htop
  have hbackend : (c.backend settings).catalog = .relational (c.backend settings).schema := by
    rw [Corpus.backend, hcatalog, hschema]
  have hrows := Corpus.rows_of_words hposx hcompile hrun
  have hselected (r : Database.OutputRow) :
      r ∈ c.database.orderedRows s.select ↔ ∃ w ∈ c.database.words, w.formIn words = true ∧
        ∃ added, w :: added ∈ c.database.joined s.select ∧
          Database.outputRow s.select (w :: added) = r :=
    Database.mem_orderedRows_words hbackend hcompile
  refine ⟨f, ⟨t.columns, t.rows.filter (f.passes t.columns)⟩, hf, ?_, rfl,
    congrArg (List.filter _) hrows, ?_, ?_⟩
  · simp only [Corpus.queryWords, hcompile, hrun, hnarrow]
  · intro cells hcells
    have hcells : cells ∈ t.rows := (List.mem_filter.mp hcells).1
    rw [hrows] at hcells
    obtain ⟨r, hr, rfl⟩ := List.mem_map.mp hcells
    obtain ⟨w, hw, hform, added, hjoined, rfl⟩ := (hselected r).mp (List.mem_of_mem_take hr)
    exact ⟨w, hw, hform, added, hjoined, rfl⟩
  · intro w hw hform added hjoined hpasses
    have hordered : Database.outputRow s.select (w :: added) ∈ c.database.orderedRows s.select :=
      (hselected _).mpr ⟨w, hw, hform, added, hjoined, rfl⟩
    rw [← List.take_append_drop settings.rowLimit (c.database.orderedRows s.select)] at hordered
    rcases List.mem_append.mp hordered with htake | hdrop
    · refine .inl (List.mem_filter.mpr ⟨?_, hpasses⟩)
      rw [hrows]
      exact List.mem_map_of_mem htake
    · refine .inr ⟨?_, hdrop⟩
      -- Something is behind the limit, so the limit is reached.
      have hpositive := List.length_pos_of_mem hdrop
      rw [List.length_drop] at hpositive
      rw [hrows, List.length_map, List.length_take]
      omega

/-! ## A corpus of two words -/

/-- The row of a frequent verb. -/
def rankedVerb : List Datum := [.text "olla", .text "on", .text "VERB", .int 90]

/-- The row of a rare noun. -/
def rankedNoun : List Datum := [.text "talo", .text "talo", .text "NOUN", .int 7]

/-- A corpus of the verb and the noun. -/
def rankedDatabase : Database where
  tables := [
    { name := "wordfreqs"
      columns := [⟨"lemma", .text⟩, ⟨"form", .text⟩, ⟨"pos", .text⟩, ⟨"frequency", .numeric⟩]
      rows := [rankedVerb, rankedNoun] }]

/-- A word of that corpus. -/
def rankedWord (row : List Datum) : Part := ⟨"w", rankedDatabase.table "wordfreqs", some row⟩

/-- Settings under which one row is fetched. -/
def rankedSettings : QuerySettings := { rowLimit := 1, posx := false }

/-- The statement for both words. -/
def rankedStatement : Statement where
  select := {
    items := ["lemma", "form", "pos", "frequency"].map fun column ↦ { expr := .of "w" column }
    sources := [{ table := { table := "wordfreqs" }, aliasName := some "w" }]
    condition := some (.inList (.of "w" "form") [.value (.text "on"), .value (.text "talo")] false)
    order := [{ expr := .of "w" "frequency", direction := some .descending }]
    limit := some 1 }
  indexHint := none
  limit := 1
  posx := false

/-- What is fetched: the verb. -/
def rankedTable : Table where
  columns := ["lemma", "form", "pos", "frequency"]
  rows := [rankedVerb.map (·.toValue)]

theorem schema_rankedDatabase :
    rankedDatabase.schema = { tables := [("wordfreqs", rankedTable.columns)] } := by
  have hnil : List.mergeSort ([] : List String) = [] := List.mergeSort_nil
  exact congrArg (Schema.mk _) hnil

theorem orderedRows_rankedDatabase : rankedDatabase.orderedRows rankedStatement.select =
    [⟨[.int 90], rankedVerb⟩, ⟨[.int 7], rankedNoun⟩] := by
  have hrows : ((rankedDatabase.joined rankedStatement.select).filter
      (Database.satisfies rankedStatement.select)).map (Database.outputRow rankedStatement.select)
      = [⟨[.int 90], rankedVerb⟩, ⟨[.int 7], rankedNoun⟩] := rfl
  rw [Database.orderedRows, hrows]
  exact List.mergeSort_of_pairwise (by decide)

theorem exists_rankedCorpus : ∃ c, Corpus.ofDatabase rankedDatabase = .ok c ∧
    (c.backend rankedSettings).compileWords ["on", "talo"] = .ok rankedStatement ∧
    c.run rankedStatement rankedSettings = .ok rankedTable ∧
    c.shown rankedStatement rankedSettings [rankedWord rankedVerb]
      = rankedVerb.map (·.toValue) ∧
    c.shown rankedStatement rankedSettings [rankedWord rankedNoun]
      = rankedNoun.map (·.toValue) := by
  have hok : (Corpus.ofDatabase rankedDatabase).isOk = true := rfl
  obtain ⟨c, hopen⟩ := exists_of_isOk hok
  obtain ⟨hdatabase, hschema, hcatalog⟩ := Corpus.eq_of_ofDatabase hopen
  have hbackend : c.backend rankedSettings
      = ⟨.relational rankedDatabase.schema, rankedDatabase.schema, rankedSettings⟩ := by
    rw [Corpus.backend, hcatalog, hschema]
  have horder : (c.backend rankedSettings).orderField
      = .ok (Catalog.factField .numeric "frequency", .facts) := by
    rw [hbackend, schema_rankedDatabase]
    rfl
  have hfault : rankedDatabase.fault? rankedStatement.select = none := rfl
  refine ⟨c, hopen, ?_, ?_, ?_, ?_⟩
  · rw [Backend.compileWords, Backend.assemble, horder, hbackend, schema_rankedDatabase]
    rfl
  · rw [Corpus.run, Corpus.fetch, hdatabase, Database.select, hfault, Database.selectRows,
      orderedRows_rankedDatabase]
    rfl
  · rw [Corpus.shown, Corpus.shownRow, hdatabase]
    rfl
  · rw [Corpus.shown, Corpus.shownRow, hdatabase]
    rfl

/-- Where verbs are asked for, the verb is kept; the noun is cut, but is not asked for. -/
theorem verb_kept : ∃ c result, Corpus.ofDatabase rankedDatabase = .ok c ∧
    c.queryWords ["on", "talo"] "pos = verb" rankedSettings = .ok result ∧
    rankedVerb.map (·.toValue) ∈ result.rows := by
  obtain ⟨c, hopen, hcompile, hrun, hverb, -⟩ := exists_rankedCorpus
  have hread : Query.read (.columnar rankedTable.columns) c.totals "pos = verb"
      = .ok { predicates := [⟨"pos", .equal, .text "VERB", false⟩] } := rfl
  obtain ⟨f, result, hf, hquery, -, -, -, hkept⟩ :=
    matching_row_kept_or_cut hopen rfl hcompile hrun hread rfl
  obtain ⟨hdatabase, -, -⟩ := Corpus.eq_of_ofDatabase hopen
  have hfilter : RowFilter.compileSteps (.columnar rankedTable.columns)
      { predicates := [⟨"pos", .equal, .text "VERB", false⟩] }
        = .ok ⟨[⟨"pos", .compare (.column "pos") .equal (.literal (.text "VERB"))⟩]⟩ := rfl
  obtain rfl := Except.ok.inj (hf.symm.trans hfilter)
  have hform : (rankedWord rankedVerb).formIn ["on", "talo"] = true :=
    Part.formIn_of_text rfl List.mem_cons_self
  have hcut := hkept (rankedWord rankedVerb) List.mem_cons_self hform [] List.mem_cons_self
    (by rw [hverb]; rfl)
  rw [hverb, orderedRows_rankedDatabase] at hcut
  refine ⟨c, result, hopen, hquery, hcut.resolve_right ?_⟩
  rintro ⟨-, hdrop⟩
  have hkeys : (Database.outputRow rankedStatement.select [rankedWord rankedVerb]).keys
      = [.int 7] := congrArg (·.keys) (List.mem_singleton.mp hdrop)
  exact absurd hkeys (by decide +kernel)

/-- Where nouns are asked for, the noun is lost to the verb: its form is in the list and its cells
satisfy the query, but the table comes back empty, though there is room for a row. -/
theorem matching_row_lost : ∃ c q f result, Corpus.ofDatabase rankedDatabase = .ok c ∧
    rankedSettings.posx = false ∧
    (c.backend rankedSettings).compileWords ["on", "talo"] = .ok rankedStatement ∧
    c.run rankedStatement rankedSettings = .ok rankedTable ∧
    Query.read (.columnar rankedTable.columns) c.totals "pos = noun" = .ok q ∧ q.top = none ∧
    RowFilter.compileSteps (.columnar rankedTable.columns) q = .ok f ∧
    rankedWord rankedNoun ∈ rankedDatabase.words ∧
    (rankedWord rankedNoun).formIn ["on", "talo"] = true ∧
    [rankedWord rankedNoun] ∈ rankedDatabase.joined rankedStatement.select ∧
    f.passes rankedTable.columns
      (c.shown rankedStatement rankedSettings [rankedWord rankedNoun]) = true ∧
    c.queryWords ["on", "talo"] "pos = noun" rankedSettings = .ok result ∧
    c.shown rankedStatement rankedSettings [rankedWord rankedNoun] ∉ result.rows ∧
    result.rows.length < rankedSettings.rowLimit := by
  obtain ⟨c, hopen, hcompile, hrun, -, hnoun⟩ := exists_rankedCorpus
  have hread : Query.read (.columnar rankedTable.columns) c.totals "pos = noun"
      = .ok { predicates := [⟨"pos", .equal, .text "NOUN", false⟩] } := rfl
  have hfilter : RowFilter.compileSteps (.columnar rankedTable.columns)
      { predicates := [⟨"pos", .equal, .text "NOUN", false⟩] }
        = .ok ⟨[⟨"pos", .compare (.column "pos") .equal (.literal (.text "NOUN"))⟩]⟩ := rfl
  have hform : (rankedWord rankedNoun).formIn ["on", "talo"] = true :=
    Part.formIn_of_text rfl (List.mem_cons_of_mem _ List.mem_cons_self)
  have hpasses : RowFilter.passes
      ⟨[⟨"pos", .compare (.column "pos") .equal (.literal (.text "NOUN"))⟩]⟩
      rankedTable.columns
      (c.shown rankedStatement rankedSettings [rankedWord rankedNoun]) = true := by
    rw [hnoun]
    rfl
  have hquery : c.queryWords ["on", "talo"] "pos = noun" rankedSettings
      = .ok ⟨rankedTable.columns, []⟩ := by
    simp only [Corpus.queryWords, hcompile, hrun]
    rfl
  exact ⟨c, _, _, _, hopen, rfl, hcompile, hrun, hread, rfl, hfilter,
    List.mem_cons_of_mem _ List.mem_cons_self, hform, List.mem_cons_of_mem _ List.mem_cons_self,
    hpasses, hquery, List.not_mem_nil, Nat.zero_lt_one⟩

end CorpusQuery

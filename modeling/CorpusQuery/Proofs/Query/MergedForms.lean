import CorpusQuery.Proofs.Query.WordLists
import CorpusQuery.Proofs.Statement.RowLimits
import CorpusQuery.Proofs.Table.Distinct

/-!
# How many rows merging leaves

Where forms are told apart by part of speech, rows that agree in everything that is shown are merged
after they were fetched. To have enough rows left the statement fetches twice as many as are wanted.

That is enough as long as no key comes more than twice, and in general it is not: how many rows are
left depends on how many keys there are among the fetched rows, and rows with further keys may stand
right behind them. What is left is never more than was asked for, and it is all that was asked for
exactly when the fetched rows have enough keys, or all keys that there are.

## Main statements

* `merged_rows_of_query`: how many rows are left, and when these are as many as could be.
* `merged_rows_too_few`: a corpus where they are too few.
-/

namespace CorpusQuery

open Sql (Datum)

/-! ## Keys of a table -/

namespace Table

/-- Where the columns stand that tell rows apart. -/
def keyPositions (columns : List String) : List ℕ := rowKey.filterMap (columns.idxOf? ·)

/-- What tells a row apart from the others. -/
def keyOf (columns : List String) (row : List Value) : List Value :=
  keyAt (keyPositions columns) row

/-- The number of different keys. Without any of the key columns every row counts. -/
def keyCount (columns : List String) (rows : List (List Value)) : ℕ :=
  if (keyPositions columns).isEmpty then rows.length
  else classCount sameKey (rows.map (keyOf columns))

variable {columns : List String}

theorem length_distinctLast (rows : List (List Value)) :
    ((distinctLast ⟨columns, rows⟩ rowKey).rows).length = keyCount columns rows := by
  have hpositions : rowKey.filterMap (columnIndex? ⟨columns, rows⟩) = keyPositions columns := rfl
  rw [distinctLast, hpositions, keyCount]
  split
  · next h => rw [h, List.isEmpty_nil, if_pos rfl]
  · next h =>
    have hsome : (keyPositions columns).isEmpty = false := List.isEmpty_eq_false_iff.mpr h
    rw [hsome, if_neg Bool.false_ne_true]
    exact length_lastOfEach _ rows

theorem keyCount_take_le (n : ℕ) (rows : List (List Value)) :
    keyCount columns (rows.take n) ≤ keyCount columns rows := by
  rw [keyCount, keyCount, List.map_take]
  split
  · exact List.length_take_le' n rows
  · exact classCount_take_le n _

theorem length_le_two_mul_keyCount {rows : List (List Value)}
    (h : ∀ row ∈ rows,
      (rows.filter fun other ↦ sameKey (keyOf columns row) (keyOf columns other)).length ≤ 2) :
    rows.length ≤ 2 * keyCount columns rows := by
  rw [keyCount]
  split
  · omega
  · have hfew : ∀ key ∈ rows.map (keyOf columns),
        (rows.map (keyOf columns)).countP (sameKey key) ≤ 2 := by
      intro key hkey
      obtain ⟨row, hrow, rfl⟩ := List.mem_map.mp hkey
      rw [List.countP_map, List.countP_eq_length_filter]
      exact h row hrow
    have hlength := length_le_mul_classCount sameKey_comm
      (fun _ _ _ ↦ sameKey_trans) Nat.two_pos hfew
    rwa [List.length_map] at hlength

/-- Merging and cutting come first, and nothing that follows drops a row. -/
theorem length_finish_distinct_cap (rows : List (List Value)) (n : ℕ) {steps : List FinishStep}
    (h : ∀ s ∈ steps, s.Local) :
    ((finish ⟨columns, rows⟩ (.distinct rowKey :: .cap n :: steps)).rows).length
      = min n (keyCount columns rows) := by
  have hfinish : finish ⟨columns, rows⟩ (.distinct rowKey :: .cap n :: steps)
      = finish ⟨((distinctLast ⟨columns, rows⟩ rowKey).take n).columns,
          (distinctLast ⟨columns, rows⟩ rowKey).rows.take n⟩ steps := rfl
  rw [hfinish, rows_finish h, List.length_map, List.length_take, length_distinctLast]

end Table

/-! ## Merged rows of a query -/

namespace Corpus

variable {c : Corpus} {settings : QuerySettings} {q : Query} {s : Statement}

/-- The ordered rows of a statement as values, without regard to its limit. -/
def orderedCells (c : Corpus) (s : Statement) : List (List Value) :=
  (c.database.selectRows { s.select with limit := none }).map (·.map (·.toValue))

/-- The rows that are fetched of them: twice as many as are wanted. -/
def fetchedCells (c : Corpus) (s : Statement) (settings : QuerySettings) : List (List Value) :=
  (c.orderedCells s).take (2 * settings.rowLimit)

/-- The number of different keys of such rows. -/
def keyCount (c : Corpus) (s : Statement) (rows : List (List Value)) : ℕ :=
  Table.keyCount (c.database.columnNames s.select) rows

/-- What tells such a row apart from the others. -/
def keyOf (c : Corpus) (s : Statement) (row : List Value) : List Value :=
  Table.keyOf (c.database.columnNames s.select) row

theorem map_selectRows_eq_take {n : ℕ} (hlimit : s.select.limit = some n) :
    (c.database.selectRows s.select).map (·.map (·.toValue)) = (c.orderedCells s).take n := by
  have hall : c.orderedCells s
      = ((c.database.orderedRows s.select).map (·.cells)).map (·.map (·.toValue)) := rfl
  rw [hall, Database.selectRows, hlimit, Database.takeLimit, List.map_take, List.map_take]

theorem limit_of_posx (hcompile : (c.backend settings).compile q = .ok s) (hposx : s.posx = true)
    (hfault : c.database.fault? s.select = none) :
    s.select.limit = some (2 * settings.rowLimit) := by
  obtain ⟨hlimit, hmerge⟩ := Backend.limit_of_compile hcompile
  rw [Backend.fetchLimit_eq, ← hmerge, hposx, if_pos rfl, backend] at hlimit
  dsimp only at hlimit
  -- Doubling is cut where it leaves 64 bits, and a limit may not even have that many.
  have hsmall := Database.limit_le_of_fault?_eq_none hlimit hfault
  rw [Database.maxLimit_eq] at hsmall
  rw [hlimit]
  exact congrArg some (by omega)

/-- **Rows of a query that merges.** -/
theorem exists_query_eq_ok {input : String} (hread : Query.read c.catalog c.totals input = .ok q)
    (htop : q.top = none) (hcompile : (c.backend settings).compile q = .ok s)
    (hposx : s.posx = true) (hfault : c.database.fault? s.select = none) :
    ∃ t, c.query input settings = .ok t ∧
      t.rows.length = min settings.rowLimit (c.keyCount s (c.fetchedCells s settings)) := by
  have hfetch : c.fetch s
      = .ok ⟨c.database.columnNames s.select, c.fetchedCells s settings⟩ := by
    rw [fetch, Database.select, hfault, fetchedCells,
      ← map_selectRows_eq_take (limit_of_posx hcompile hposx hfault)]
    rfl
  have hrun : c.run s settings = .ok (Table.finish
      ⟨c.database.columnNames s.select, c.fetchedCells s settings⟩ (c.finishSteps s settings)) := by
    rw [run, hfetch]
    rfl
  have hquery : c.query input settings = .ok (Table.finish
      ⟨c.database.columnNames s.select, c.fetchedCells s settings⟩ (c.finishSteps s settings)) := by
    simp only [query, hread, hcompile, hrun, htop]
  refine ⟨_, hquery, ?_⟩
  rw [finishSteps, hposx, if_pos rfl]
  exact Table.length_finish_distinct_cap _ _ fun _ ↦ Table.local_of_mem_anchor_relative

end Corpus

/-- **Merged rows.** Where forms are told apart by part of speech, a query without `top` whose
statement the database accepts is answered. As many rows are left as there are keys among the rows
that are fetched, twice as many as are wanted, or as many as are wanted if these are fewer. So they
are never more than the keys that there are, and they are as many as those allow exactly if the
fetched rows have enough keys or all of them; in particular if no key comes more than twice. -/
theorem merged_rows_of_query {c : Corpus} {settings : QuerySettings} {input : String} {q : Query}
    {s : Statement} (hread : Query.read c.catalog c.totals input = .ok q) (htop : q.top = none)
    (hcompile : (c.backend settings).compile q = .ok s) (hposx : s.posx = true)
    (hfault : c.database.fault? s.select = none) :
    ∃ t, c.query input settings = .ok t ∧
      t.rows.length = min settings.rowLimit (c.keyCount s (c.fetchedCells s settings)) ∧
      t.rows.length ≤ min settings.rowLimit (c.keyCount s (c.orderedCells s)) ∧
      (t.rows.length = min settings.rowLimit (c.keyCount s (c.orderedCells s)) ↔
        settings.rowLimit ≤ c.keyCount s (c.fetchedCells s settings) ∨
          c.keyCount s (c.fetchedCells s settings) = c.keyCount s (c.orderedCells s)) ∧
      ((∀ row ∈ c.fetchedCells s settings, ((c.fetchedCells s settings).filter fun other ↦
          Table.sameKey (c.keyOf s row) (c.keyOf s other)).length ≤ 2) →
        t.rows.length = min settings.rowLimit (c.keyCount s (c.orderedCells s))) := by
  obtain ⟨t, hquery, hlength⟩ := Corpus.exists_query_eq_ok hread htop hcompile hposx hfault
  have hfewer : c.keyCount s (c.fetchedCells s settings) ≤ c.keyCount s (c.orderedCells s) :=
    Table.keyCount_take_le _ _
  refine ⟨t, hquery, hlength, by omega, by omega, ?_⟩
  intro htwice
  have hkeys : (c.fetchedCells s settings).length ≤ 2 * c.keyCount s (c.fetchedCells s settings) :=
    Table.length_le_two_mul_keyCount htwice
  have hlengthFetched : (c.fetchedCells s settings).length
      = min (2 * settings.rowLimit) (c.orderedCells s).length := List.length_take
  by_cases hall : (c.orderedCells s).length ≤ 2 * settings.rowLimit
  · -- Everything was fetched.
    have heverything : c.fetchedCells s settings = c.orderedCells s := List.take_of_length_le hall
    rw [hlength, heverything]
  · omega

/-! ## A form with four rows -/

/-- The row of a form in one of its parts of speech; told apart by use it is always a verb. -/
def repeatedRow (pos : String) (frequency : Int) : List Datum :=
  [.text "olla", .text "on", .text pos, .text "VERB", .int frequency, .int frequency]

/-- A corpus with four rows of one form and one row of another. -/
def repeatedDatabase : Database where
  tables := [
    { name := "wordfreqs"
      columns := [⟨"lemma", .text⟩, ⟨"form", .text⟩, ⟨"pos", .text⟩, ⟨"posx", .text⟩,
        ⟨"frequency", .numeric⟩, ⟨"frequencyx", .numeric⟩]
      rows := [repeatedRow "VERB" 90, repeatedRow "AUX" 80, repeatedRow "NOUN" 70,
        repeatedRow "ADV" 60,
        [.text "talo", .text "talo", .text "NOUN", .text "NOUN", .int 7, .int 7]] }]

/-- The statement for frequent forms. -/
def repeatedStatement (limit : ℕ) : Statement where
  select := {
    items := [{ expr := .of "w" "lemma" }, { expr := .of "w" "form" },
      { expr := .of "w" "posx", aliasName := some "pos" },
      { expr := .of "w" "frequencyx", aliasName := some "frequency" }]
    sources := [{ table := { table := "wordfreqs" }, aliasName := some "w" }]
    condition := some (.binary (.of "w" "frequencyx") .gt (.value (.int 1)))
    order := [{ expr := .of "w" "frequencyx", direction := some .descending }]
    limit := some (2 * limit) }
  indexHint := none
  limit := 2 * limit
  posx := true

theorem schema_repeatedDatabase : repeatedDatabase.schema = { tables := [("wordfreqs",
    ["lemma", "form", "pos", "posx", "frequency", "frequencyx"])] } := by
  have hnil : List.mergeSort ([] : List String) = [] := List.mergeSort_nil
  exact congrArg (Schema.mk _) hnil

/-- What is shown of a row. -/
def repeatedShown (headword form pos : String) (frequency : Int) : Database.OutputRow :=
  ⟨[.int frequency], [.text headword, .text form, .text pos, .int frequency]⟩

/-- The rows of the query in their order, whatever the limit is. -/
def repeatedRows : List Database.OutputRow :=
  [repeatedShown "olla" "on" "VERB" 90, repeatedShown "olla" "on" "VERB" 80,
    repeatedShown "olla" "on" "VERB" 70, repeatedShown "olla" "on" "VERB" 60,
    repeatedShown "talo" "talo" "NOUN" 7]

theorem orderedRows_repeatedDatabase (limit : ℕ) :
    repeatedDatabase.orderedRows (repeatedStatement limit).select = repeatedRows := by
  have hrows : ((repeatedDatabase.joined (repeatedStatement limit).select).filter
      (Database.satisfies (repeatedStatement limit).select)).map
        (Database.outputRow (repeatedStatement limit).select) = repeatedRows := rfl
  have hordered : repeatedRows.Pairwise fun r t ↦
      Database.keyOrder (repeatedStatement 1).select.order r.keys t.keys != .gt := by
    decide
  rw [Database.orderedRows, hrows]
  exact List.mergeSort_of_pairwise hordered

theorem orderedCells_repeatedDatabase {c : Corpus} (hdatabase : c.database = repeatedDatabase)
    (limit : ℕ) : c.orderedCells (repeatedStatement limit)
      = (repeatedRows.map (·.cells)).map (·.map (·.toValue)) := by
  have hall : c.orderedCells (repeatedStatement limit)
      = ((c.database.orderedRows (repeatedStatement limit).select).map (·.cells)).map
          (·.map (·.toValue)) := rfl
  rw [hall, hdatabase, orderedRows_repeatedDatabase]

theorem keyCount_repeatedDatabase {c : Corpus} (hdatabase : c.database = repeatedDatabase) :
    c.keyCount (repeatedStatement 1)
        (c.fetchedCells (repeatedStatement 1) { rowLimit := 1 }) = 1 ∧
      c.keyCount (repeatedStatement 2)
        (c.fetchedCells (repeatedStatement 2) { rowLimit := 2 }) = 1 ∧
      c.keyCount (repeatedStatement 2) (c.orderedCells (repeatedStatement 2)) = 2 := by
  simp only [Corpus.keyCount, Corpus.fetchedCells, orderedCells_repeatedDatabase hdatabase,
    hdatabase]
  decide

theorem exists_repeatedCorpus : ∃ c, Corpus.ofDatabase repeatedDatabase = .ok c ∧
    c.database = repeatedDatabase ∧
    Query.read c.catalog c.totals "frequency > 1"
      = .ok { predicates := [⟨"frequency", .greater, .number (.int 1), false⟩] } ∧
    ∀ limit ∈ [1, 2],
      (c.backend { rowLimit := limit }).compile
        { predicates := [⟨"frequency", .greater, .number (.int 1), false⟩] }
          = .ok (repeatedStatement limit) ∧
      c.database.fault? (repeatedStatement limit).select = none := by
  have hok : (Corpus.ofDatabase repeatedDatabase).isOk = true := by decide
  obtain ⟨c, hopen⟩ := exists_of_isOk hok
  obtain ⟨hdatabase, hschema, hcatalog⟩ := Corpus.eq_of_ofDatabase hopen
  have hbackend (limit : ℕ) : c.backend { rowLimit := limit }
      = ⟨.relational repeatedDatabase.schema, repeatedDatabase.schema, { rowLimit := limit }⟩ := by
    rw [Corpus.backend, hcatalog, hschema]
  refine ⟨c, hopen, hdatabase, ?_, ?_⟩
  · rw [hcatalog, schema_repeatedDatabase]
    rfl
  · intro limit hlimit
    have hfault : ∀ limit ∈ [1, 2],
        repeatedDatabase.fault? (repeatedStatement limit).select = none := by decide
    refine ⟨?_, hdatabase ▸ hfault limit hlimit⟩
    rw [hbackend, schema_repeatedDatabase]
    simp only [List.mem_cons, List.not_mem_nil, or_false] at hlimit
    rcases hlimit with rfl | rfl
    · rfl
    · rfl

/-- One row was asked for and one is left. -/
theorem merged_rows_of_one : ∃ c q s t, Corpus.ofDatabase repeatedDatabase = .ok c ∧
    Query.read c.catalog c.totals "frequency > 1" = .ok q ∧
    (c.backend { rowLimit := 1 }).compile q = .ok s ∧
    c.query "frequency > 1" { rowLimit := 1 } = .ok t ∧ t.rows.length = 1 := by
  obtain ⟨c, hopen, hdatabase, hread, hstatement⟩ := exists_repeatedCorpus
  obtain ⟨hcompile, hfault⟩ := hstatement 1 (by simp)
  obtain ⟨hfetched, -, -⟩ := keyCount_repeatedDatabase hdatabase
  obtain ⟨t, hquery, hlength, -⟩ := merged_rows_of_query hread rfl hcompile rfl hfault
  rw [hfetched] at hlength
  exact ⟨c, _, _, t, hopen, hread, hcompile, hquery, hlength⟩

/-- **Too few rows.** Two rows were asked for and there are two keys, but the four rows that were
fetched are all of one form: one row is left. -/
theorem merged_rows_too_few : ∃ c q s t, Corpus.ofDatabase repeatedDatabase = .ok c ∧
    Query.read c.catalog c.totals "frequency > 1" = .ok q ∧ q.top = none ∧
    (c.backend { rowLimit := 2 }).compile q = .ok s ∧ s.posx = true ∧
    c.query "frequency > 1" { rowLimit := 2 } = .ok t ∧
    t.rows.length = 1 ∧ min 2 (c.keyCount s (c.orderedCells s)) = 2 := by
  obtain ⟨c, hopen, hdatabase, hread, hstatement⟩ := exists_repeatedCorpus
  obtain ⟨hcompile, hfault⟩ := hstatement 2 (by simp)
  obtain ⟨-, hfetched, hordered⟩ := keyCount_repeatedDatabase hdatabase
  obtain ⟨t, hquery, hlength⟩ := Corpus.exists_query_eq_ok hread rfl hcompile rfl hfault
  rw [hfetched] at hlength
  refine ⟨c, _, _, t, hopen, hread, rfl, hcompile, rfl, hquery, hlength, ?_⟩
  rw [hordered, min_self]

end CorpusQuery

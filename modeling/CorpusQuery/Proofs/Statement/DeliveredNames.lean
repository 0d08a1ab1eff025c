import CorpusQuery.Database.Selection
import CorpusQuery.Proofs.Statement.Scoping
import Mathlib.Data.List.Nodup
import Mathlib.Data.List.Pairwise

/-!
# Names of delivered columns

A statement writes a name behind some of the columns that it shows. The others are delivered under
the name that their table declares, in whatever letters the statement has them. So there are two
lists of names, those that are written and those that are delivered, and they differ where a column
is written in other letters than it is declared in.

A compiler leaves out a column whose name was shown before, and compares the written names to see
that. Columns of the facts and of the features are written as they are declared, and n-grams have a
name written behind them, so for these it is the delivered name as well. The statistics of lemmas
are written in small letters. If the table of lemmas declares one of them in other letters, and the
facts or the features have a column in just these letters, then one name is delivered twice.

## Main statements

* `Database.columnNames_eq`: which names the engine delivers.
* `Backend.SelectSpec.nodup_deliveredNames_iff`: when no name is delivered twice.
* `compiled_wellScoped`: statements are well scoped, up to that.
-/

namespace CorpusQuery

open Sql (ColumnName Select SelectItem TableName)
open Assembly (lookups)

/-! ## Names up to the case of letters -/

theorem Text.sameIgnoringCase_comm (s t : String) :
    sameIgnoringCase s t = sameIgnoringCase t s := Bool.beq_comm

theorem Text.sameIgnoringCase_trans {s t u : String} (hst : sameIgnoringCase s t = true)
    (htu : sameIgnoringCase t u = true) : sameIgnoringCase s u = true :=
  beq_iff_eq.mpr ((beq_iff_eq.mp hst).trans (beq_iff_eq.mp htu))

theorem eq_of_sameIgnoringCase {α : Type} {name : α → String} {xs : List α}
    (h : xs.Pairwise fun x y ↦ Text.sameIgnoringCase (name x) (name y) = false) {x y : α}
    (hx : x ∈ xs) (hy : y ∈ xs) (hsame : Text.sameIgnoringCase (name x) (name y) = true) :
    x = y := by
  by_contra hne
  have hsymm : Std.Symm fun x y ↦ Text.sameIgnoringCase (name x) (name y) = false :=
    ⟨fun x y h ↦ by rw [Text.sameIgnoringCase_comm]; exact h⟩
  rw [h.forall hx hy hne] at hsame
  cases hsame

/-- No table has two columns of one name, not even up to the case of letters. -/
def Schema.WellNamed (s : Schema) : Prop :=
  ∀ t ∈ s.tables, t.2.Pairwise fun c d ↦ Text.sameIgnoringCase c d = false

theorem Schema.WellNamed.columns {s : Schema} (h : s.WellNamed) (table : String) :
    (s.columns table).Pairwise fun c d ↦ Text.sameIgnoringCase c d = false := by
  rw [Schema.columns]
  cases hfound : s.tables.lookup table with
  | none => exact .nil
  | some columns =>
    obtain ⟨before, after, htables, -⟩ := List.lookup_eq_some_iff.mp hfound
    exact h (table, columns) (by simp [htables])

/-- No two tables and no two columns of a table have one name, not even up to the case of letters;
no engine lets them. -/
structure Database.WellNamed (db : Database) : Prop where
  tables : db.tables.Pairwise fun t u ↦ Text.sameIgnoringCase t.name u.name = false
  columns : ∀ t ∈ db.tables, t.columns.Pairwise fun c d ↦
    Text.sameIgnoringCase c.name d.name = false

theorem Database.WellNamed.schema {db : Database} (h : db.WellNamed) : db.schema.WellNamed := by
  intro t ht
  obtain ⟨stored, hstored, rfl⟩ := List.mem_map.mp ht
  exact List.pairwise_map.mpr (h.columns stored (List.mem_filter.mp hstored).1)

/-! ## Delivered names -/

namespace Sql

/-- The name of a column as its table declares it; `declared` are the columns of each table. -/
def Select.declaredName (s : Select) (declared : String → List String) (c : ColumnName) : String :=
  let found := s.tables.findSome? fun t ↦
    if c.qualifier.all (Text.sameIgnoringCase · t.1) then
      (declared t.2.table).find? (Text.sameIgnoringCase · c.name)
    else none
  found.getD c.name

/-- The name that a shown column is delivered under: the one that is written behind it, or else the
name that its table declares. -/
def Select.deliveredName (s : Select) (declared : String → List String) (i : SelectItem) :
    String :=
  match i.aliasName, i.expr with
  | some name, _ => name
  | none, .column qualifier name => s.declaredName declared ⟨qualifier, name⟩
  | none, e => e.fragment.sql

/-- The names that the columns of a statement are delivered under. -/
def Select.deliveredNames (s : Select) (declared : String → List String) : List String :=
  s.items.map (s.deliveredName declared)

end Sql

namespace Database

/-- The columns of a table as they are declared. -/
def declared (db : Database) (table : String) : List String :=
  (db.table table).columns.map (·.name)

theorem WellNamed.columns_schema {db : Database} (h : db.WellNamed) {table : String}
    (htable : db.schema.hasTable table = true) :
    db.table table ∈ db.tables ∧ db.schema.columns table = db.declared table := by
  obtain ⟨columns, hcolumns⟩ := Option.isSome_iff_exists.mp htable
  obtain ⟨before, after, htables, -⟩ := List.lookup_eq_some_iff.mp hcolumns
  obtain ⟨t, ht, hpair⟩ : ∃ t ∈ db.tables.filter (!isInternal ·.name),
      (t.name, t.columns.map (·.name)) = (table, columns) := by
    apply List.mem_map.mp
    change (table, columns) ∈ db.schema.tables
    rw [htables]
    simp
  obtain ⟨hname, rfl⟩ := Prod.mk.inj hpair
  have hmem : t ∈ db.tables := (List.mem_filter.mp ht).1
  have hself : Text.sameIgnoringCase t.name table = true := by
    rw [hname]
    exact beq_self_eq_true _
  obtain ⟨t', hfound⟩ : ∃ t', db.table? table = some t' :=
    Option.isSome_iff_exists.mp (List.find?_isSome.mpr ⟨t, hmem, hself⟩)
  have hsame : Text.sameIgnoringCase t'.name table = true := by simpa using List.find?_some hfound
  obtain rfl : t' = t := by
    refine eq_of_sameIgnoringCase h.tables (List.mem_of_find?_eq_some hfound) hmem ?_
    exact hname ▸ hsame
  rw [declared, Database.table, hfound, Option.getD_some, Schema.columns, hcolumns]
  exact ⟨hmem, rfl⟩

theorem tablesOf_eq (db : Database) (s : Select) :
    db.tablesOf s = s.tables.map fun t ↦ ⟨t.1, db.table t.2.table, none⟩ := by
  rw [tablesOf, Select.tables, List.map_append, List.map_map, List.map_map]
  rfl

theorem spelling_eq_declaredName (db : Database) (s : Select) (c : ColumnName) :
    spelling (db.tablesOf s) c = s.declaredName db.declared c := by
  have hname (t : StoredTable) :
      (do return (← t.columns[← t.columnIndex? c.name]?).name : Option String)
        = (t.columns.map (·.name)).find? (Text.sameIgnoringCase · c.name) := by
    rw [List.find?_map, List.find?_eq_bind_findIdx?_getElem?, Option.map_bind]
    refine congrArg (Option.bind (t.columnIndex? c.name)) (funext fun i ↦ ?_)
    cases h : t.columns[i]? <;> simp [h]
  have hanswers (t : String × TableName) :
      Part.answers ⟨t.1, db.table t.2.table, none⟩ c
        = c.qualifier.all (Text.sameIgnoringCase · t.1) := by
    rw [Part.answers]
    cases c.qualifier <;> rfl
  rw [spelling, tablesOf_eq, List.findSome?_map]
  refine congrArg (Option.getD · c.name) (congrArg (List.findSome? · s.tables) (funext fun t ↦ ?_))
  rw [Function.comp_apply, hanswers, hname]
  rfl

/-- **Delivered names.** The engine delivers the columns of a statement under these names. -/
theorem columnNames_eq (db : Database) (s : Select) :
    db.columnNames s = s.deliveredNames db.declared := by
  refine List.map_congr_left fun i _ ↦ ?_
  rcases i with ⟨e, _ | name⟩
  · cases e with
    | column qualifier name => exact spelling_eq_declaredName db s _
    | _ => rfl
  · rfl

end Database

theorem Sql.Select.deliveredNames_congr {declared declared' : String → List String} {s : Select}
    (h : ∀ t ∈ s.tables, declared t.2.table = declared' t.2.table) :
    s.deliveredNames declared = s.deliveredNames declared' := by
  have hname (c : ColumnName) : s.declaredName declared c = s.declaredName declared' c := by
    rw [declaredName, declaredName, ← List.head?_filterMap, ← List.head?_filterMap]
    refine congrArg (fun found ↦ (List.head? found).getD c.name) (List.filterMap_congr ?_)
    intro t ht
    rw [h t ht]
  refine List.map_congr_left fun i _ ↦ ?_
  rcases i with ⟨e, _ | name⟩
  · cases e with
    | column qualifier name => exact hname _
    | _ => rfl
  · rfl

/-- A statistic of lemmas is shown that its table declares in other letters, and another column that
is shown is written in just these letters. -/
def Sql.Select.RepeatsName (schema : Schema) (s : Select) : Prop :=
  ∃ column ∈ Backend.lemmaStatistics, ∃ name ∈ schema.columns Relation.lemmas.table,
    Text.sameIgnoringCase name column = true ∧ name ≠ column ∧
      { expr := .of Relation.lemmas.aliasName column } ∈ s.items ∧
      name ∈ s.items.map (·.writtenName)

/-! ## Declared names -/

namespace Backend

section Select

variable {b : Backend} {plans : List ConditionPlan} {a : Assembly} {s : Select} {r : Relation}
  {declared : String → List String} {column : String}

theorem exists_alias_of_mem_tables (hs : b.SelectSpec plans a s) {t : String × TableName}
    (ht : t ∈ s.tables) :
    ∃ r n, t.1 = Assembly.satelliteAlias r n ∧ t.2.table = r.table := by
  rw [tables_eq hs] at ht
  rcases List.mem_cons.mp ht with rfl | ht
  · exact ⟨.facts, 0, rfl, rfl⟩
  · obtain ⟨link, hlink, rfl⟩ := List.mem_map.mp ht
    simp only [Assembly.links, List.mem_append, List.mem_map] at hlink
    rcases hlink with (⟨r, -, rfl⟩ | ⟨l, hl, rfl⟩) | ⟨r, -, rfl⟩
    · exact ⟨r, 0, rfl, rfl⟩
    · obtain ⟨n, -, hname⟩ := Assembly.alias_of_mem_lookups hl
      exact ⟨l.relation, n, hname, rfl⟩
    · exact ⟨r, 0, rfl, rfl⟩

theorem declared_of_findSome? (hs : b.SelectSpec plans a s) {name : String}
    (h : (s.tables.findSome? fun t ↦
      if (some r.aliasName).all (Text.sameIgnoringCase · t.1) then
        (declared t.2.table).find? (Text.sameIgnoringCase · column)
      else none) = some name) :
    name ∈ declared r.table ∧ Text.sameIgnoringCase name column = true := by
  obtain ⟨t, ht, hname⟩ := List.exists_of_findSome?_eq_some h
  obtain ⟨r', n, halias, htable⟩ := exists_alias_of_mem_tables hs ht
  rw [Option.ite_none_right_eq_some, Option.all_some, halias] at hname
  -- Aliases are in small letters, so the alias is that of the relation itself.
  have hsame : Text.asciiLower r.aliasName = Text.asciiLower (Assembly.satelliteAlias r' n) :=
    beq_iff_eq.mp hname.1
  have hlower : Text.asciiLower r.aliasName = r.aliasName :=
    Assembly.asciiLower_satelliteAlias r 0
  rw [Assembly.asciiLower_satelliteAlias] at hsame
  obtain ⟨rfl, -⟩ := Assembly.satelliteAlias_inj (m := 0) (hlower ▸ hsame)
  have hfound : Text.sameIgnoringCase name column = true := by simpa using List.find?_some hname.2
  exact ⟨htable ▸ List.mem_of_find?_eq_some hname.2, hfound⟩

theorem declaredName_cases (hs : b.SelectSpec plans a s) (declared : String → List String)
    (r : Relation) (column : String) :
    s.declaredName declared ⟨some r.aliasName, column⟩ = column ∨
      s.declaredName declared ⟨some r.aliasName, column⟩ ∈ declared r.table ∧
        Text.sameIgnoringCase (s.declaredName declared ⟨some r.aliasName, column⟩) column
          = true := by
  rw [Select.declaredName]
  dsimp only
  generalize hfound : List.findSome? _ s.tables = found
  cases found with
  | none => exact .inl rfl
  | some name => exact .inr (declared_of_findSome? hs hfound)

theorem declaredName_eq (hs : b.SelectSpec plans a s)
    (hnamed : (declared r.table).Pairwise fun c d ↦ Text.sameIgnoringCase c d = false)
    (htable : namedTable (r, r.aliasName) ∈ s.tables) {name : String}
    (hname : name ∈ declared r.table) (hsame : Text.sameIgnoringCase name column = true) :
    s.declaredName declared ⟨some r.aliasName, column⟩ = name := by
  rw [Select.declaredName]
  dsimp only
  generalize hfound : List.findSome? _ s.tables = found
  cases found with
  | none =>
    have hnone := List.findSome?_eq_none_iff.mp hfound _ htable
    rw [if_pos (by exact beq_self_eq_true _)] at hnone
    exact absurd hsame (List.find?_eq_none.mp hnone name hname)
  | some other =>
    obtain ⟨hother, hsame'⟩ := declared_of_findSome? hs hfound
    refine @eq_of_sameIgnoringCase String id _ hnamed _ _ hother hname ?_
    exact Text.sameIgnoringCase_trans hsame' (Text.sameIgnoringCase_comm .. ▸ hsame)

/-! ## Names that are delivered twice -/

/-- What a shown column is delivered under: the name that it was made for, unless it is a statistic
of lemmas. -/
theorem deliveredName_cases (hs : b.SelectSpec plans a s) (hnamed : b.schema.WellNamed)
    {c : OutputColumn} (hc : c ∈ b.outputColumns a) :
    s.deliveredName b.schema.columns c.item = c.name ∨
      c.name ∈ lemmaStatistics ∧ c.item = { expr := .of Relation.lemmas.aliasName c.name } ∧
        s.deliveredName b.schema.columns c.item ∈ b.schema.columns Relation.lemmas.table ∧
        Text.sameIgnoringCase (s.deliveredName b.schema.columns c.item) c.name = true := by
  cases shown_of_mem_outputColumns hc with
  | @fact column hcolumn =>
    left
    by_cases hphysical : b.physicalColumn .facts column = column
    · have hname := declaredName_eq hs (hnamed.columns _)
        (mem_tables_of_requires hs (r := .facts) rfl (.inl rfl)) (List.mem_filter.mp hcolumn).1
        (beq_self_eq_true _)
      simpa [OutputColumn.item, Select.deliveredName, Sql.Expr.of, hphysical] using hname
    · simp [OutputColumn.item, Select.deliveredName, hphysical]
  | feature hr hcolumn =>
    left
    have htable := mem_tables_of_requires hs (r := .features) rfl (.inr hr)
    exact declaredName_eq hs (hnamed.columns _) htable
      (List.mem_filter.mp hcolumn).1 (beq_self_eq_true _)
  | @statistic column hr hcolumn =>
    right
    obtain ⟨hstatistic, hthere⟩ := List.mem_filter.mp hcolumn
    obtain ⟨name, hname, hsame⟩ := List.any_eq_true.mp hthere
    rw [Text.sameIgnoringCase_comm] at hsame
    have htable := mem_tables_of_requires hs (r := .lemmas) rfl (.inr hr)
    have hdelivered : s.deliveredName b.schema.columns
        (OutputColumn.item ⟨.of Relation.lemmas.aliasName column, column, false⟩) = name :=
      declaredName_eq hs (hnamed.columns _) htable hname hsame
    rw [hdelivered]
    exact ⟨hstatistic, rfl, hname, hsame⟩
  | gram => exact .inl rfl

theorem eq_of_mem_lemmaStatistics {m n : String} (hm : m ∈ lemmaStatistics)
    (hn : n ∈ lemmaStatistics) (h : Text.sameIgnoringCase m n = true) : m = n := by
  have hall : ∀ m ∈ lemmaStatistics, ∀ n ∈ lemmaStatistics,
      Text.sameIgnoringCase m n = true → m = n := by decide
  exact hall m hm n hn h

theorem deliveredName_of_mem_items (hs : b.SelectSpec plans a s) (hnamed : b.schema.WellNamed)
    (hitem : { expr := .of Relation.lemmas.aliasName column } ∈ s.items) {name : String}
    (hname : name ∈ b.schema.columns Relation.lemmas.table)
    (hsame : Text.sameIgnoringCase name column = true) :
    s.deliveredName b.schema.columns { expr := .of Relation.lemmas.aliasName column } = name := by
  obtain ⟨r, hsatellite, hr, habout⟩ := hs.covers_items _ hitem
  obtain rfl : .lemmas = r := Relation.aliasName_inj
    (Option.some.inj (habout ⟨some Relation.lemmas.aliasName, column⟩ (List.mem_singleton_self _)))
  exact declaredName_eq hs (hnamed.columns _) (mem_tables_of_requires hs hsatellite hr) hname hsame

/-- Of two columns that are delivered under one name, one is a statistic of lemmas in the letters of
the other. -/
theorem name_eq_of_deliveredName_eq (hs : b.SelectSpec plans a s) (hnamed : b.schema.WellNamed)
    (hrepeats : ¬s.RepeatsName b.schema) {c d : OutputColumn} (hc : c ∈ b.outputColumns a)
    (hd : d ∈ b.outputColumns a)
    (h : s.deliveredName b.schema.columns c.item = s.deliveredName b.schema.columns d.item) :
    c.name = d.name := by
  have hitem {e : OutputColumn} (he : e ∈ b.outputColumns a) : e.item ∈ s.items := by
    rw [hs.items]
    exact List.mem_map_of_mem he
  have hwritten {e : OutputColumn} (he : e ∈ b.outputColumns a) :
      e.name ∈ s.items.map (·.writtenName) :=
    writtenName_item he ▸ List.mem_map_of_mem (hitem he)
  -- A statistic that is delivered in its own letters has the name that it was made for.
  have hown {e e' : OutputColumn} (he : e ∈ b.outputColumns a) (he' : e' ∈ b.outputColumns a)
      (hstatistic : e.name ∈ lemmaStatistics)
      (hexpr : e.item = { expr := .of Relation.lemmas.aliasName e.name })
      (hmem : e'.name ∈ b.schema.columns Relation.lemmas.table)
      (hsame : Text.sameIgnoringCase e'.name e.name = true) : e'.name = e.name := by
    by_contra hne
    exact hrepeats ⟨e.name, hstatistic, e'.name, hmem, hsame, hne, hexpr ▸ hitem he, hwritten he'⟩
  rcases deliveredName_cases hs hnamed hc with hcname | ⟨hcstat, hcitem, hcmem, hcsame⟩ <;>
    rcases deliveredName_cases hs hnamed hd with hdname | ⟨hdstat, hditem, hdmem, hdsame⟩
  · exact hcname.symm.trans (h.trans hdname)
  · rw [← h, hcname] at hdmem hdsame
    exact hown hd hc hdstat hditem hdmem hdsame
  · rw [h, hdname] at hcmem hcsame
    exact (hown hc hd hcstat hcitem hcmem hcsame).symm
  · rw [h, Text.sameIgnoringCase_comm] at hcsame
    exact eq_of_mem_lemmaStatistics hcstat hdstat (Text.sameIgnoringCase_trans hcsame hdsame)

/-- **Delivered names are distinct** unless a statistic of lemmas repeats one. -/
theorem SelectSpec.nodup_deliveredNames_iff (hs : b.SelectSpec plans a s)
    (hnamed : b.schema.WellNamed) :
    (s.deliveredNames b.schema.columns).Nodup ↔ ¬s.RepeatsName b.schema := by
  have hnames : ((b.outputColumns a).map (·.name)).Nodup := (nodup_names_firstOfEachName [] _).1
  constructor
  · rintro hnodup ⟨column, hstatistic, name, hname, hsame, hne, hitem, hwritten⟩
    have hdelivered := deliveredName_of_mem_items hs hnamed hitem hname hsame
    rw [Select.deliveredNames, hs.items, List.map_map] at hnodup
    rw [hs.items] at hitem hwritten
    obtain ⟨c, hc, hcitem⟩ := List.mem_map.mp hitem
    obtain ⟨i, hi, hiname⟩ := List.mem_map.mp hwritten
    obtain ⟨d, hd, rfl⟩ := List.mem_map.mp hi
    have hcname : c.name = column := by
      rw [← writtenName_item hc, hcitem]
      rfl
    rw [writtenName_item hd] at hiname
    -- The other column is no statistic, since these differ by more than the case of letters.
    have hdname : s.deliveredName b.schema.columns d.item = name := by
      rcases deliveredName_cases hs hnamed hd with h | ⟨hdstat, -⟩
      · exact h.trans hiname
      · exact absurd (eq_of_mem_lemmaStatistics (hiname ▸ hdstat) hstatistic hsame) hne
    rw [← hcitem] at hdelivered
    obtain rfl : c = d := List.inj_on_of_nodup_map hnodup hc hd (hdelivered.trans hdname.symm)
    exact hne (hiname.symm.trans hcname)
  · intro hrepeats
    rw [Select.deliveredNames, hs.items, List.map_map]
    refine List.Nodup.map_on (fun c hc d hd h ↦ ?_) hnames.of_map
    have hname := name_eq_of_deliveredName_eq hs hnamed hrepeats hc hd h
    exact List.inj_on_of_nodup_map hnames hc hd hname

end Select

end Backend

/-- **Statements are well scoped.** Over a schema that follows the layout of a corpus, whatever the
settings are, every statement for a query and every statement for a list of word forms selects from
the facts table alone and is well scoped. No name is delivered twice, as long as no statistic of
lemmas is declared in the letters of another column that is shown; where one is, a name is. Every
database with this schema delivers these names. -/
theorem compiled_wellScoped {b : Backend} (hcatalog : b.catalog = .relational b.schema)
    (hlayout : b.schema.FollowsLayout) {st : Statement}
    (h : (∃ q, b.compile q = .ok st) ∨ ∃ words, b.compileWords words = .ok st) :
    st.select.sources.map (·.named) =
        [(Relation.facts.aliasName, { table := Relation.facts.table })] ∧
      st.select.WellScoped b.schema ∧
      (b.schema.WellNamed → ((st.select.deliveredNames b.schema.columns).Nodup ↔
        ¬st.select.RepeatsName b.schema)) ∧
      ∀ db : Database, db.WellNamed → db.schema = b.schema → b.schema.WellNamed ∧
        db.columnNames st.select = st.select.deliveredNames b.schema.columns := by
  obtain ⟨plans, a, hs, hplans⟩ := Backend.exists_backed_spec hcatalog hlayout h
  have hscoped := hs.wellScoped hcatalog hlayout hplans
  obtain ⟨index, hsources⟩ := hs.sources
  refine ⟨?_, hscoped, hs.nodup_deliveredNames_iff, fun db hdb hschema ↦ ?_⟩
  · rw [hsources]
    rfl
  · refine ⟨hschema ▸ hdb.schema, ?_⟩
    rw [db.columnNames_eq]
    refine Sql.Select.deliveredNames_congr fun t ht ↦ ?_
    have htable := (hscoped.tables t ht).2
    rw [← hschema] at htable ⊢
    exact (hdb.columns_schema htable).2.symm

/-- A corpus with all tables and with names that differ in the case of their letters. -/
def fullSchema : Schema where
  tables := [("wordfreqs", ["Form", "lemma", "pos", "posx", "frequency", "frequencyx", "len",
      "revform", "featid", "style"]),
    ("features", ["FeatId", "Clitic", "derivation", "style"]),
    ("clitics", ["featid", "clitic"]), ("derivations", ["featid", "derivation"]),
    ("lemmas", ["lemma", "pos", "lemmafreq"]), ("initgramfreqs", ["form", "frequency"]),
    ("wordbigramfreqs", ["form", "frequency"])]
  indexes := ["freq_desc"]

theorem followsLayout_fullSchema : fullSchema.FollowsLayout where
  facts := by decide
  keys := by
    intro r
    cases r <;> decide
  features := by
    intro r
    cases r <;> decide

/-- Statements over that corpus that show all they can. -/
def fullBackend : Backend where
  catalog := .relational fullSchema
  schema := fullSchema
  settings := { posx := true, lemmas := true, grams := true }

/-- Three look-ups, two of them in one satellite, beside conditions on three other tables. -/
def lookupQuery : Query where
  predicates := [⟨"clitic", .isIn, .texts ["kin", "han"], false⟩,
    ⟨"end", .endsWith, .text "i", true⟩, ⟨"clitic", .equal, .text "kaan", false⟩,
    ⟨"derivation", .equal, .text "Inen", false⟩,
    ⟨"lemmafreq", .atLeast, .number (.int 2), false⟩,
    ⟨"relbigramfreq", .less, .number (.int 9), true⟩]

/-- The statement for this query is well scoped, with two aliases for one satellite, and delivers no
name twice. -/
theorem wellScoped_lookupQuery :
    ∃ st, fullBackend.compile lookupQuery = .ok st ∧ st.select.WellScoped fullSchema ∧
      (st.select.deliveredNames fullSchema.columns).Nodup := by
  have hok : (fullBackend.compile lookupQuery).isOk = true := by decide +kernel
  obtain ⟨st, hcompile⟩ := exists_of_isOk hok
  have hcatalog : fullBackend.catalog = .relational fullBackend.schema := rfl
  have hlayout : fullBackend.schema.FollowsLayout := followsLayout_fullSchema
  have hnamed : fullSchema.WellNamed := by
    unfold Schema.WellNamed
    decide
  obtain ⟨-, hscoped, hnames, -⟩ := compiled_wellScoped hcatalog hlayout (.inl ⟨_, hcompile⟩)
  refine ⟨st, hcompile, hscoped, (hnames hnamed).mpr ?_⟩
  rintro ⟨column, hcolumn, name, hname, hsame, hne, -⟩
  have hall : ∀ column ∈ Backend.lemmaStatistics,
      ∀ name ∈ fullSchema.columns Relation.lemmas.table,
        Text.sameIgnoringCase name column = true → name = column := by decide
  exact hne (hall column hcolumn name hname hsame)

/-! ## A name that is delivered twice -/

/-- A database whose tables of facts and of lemmas have a statistic in the same capitals. -/
def capitalsDatabase : Database where
  tables := [
    { name := "wordfreqs"
      columns := [⟨"lemma", .text⟩, ⟨"form", .text⟩, ⟨"pos", .text⟩, ⟨"frequency", .numeric⟩,
        ⟨"len", .numeric⟩, ⟨"LemmaFreq", .numeric⟩] },
    { name := "lemmas"
      columns := [⟨"lemma", .text⟩, ⟨"pos", .text⟩, ⟨"LemmaFreq", .numeric⟩] }]

/-- Statements over that database that show the statistics of lemmas. -/
def capitalsBackend : Backend where
  catalog := .relational capitalsDatabase.schema
  schema := capitalsDatabase.schema
  settings := { lemmas := true }

/-- A query for one word form. -/
def formQuery : Query where
  predicates := [⟨"form", .equal, .text "on", false⟩]

/-- **One name for two columns.** Over a schema that follows the layout, the names that are
delivered for an accepted query need not be distinct. -/
theorem name_delivered_twice :
    capitalsDatabase.WellNamed ∧ capitalsBackend.schema.FollowsLayout ∧
      ∃ st, capitalsBackend.compile formQuery = .ok st ∧
        capitalsDatabase.columnNames st.select
          = ["lemma", "form", "pos", "frequency", "len", "LemmaFreq", "LemmaFreq"] ∧
        ¬(capitalsDatabase.columnNames st.select).Nodup := by
  have hlayout : capitalsBackend.schema.FollowsLayout :=
    { facts := by decide
      keys := by
        intro r
        cases r <;> decide
      features := by
        intro r
        cases r <;> decide }
  have hnamed : capitalsDatabase.WellNamed := ⟨by decide, by decide⟩
  have hok : (capitalsBackend.compile formQuery).isOk = true := by decide +kernel
  obtain ⟨st, hcompile⟩ := exists_of_isOk hok
  have hnames : (capitalsBackend.compile formQuery).toOption.map
        (capitalsDatabase.columnNames ·.select)
      = some ["lemma", "form", "pos", "frequency", "len", "LemmaFreq", "LemmaFreq"] := by
    decide +kernel
  rw [hcompile] at hnames
  have hdelivered : capitalsDatabase.columnNames st.select
      = ["lemma", "form", "pos", "frequency", "len", "LemmaFreq", "LemmaFreq"] :=
    Option.some.inj hnames
  refine ⟨hnamed, hlayout, st, hcompile, hdelivered, ?_⟩
  rw [hdelivered]
  decide

end CorpusQuery

import CorpusQuery.Proofs.Query.SameRows
import CorpusQuery.Proofs.Statement.DeliveredNames
import CorpusQuery.Proofs.Table.Identity
import Mathlib.Data.List.Nodup
import Mathlib.Data.List.Pairwise

/-!
# What a statement shows of a word

A result is read by the names of its columns. The lemma, the form, the part of speech and the
features of a word are columns of the facts table, and those come first in a statement, so the row
that is shown of a word has the texts of the word under these names. Two things could come in
between. The engine gives a column the name that its table spells, which is another one only if two
names agree up to the case of letters; and another table could show a column of the same name, which
it does not where the facts table has one, because the first column of a name takes it.

What is shown of a word also tells its counts: those of the facts table are shown, and those of the
lemmas and n-grams depend on the lemma, the form and the part of speech. So words with different
counts are never dropped as copies of each other.
-/

namespace CorpusQuery

open Sql (Datum Select)

/-! ## Names of shown columns -/

namespace Database

variable {db : Database} {column : String}

section Select

variable {b : Backend} {plans : List ConditionPlan} {a : Assembly} {s : Select} {r : Relation}

theorem spelling_eq (hs : b.SelectSpec plans a s) (hdb : db.WellNamed)
    (hcolumn : column ∈ db.schema.columns r.table) :
    spelling (db.tablesOf s) ⟨some r.aliasName, column⟩ = column := by
  have hcolumns := (hdb.columns_schema
    (Schema.hasTable_of_columns_ne_nil (List.ne_nil_of_mem hcolumn))).2
  have hnamed := hdb.schema.columns r.table
  rw [hcolumns] at hcolumn hnamed
  rw [spelling_eq_declaredName]
  rcases Backend.declaredName_cases hs db.declared r column with h | ⟨hmem, hsame⟩
  · exact h
  · exact @eq_of_sameIgnoringCase String id _ hnamed _ _ hmem hcolumn hsame

/-- **Columns under a key.** A column that is shown under the name of a key was made for it, and it
is one of the facts table or of the features. -/
theorem name_of_columnName (hs : b.SelectSpec plans a s) (hdb : db.WellNamed)
    (hschema : b.schema = db.schema) (hposx : b.posx = false) {c : Backend.OutputColumn}
    (hc : c ∈ b.outputColumns a) {name : String} (hname : name ∈ Table.rowKey)
    (h : columnName (db.tablesOf s) c.item = name) :
    c.name = name ∧ (c ∈ b.factColumns ∨ c ∈ b.featureColumns) := by
  cases Backend.shown_of_mem_outputColumns hc with
  | fact hcolumn =>
    refine ⟨?_, .inl (List.mem_map_of_mem hcolumn)⟩
    have hlisted := (List.mem_filter.mp hcolumn).1
    rw [hschema] at hlisted
    dsimp only [Backend.OutputColumn.item] at h
    rw [Backend.physicalColumn_of_posx hposx, bne_self_eq_false] at h
    exact (spelling_eq hs hdb hlisted).symm.trans h
  | feature _ hcolumn =>
    refine ⟨?_, .inr (List.mem_map_of_mem hcolumn)⟩
    have hlisted := (List.mem_filter.mp hcolumn).1
    rw [hschema] at hlisted
    exact (spelling_eq hs hdb hlisted).symm.trans h
  | @statistic column _ hcolumn =>
    have hall : ∀ n ∈ Table.rowKey, ∀ n' ∈ Backend.lemmaStatistics,
        Text.sameIgnoringCase n n' = false := by decide
    have hother := hall name hname column (List.mem_filter.mp hcolumn).1
    have hspelled : s.declaredName db.declared ⟨some Relation.lemmas.aliasName, column⟩ = name :=
      (spelling_eq_declaredName db s _).symm.trans h
    rcases Backend.declaredName_cases hs db.declared .lemmas column with heq | ⟨-, hsame⟩
    · rw [← hspelled, heq, Text.sameIgnoringCase, beq_self_eq_true] at hother
      cases hother
    · rw [hspelled, hother] at hsame
      cases hsame
  | @gram _ gramName _ hgram =>
    have hall : ∀ g ∈ Backend.gramColumns, g.2 ∉ Table.rowKey := by decide
    obtain rfl : gramName = name := h
    exact absurd hname (hall _ hgram)

/-- What is shown of a word under a name is what the column that was given this name holds. -/
theorem ofCells_shown_eq (hs : b.SelectSpec plans a s) (w : Part) (name : String) :
    Row.ofCells (db.columnNames s) ((db.shown s w).map (·.toValue)) name
      = ((b.outputColumns a).find? (columnName (db.tablesOf s) ·.item == name)).map fun c ↦
        (c.expr.eval (db.entry w).scope).toValue := by
  rw [columnNames, shown, hs.items, List.map_map, List.map_map, List.map_map]
  exact idxOf?_map_bind _ _ name (b.outputColumns a)

/-- **What is shown of a word.** Under a column of its key stands what the word holds there. -/
theorem ofCells_shown (hs : b.SelectSpec plans a s) (hdb : db.WellNamed)
    (hschema : b.schema = db.schema) (hposx : b.posx = false) {w : Part} (hw : w ∈ db.words)
    {name : String} (hname : name ∈ Table.rowKey)
    (hcolumn : name ∈ db.schema.columns Relation.facts.table) :
    Row.ofCells (db.columnNames s) ((db.shown s w).map (·.toValue)) name
      = some (w.datum name).toValue := by
  have hvisible : ∀ n ∈ Table.rowKey, Backend.hiddenColumns.contains n = false := by decide
  have hfact : ⟨.of Relation.facts.aliasName name, name, false⟩ ∈ b.factColumns := by
    refine List.mem_map.mpr ⟨name, List.mem_filter.mpr ⟨hschema ▸ hcolumn, ?_⟩, ?_⟩
    · rw [hvisible name hname]
      rfl
    · simp [Backend.physicalColumn_of_posx hposx]
  obtain ⟨c, hc, hcfact, hcname⟩ : ∃ c ∈ b.outputColumns a, c ∈ b.factColumns ∧ c.name = name := by
    rw [Backend.outputColumns, List.append_assoc, List.append_assoc]
    exact Backend.exists_mem_firstOfEachName hfact List.not_mem_nil
  have hcolumnName : columnName (db.tablesOf s) c.item = name := by
    obtain ⟨column, hlisted, rfl⟩ := List.mem_map.mp hcfact
    obtain rfl : column = name := hcname
    dsimp only [Backend.OutputColumn.item]
    rw [Backend.physicalColumn_of_posx hposx, bne_self_eq_false]
    exact spelling_eq hs hdb hcolumn
  obtain ⟨found, hfound⟩ : ∃ found, (b.outputColumns a).find?
      (columnName (db.tablesOf s) ·.item == name) = some found :=
    Option.isSome_iff_exists.mp
      (List.find?_isSome.mpr ⟨c, hc, beq_iff_eq.mpr hcolumnName⟩)
  have hfoundName : columnName (db.tablesOf s) found.item = name := by
    simpa using List.find?_some hfound
  have hmem := List.mem_of_find?_eq_some hfound
  -- No two shown columns were made for one name, so the column that is found is this one.
  obtain rfl : found = c := by
    refine List.inj_on_of_nodup_map (Backend.nodup_names_firstOfEachName [] _).1 hmem hc ?_
    rw [(name_of_columnName hs hdb hschema hposx hmem hname hfoundName).1, hcname]
  obtain ⟨column, -, rfl⟩ := List.mem_map.mp hcfact
  obtain rfl : column = name := hcname
  rw [ofCells_shown_eq hs, hfound, Option.map_some, Backend.physicalColumn_of_posx hposx,
    eval_of (scope_entry hw (r := .facts) (by decide))]
  rfl

theorem ofCells_shown_feats (hs : b.SelectSpec plans a s) (hdb : db.WellNamed)
    (hschema : b.schema = db.schema) (hposx : b.posx = false)
    (hcolumn : "feats" ∉ db.schema.columns Relation.facts.table) (w : Part) :
    Row.ofCells (db.columnNames s) ((db.shown s w).map (·.toValue)) "feats" = none := by
  rw [ofCells_shown_eq hs, Option.map_eq_none_iff, List.find?_eq_none]
  intro c hc hname
  obtain ⟨hcname, hc⟩ :=
    name_of_columnName hs hdb hschema hposx hc (by decide) (beq_iff_eq.mp hname)
  rcases hc with hc | hc
  · obtain ⟨column, hlisted, rfl⟩ := List.mem_map.mp hc
    obtain rfl : column = "feats" := hcname
    exact hcolumn (hschema ▸ (List.mem_filter.mp hlisted).1)
  · obtain ⟨column, hlisted, rfl⟩ := List.mem_map.mp hc
    obtain rfl : column = "feats" := hcname
    have hkey := (List.mem_filter.mp hlisted).2
    cases hkey

end Select

end Database

/-! ## What identifies a word -/

namespace Part

variable {p : Part} {column : String} {v : Value}

/-- The text of a part in a column; a missing one is empty. -/
def rowText (p : Part) (column : String) : String := ((p.datum column).toValue.asText?).getD ""

/-- What identifies a word. -/
def identity (p : Part) : Table.RowIdentity :=
  ⟨p.rowText "lemma", p.rowText "form", p.rowText "pos", p.rowText "feats"⟩

theorem HoldsText.datum_eq (h : p.HoldsText column v) : p.datum column = .ofValue v := by
  obtain ⟨a, hcolumn, -⟩ := h.stored
  rw [datum, hcolumn]
  rfl

theorem HoldsText.toValue_datum (h : p.HoldsText column v) : (p.datum column).toValue = v := by
  rw [h.datum_eq]
  cases h.text <;> rfl

theorem rowText_of_column?_eq_none (h : p.column? column = none) : p.rowText column = "" := by
  rw [rowText, datum, h]
  rfl

end Part

theorem SameWord.rowIdentity_typedRow {db : Database} {e : Export} {names : List String} {w : Part}
    {cells : List String} (h : SameWord db e names w cells) :
    Table.rowIdentity e.columnNamesOf (e.typedRow cells) = w.identity := by
  have htext : ∀ name ∈ Table.rowKey,
      Table.rowText e.columnNamesOf (e.typedRow cells) name = w.rowText name := by
    intro name hname
    rw [Table.rowText]
    rcases h.key name hname with ⟨hcolumn, hholds⟩ | ⟨hcolumn, hnone⟩
    · rw [Export.ofCells_typedRow hcolumn, Option.bind_some, Part.rowText, hholds.toValue_datum]
    · rw [Part.rowText_of_column?_eq_none hnone, Row.ofCells, List.idxOf?_eq_none_iff.mpr hcolumn]
      rfl
  rw [Table.rowIdentity, Part.identity, htext "lemma" (by decide), htext "form" (by decide),
    htext "pos" (by decide), htext "feats" (by decide)]

namespace SameRows

variable {db : Database} {e : Export} {names : List String} {pairs : List (Part × List String)}
  {b : Backend} {plans : List ConditionPlan} {a : Assembly} {s : Select} {w : Part}

theorem exists_sameWord (h : SameRows db e names pairs) (hw : w ∈ db.words) :
    ∃ cells, SameWord db e names w cells := by
  obtain ⟨pair, hpair, rfl⟩ := List.mem_map.mp (h.words.symm.subset hw)
  exact ⟨pair.2, h.same pair hpair⟩

theorem exists_holdsText (h : SameRows db e names pairs) (hw : w ∈ db.words) {name : String}
    (hname : name ∈ ["lemma", "form", "pos"]) : ∃ u, w.HoldsText name u := by
  obtain ⟨cells, hword⟩ := h.exists_sameWord hw
  rcases hword.key name (List.mem_append_left ["feats"] hname) with ⟨-, hholds⟩ | ⟨hnone, -⟩
  · exact ⟨_, hholds⟩
  · exact absurd (h.present name hname) hnone

theorem rowIdentity_shown (h : SameRows db e names pairs) (hs : b.SelectSpec plans a s)
    (hdb : db.WellNamed) (hschema : b.schema = db.schema) (hposx : b.posx = false)
    (hw : w ∈ db.words) :
    Table.rowIdentity (db.columnNames s) ((db.shown s w).map (·.toValue)) = w.identity := by
  obtain ⟨cells, hword⟩ := h.exists_sameWord hw
  have hlisted : ∀ name ∈ Table.rowKey, name ∈ db.schema.columns Relation.facts.table →
      Table.rowText (db.columnNames s) ((db.shown s w).map (·.toValue)) name = w.rowText name := by
    intro name hname hcolumn
    rw [Table.rowText, Database.ofCells_shown hs hdb hschema hposx hw hname hcolumn]
    rfl
  have hpresent : ∀ name ∈ ["lemma", "form", "pos"],
      Table.rowText (db.columnNames s) ((db.shown s w).map (·.toValue)) name = w.rowText name := by
    intro name hname
    have hkey : name ∈ Table.rowKey := List.mem_append_left ["feats"] hname
    exact hlisted name hkey ((h.columns name hkey).mp (h.present name hname))
  have hfeats : Table.rowText (db.columnNames s) ((db.shown s w).map (·.toValue)) "feats"
      = w.rowText "feats" := by
    by_cases hcolumn : "feats" ∈ db.schema.columns Relation.facts.table
    · exact hlisted "feats" (by decide) hcolumn
    · have hnone : w.column? "feats" = none := by
        rcases hword.key "feats" (by decide) with ⟨hthere, -⟩ | ⟨-, hnone⟩
        · exact absurd ((h.columns "feats" (by decide)).mp hthere) hcolumn
        · exact hnone
      rw [Table.rowText, Database.ofCells_shown_feats hs hdb hschema hposx hcolumn,
        Part.rowText_of_column?_eq_none hnone]
      rfl
  rw [Table.rowIdentity, Part.identity, hpresent "lemma" (by decide), hpresent "form" (by decide),
    hpresent "pos" (by decide), hfeats]

end SameRows

/-! ## Counts of words -/

theorem Part.column?_congr {p : Part} {column column' : String}
    (h : Text.sameIgnoringCase column column' = true) : p.column? column = p.column? column' := by
  have hsame (name : String) :
      Text.sameIgnoringCase name column = Text.sameIgnoringCase name column' := by
    rw [Text.sameIgnoringCase, Text.sameIgnoringCase, beq_iff_eq.mp h]
  simp only [column?, StoredTable.columnIndex?, hsame]

theorem Part.column?_eq_of_datum {p p' : Part} {column : String} (htable : p.table = p'.table)
    (h : p.datum column = p'.datum column) : p.column? column = p'.column? column := by
  simp only [datum, column?, htable] at h ⊢
  cases hindex : p'.table.columnIndex? column with
  | none => rfl
  | some i =>
    cases hcolumn : p'.table.columns[i]? with
    | none => simp [hcolumn]
    | some c => simpa [hindex, hcolumn] using h

namespace Database

variable {db : Database} {v w : Part} {r : Relation}

/-- The count of a word that a field holds, if it holds one. -/
def number? (db : Database) (f : Field) (r : Relation) (w : Part) :
    Option (WithBot (WithTop ℤ)) :=
  ((db.companion w r).datum f.column).size?

theorem table_eq_of_mem_words (hw : w ∈ db.words) : w.table = db.table Relation.facts.table := by
  obtain ⟨row, -, rfl⟩ := List.mem_map.mp hw
  rfl

theorem WellNamed.datum_eq_null (h : db.WellNamed)
    (hfacts : db.schema.hasTable Relation.facts.table = true) (hw : w ∈ db.words) {column : String}
    (hcolumn : ¬db.schema.hasColumn Relation.facts.table column = true) :
    w.datum column = .null := by
  have hindex : w.table.columnIndex? column = none := by
    rw [table_eq_of_mem_words hw, StoredTable.columnIndex?, List.findIdx?_eq_none_iff]
    intro c hc
    rw [Bool.eq_false_iff]
    intro hsame
    refine hcolumn (List.any_eq_true.mpr ⟨c.name, ?_, ?_⟩)
    · rw [(h.columns_schema hfacts).2]
      exact List.mem_map_of_mem hc
    · rwa [Text.sameIgnoringCase_comm]
  simp [Part.datum, Part.column?, hindex]

/-- Which lemma and which n-grams a word has depends on its lemma, its form and its part of
speech. -/
theorem companion_congr (hv : v ∈ db.words) (hw : w ∈ db.words)
    (hr : r ∈ Catalog.aggregateCounts.map (·.2.1))
    (h : ∀ name ∈ ["lemma", "form", "pos"], v.datum name = w.datum name) :
    db.companion v r = db.companion w r := by
  have htable : v.table = w.table :=
    (table_eq_of_mem_words hv).trans (table_eq_of_mem_words hw).symm
  have hcolumn : ∀ name ∈ ["lemma", "form", "pos"], v.column? name = w.column? name :=
    fun name hname ↦ Part.column?_eq_of_datum htable (h name hname)
  have hhangs : r.hangsOff v = r.hangsOff w := by
    funext p
    cases r with
    | lemmas =>
      simp only [Relation.hangsOff, Part.sameColumn, hcolumn "lemma" (by decide),
        hcolumn "pos" (by decide)]
    | initGrams | finGrams => simp only [Relation.hangsOff, h "form" (by decide)]
    | bigrams => simp only [Relation.hangsOff, Part.sameColumn, hcolumn "form" (by decide)]
    | facts | features | derivations | clitics | nounCases => exact absurd hr (by decide)
  have hne : r ≠ .facts := by
    rintro rfl
    exact absurd hr (by decide)
  rw [companion, companion, if_neg hne, if_neg hne, hanging, hanging, hhangs]

end Database

theorem Value.TextCell.eq_of_order {u v : Value} (hu : u.TextCell) (hv : v.TextCell)
    (h : (Datum.ofValue u).order (.ofValue v) = .eq) : u = v := by
  cases hu with
  | null =>
    cases hv with
    | null => rfl
    | text t => cases h
  | text s =>
    cases hv with
    | null => cases h
    | text t =>
      have hcompare : compare s t = .eq := h
      rw [Std.LawfulEqCmp.eq_of_compare hcompare]

section Counts

variable {db : Database} {e : Export} {names : List String} {pairs : List (Part × List String)}
  {b : Backend} {plans : List ConditionPlan} {a : Assembly} {s : Select} {v w : Part} {f : Field}
  {r : Relation}

theorem SameRows.datum_eq_of_alike (h : SameRows db e names pairs) (hs : b.SelectSpec plans a s)
    (hschema : b.schema = db.schema) (hposx : b.posx = false) (hv : v ∈ db.words)
    (hw : w ∈ db.words) (halike : Database.alike (db.shown s v) (db.shown s w) = true)
    {name : String} (hname : name ∈ ["lemma", "form", "pos"]) : v.datum name = w.datum name := by
  have hkey : name ∈ Table.rowKey := List.mem_append_left ["feats"] hname
  have hcolumn := (h.columns name hkey).mp (h.present name hname)
  obtain ⟨u, hu⟩ := h.exists_holdsText hv hname
  obtain ⟨u', hu'⟩ := h.exists_holdsText hw hname
  have hvisible : ∀ n ∈ Table.rowKey, Backend.hiddenColumns.contains n = false := by decide
  have heq := Database.order_datum_of_alike hs hposx hv hw (hschema ▸ hcolumn) (hvisible name hkey)
    halike
  rw [hu.datum_eq, hu'.datum_eq] at heq
  rw [hu.datum_eq, hu'.datum_eq, hu.text.eq_of_order hu'.text heq]

/-- **Counts are shown.** Words that are shown alike have the same counts. -/
theorem SameRows.number?_eq_of_alike (h : SameRows db e names pairs) (hs : b.SelectSpec plans a s)
    (hdb : db.WellNamed) (hschema : b.schema = db.schema) (hposx : b.posx = false)
    (hv : v ∈ db.words) (hw : w ∈ db.words) (hf : f ∈ (Catalog.relational db.schema).fields)
    (hnumeric : f.kind = .numeric) (hr : f.relation = some r)
    (hcounted : ∀ u ∈ db.words, ((db.companion u r).datum f.column).Counted)
    (halike : Database.alike (db.shown s v) (db.shown s w) = true) :
    db.number? f r v = db.number? f r w := by
  rcases Catalog.place_of_numeric_relational f hf hnumeric r hr with ⟨rfl, hcount⟩ | hr'
  · have hv' := hcounted v hv
    have hw' := hcounted w hw
    by_cases hthere : db.schema.hasColumn Relation.facts.table f.column = true
    · obtain ⟨column, hcolumn, hsame⟩ := List.any_eq_true.mp hthere
      have hall : ∀ n ∈ Catalog.factCounts, ∀ n' ∈ Backend.hiddenColumns,
          Text.sameIgnoringCase n n' = false := by decide
      have hshown : Backend.hiddenColumns.contains column = false := by
        rw [Bool.eq_false_iff]
        intro hhidden
        have hother := hall _ hcount column (List.contains_iff_mem.mp hhidden)
        rw [hsame] at hother
        cases hother
      have hdatum (u : Part) : u.datum column = u.datum f.column := by
        rw [Part.datum, Part.datum, Part.column?_congr hsame]
      have heq := Database.order_datum_of_alike hs hposx hv hw (hschema ▸ hcolumn) hshown halike
      rw [hdatum, hdatum] at heq
      exact hv'.size?_eq_of_order hw' heq
    · have hlemma := (h.columns "lemma" (by decide)).mp (h.present "lemma" (by decide))
      have hfacts := Schema.hasTable_of_columns_ne_nil (List.ne_nil_of_mem hlemma)
      have hnull {u : Part} (hu : u ∈ db.words) : db.number? f .facts u = none :=
        congrArg Datum.size? (hdb.datum_eq_null hfacts hu hthere)
      rw [hnull hv, hnull hw]
  · rw [Database.number?, Database.number?, Database.companion_congr hv hw hr' fun _ ↦
      h.datum_eq_of_alike hs hschema hposx hv hw halike]

end Counts

end CorpusQuery

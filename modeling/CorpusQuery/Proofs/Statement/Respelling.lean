import CorpusQuery.Proofs.Sql.LetterCase
import CorpusQuery.Proofs.Sql.Placeholders
import CorpusQuery.Proofs.Statement.Plans

/-!
# Letter case of declared columns

The case of letters in the columns of a corpus does not matter to its database, and most of the
compiler does not see it either: columns are looked for without regard to case, and every name that
a statement uses outside its selected columns is the compiler's own. So a schema and its spelling in
small letters have the same catalog, and their statements are refused for the same reason or agree
in all but the selected columns.

The selected columns are the declared ones, and these are compared exactly: with the columns that
are not shown, with the two that have another column in their place, and with the names shown
before. Two spellings of a schema therefore select the same columns only where such names are
spelled as the compiler spells them and no two shown names differ in case alone.

## Main statements

* `Catalog.relational_lower`: a catalog does not depend on letter case.
* `Backend.map_unshown_assemble_lower`: apart from the selected columns a statement does not either.
* `Backend.assemble_lower`: with plain spelling the selected columns differ in letter case only.
* `compile_of_respelling`: both for two spellings of a schema.
-/

namespace CorpusQuery

/-! ## Schemas -/

namespace Schema

/-- The schema with the names of its columns in small letters. -/
def lower (s : Schema) : Schema :=
  { s with tables := s.tables.map fun (table, columns) ↦ (table, columns.map Text.asciiLower) }

variable {s : Schema}

theorem lower_eq {s s' : Schema} (htables : s.lower.tables = s'.lower.tables)
    (hindexes : s.indexes = s'.indexes) : s.lower = s'.lower := by
  rw [lower, lower, hindexes]
  exact congrArg (fun tables ↦ (⟨tables, s'.indexes⟩ : Schema)) htables

theorem lookup_lower (table : String) :
    s.lower.tables.lookup table = (s.tables.lookup table).map (List.map Text.asciiLower) := by
  rw [lower]
  induction s.tables with
  | nil => rfl
  | cons t ts ih =>
    rw [List.map_cons, List.lookup_cons, List.lookup_cons, ih]
    split
    · rfl
    · rfl

theorem columns_lower (table : String) :
    s.lower.columns table = (s.columns table).map Text.asciiLower := by
  rw [columns, columns, lookup_lower]
  cases s.tables.lookup table with
  | none => rfl
  | some columns => rfl

@[simp] theorem hasTable_lower : s.lower.hasTable = s.hasTable := by
  funext table
  rw [hasTable, hasTable, lookup_lower, Option.isSome_map]

@[simp] theorem hasColumn_lower : s.lower.hasColumn = s.hasColumn := by
  funext table column
  have hsame (declared : String) : Text.sameIgnoringCase column (Text.asciiLower declared)
      = Text.sameIgnoringCase column declared := by
    rw [Text.sameIgnoringCase, Text.sameIgnoringCase, Text.asciiLower_asciiLower]
  rw [hasColumn, hasColumn, columns_lower, List.any_map]
  exact congrArg _ (funext hsame)

end Schema

/-! ## Catalogs -/

namespace Catalog

variable {s : Schema}

theorem factFields_lower : factFields s.lower = factFields s := by
  have hplain : plainLemmaField s.lower = plainLemmaField s := by
    rw [plainLemmaField, plainLemmaField, Schema.hasColumn_lower]
  rw [factFields, factFields, hplain, Schema.hasColumn_lower]

theorem aggregateFields_lower : aggregateFields s.lower = aggregateFields s := by
  rw [aggregateFields, aggregateFields, Schema.hasColumn_lower]

theorem featureFields_lower : featureFields s.lower = featureFields s := by
  have hfield : featureField s.lower = featureField s := by
    funext column
    rw [featureField, featureField, Schema.hasColumn_lower]
  have hcolumns : (s.lower.columns Relation.features.table).map Text.asciiLower
      = (s.columns Relation.features.table).map Text.asciiLower := by
    rw [Schema.columns_lower, List.map_map]
    exact List.map_congr_left fun column _ ↦ Text.asciiLower_asciiLower column
  rw [featureFields, featureFields, hfield, hcolumns]

/-- **Catalogs.** The catalog of a corpus does not depend on the letter case of its columns. -/
theorem relational_lower (s : Schema) : relational s.lower = relational s := by
  rw [relational, relational, factFields_lower, aggregateFields_lower, featureFields_lower]

end Catalog

/-! ## Conditions, joins and order -/

namespace Backend

/-- The backend that knows the columns in small letters. -/
def lower (b : Backend) : Backend := { b with schema := b.schema.lower }

variable {b : Backend}

@[simp] theorem schema_lower : b.lower.schema = b.schema.lower := rfl

@[simp] theorem settings_lower : b.lower.settings = b.settings := rfl

@[simp] theorem catalog_lower : b.lower.catalog = b.catalog := rfl

@[simp] theorem posx_lower : b.lower.posx = b.posx := by
  simp only [posx, settings_lower, schema_lower, Schema.hasColumn_lower]

@[simp] theorem physicalColumn_lower : b.lower.physicalColumn = b.physicalColumn := by
  funext r column
  simp only [physicalColumn, posx_lower]

@[simp] theorem columnExpr_lower : b.lower.columnExpr = b.columnExpr := by
  funext f r
  simp only [columnExpr, physicalColumn_lower]

@[simp] theorem hasReversed_lower : b.lower.hasReversed = b.hasReversed := by
  simp only [hasReversed, schema_lower, Schema.hasColumn_lower]

theorem planPositional_lower : b.lower.planPositional = b.planPositional := by
  have hcondition : b.lower.positionalCondition = b.positionalCondition := by
    funext op s
    simp only [positionalCondition, middleCondition, endsCondition, hasReversed_lower]
  funext p
  simp only [planPositional, positionalTouch, hcondition, hasReversed_lower]

theorem planColumn_lower : b.lower.planColumn = b.planColumn := by
  funext p f r
  simp only [planColumn, columnCondition, columnExpr_lower]

theorem plan_lower : b.lower.plan = b.plan := by
  funext p
  simp only [plan, catalog_lower, schema_lower, Schema.hasTable_lower, planPositional_lower,
    planColumn_lower]

theorem orderField_lower : b.lower.orderField = b.orderField := by
  simp only [orderField, catalog_lower, settings_lower, schema_lower, Schema.hasTable_lower]

theorem outputRelations_lower : b.lower.outputRelations = b.outputRelations := by
  rw [outputRelations, outputRelations, settings_lower, schema_lower, Schema.hasTable_lower,
    Schema.hasColumn_lower]

theorem joins_lower : b.lower.joins = b.joins := by
  funext a
  simp only [joins, sameLemma, posx_lower]

theorem fetchLimit_lower : b.lower.fetchLimit = b.fetchLimit := by
  simp only [fetchLimit, settings_lower, posx_lower]

/-! ## Selected columns -/

/-- The shown column in small letters. -/
def OutputColumn.lower (c : OutputColumn) : OutputColumn :=
  { c with expr := c.expr.lowerColumn, name := Text.asciiLower c.name }

theorem OutputColumn.item_lower (c : OutputColumn) : c.lower.item = c.item.lower := by
  obtain ⟨expr, name, renamed⟩ := c
  rw [item, item, Sql.SelectItem.lower, lower]
  dsimp only
  split
  · rfl
  · rfl

/-- The names that may be shown, of declared columns and of others. -/
def shownNames (b : Backend) : List String :=
  (b.factColumns ++ b.featureColumns ++ b.lemmaColumns).map (·.name) ++ gramColumns.map (·.2)

/-- The columns that the compiler knows by name are spelled as it spells them, and shown names
differ in more than letter case. -/
structure SpelledPlainly (b : Backend) : Prop where
  hidden : ∀ c ∈ b.schema.columns Relation.facts.table,
    Text.asciiLower c ∈ hiddenColumns → c ∈ hiddenColumns
  keys : ∀ c ∈ b.schema.columns Relation.features.table,
    Text.asciiLower c ∈ Catalog.featureKeys → c ∈ Catalog.featureKeys
  /-- These have another column in their place. -/
  replaced : b.posx = true → ∀ c ∈ b.schema.columns Relation.facts.table,
    Text.asciiLower c ∈ ["pos", "frequency"] → c ∈ ["pos", "frequency"]
  shown : ∀ m ∈ b.shownNames, ∀ n ∈ b.shownNames, Text.asciiLower m = Text.asciiLower n → m = n

theorem contains_asciiLower {words : List String} (hwords : ∀ w ∈ words, Text.asciiLower w = w)
    {c : String} (hc : Text.asciiLower c ∈ words → c ∈ words) :
    words.contains (Text.asciiLower c) = words.contains c := by
  rw [Bool.eq_iff_iff, List.contains_iff_mem, List.contains_iff_mem]
  exact ⟨hc, fun h ↦ (hwords c h).symm ▸ h⟩

theorem physicalColumn_of_notMem {c : String} (h : c ∉ ["pos", "frequency"]) (r : Relation) :
    b.physicalColumn r c = c := by
  rw [List.mem_pair, not_or] at h
  unfold physicalColumn
  split
  · split
    · exact absurd rfl h.1
    · exact absurd rfl h.2
    · rfl
  · rfl

theorem physicalColumn_of_not_posx (h : ¬b.posx = true) (r : Relation) (c : String) :
    b.physicalColumn r c = c := if_neg fun hposx ↦ h hposx.2

/-- A column stands for itself in every spelling, or it is spelled in small letters. -/
theorem physicalColumn_cases (h : b.SpelledPlainly) {c : String}
    (hc : c ∈ b.schema.columns Relation.facts.table) :
    (b.physicalColumn .facts c = c ∧ b.physicalColumn .facts (Text.asciiLower c)
        = Text.asciiLower c) ∨
      (Text.asciiLower c = c ∧
        Text.asciiLower (b.physicalColumn .facts c) = b.physicalColumn .facts c) := by
  have hsmall : ∀ c ∈ ["pos", "frequency"], Text.asciiLower c = c := by decide
  by_cases hposx : b.posx = true
  · by_cases hplain : Text.asciiLower c ∈ ["pos", "frequency"]
    · have hpos : b.physicalColumn .facts "pos" = "posx" := if_pos ⟨rfl, hposx⟩
      have hfrequency : b.physicalColumn .facts "frequency" = "frequencyx" := if_pos ⟨rfl, hposx⟩
      have hmem := h.replaced hposx c hc hplain
      refine .inr ⟨hsmall c hmem, ?_⟩
      rcases List.mem_pair.mp hmem with rfl | rfl
      · rw [hpos]
        decide
      · rw [hfrequency]
        decide
    · have hne : c ∉ ["pos", "frequency"] := fun hmem ↦ hplain ((hsmall c hmem).symm ▸ hmem)
      exact .inl ⟨physicalColumn_of_notMem hne _, physicalColumn_of_notMem hplain _⟩
  · exact .inl ⟨physicalColumn_of_not_posx hposx _ _, physicalColumn_of_not_posx hposx _ _⟩

theorem factColumns_lower (h : b.SpelledPlainly) :
    b.lower.factColumns = b.factColumns.map (·.lower) := by
  rw [factColumns, factColumns, schema_lower, Schema.columns_lower, List.filter_map, List.map_map,
    List.map_map, physicalColumn_lower]
  have hshown : ∀ c ∈ b.schema.columns Relation.facts.table,
      ((!hiddenColumns.contains ·) ∘ Text.asciiLower) c = !hiddenColumns.contains c := by
    intro c hc
    rw [Function.comp_apply, contains_asciiLower (by decide) (h.hidden c hc)]
  rw [List.filter_congr hshown]
  refine List.map_congr_left fun c hc ↦ ?_
  rw [Function.comp_apply, Function.comp_apply]
  dsimp only
  rcases physicalColumn_cases h (List.mem_filter.mp hc).1 with ⟨hself, hlower⟩ | ⟨hself, hlower⟩
  · rw [hself, hlower, bne_self_eq_false, OutputColumn.lower, bne_self_eq_false]
    rfl
  · rw [OutputColumn.lower, hself]
    dsimp only
    rw [Sql.Expr.lowerColumn_of, hlower]
    rfl

theorem featureColumns_lower (h : b.SpelledPlainly) :
    b.lower.featureColumns = b.featureColumns.map (·.lower) := by
  rw [featureColumns, featureColumns, schema_lower, Schema.columns_lower, List.filter_map,
    List.map_map, List.map_map]
  have hshown : ∀ c ∈ b.schema.columns Relation.features.table,
      ((!Catalog.featureKeys.contains ·) ∘ Text.asciiLower) c
        = !Catalog.featureKeys.contains c := by
    intro c hc
    rw [Function.comp_apply, contains_asciiLower (by decide) (h.keys c hc)]
  rw [List.filter_congr hshown]
  exact List.map_congr_left fun c _ ↦ rfl

theorem lemmaColumns_lower : b.lower.lemmaColumns = b.lemmaColumns.map (·.lower) := by
  rw [lemmaColumns, lemmaColumns, schema_lower, Schema.hasColumn_lower, List.map_map]
  refine List.map_congr_left fun c hc ↦ ?_
  have hsmall : ∀ c ∈ lemmaStatistics, Text.asciiLower c = c := by decide
  rw [Function.comp_apply, OutputColumn.lower, Sql.Expr.lowerColumn_of,
    hsmall c (List.mem_filter.mp hc).1]
  rfl

/-- **Names.** With names that differ in more than letter case the same columns are dropped. -/
theorem firstOfEachName_lower {seen : List String} {cs : List OutputColumn}
    (h : ∀ m ∈ seen ++ cs.map (·.name), ∀ n ∈ seen ++ cs.map (·.name),
      Text.asciiLower m = Text.asciiLower n → m = n) :
    firstOfEachName (seen.map Text.asciiLower) (cs.map (·.lower))
      = (firstOfEachName seen cs).map (·.lower) := by
  induction cs generalizing seen with
  | nil => rfl
  | cons c cs ih =>
    have hc : c.name ∈ seen ++ (c :: cs).map (·.name) :=
      List.mem_append_right _ List.mem_cons_self
    have hseen : (seen.map Text.asciiLower).contains (Text.asciiLower c.name)
        = seen.contains c.name := by
      rw [Bool.eq_iff_iff, List.contains_iff_mem, List.contains_iff_mem]
      refine ⟨fun hmem ↦ ?_, List.mem_map_of_mem⟩
      obtain ⟨n, hn, hsame⟩ := List.mem_map.mp hmem
      rwa [← h n (List.mem_append_left _ hn) _ hc hsame]
    rw [List.map_cons, firstOfEachName, firstOfEachName]
    change (if (seen.map Text.asciiLower).contains (Text.asciiLower c.name) then _ else _) = _
    rw [hseen]
    split
    · have hsub : ∀ m ∈ seen ++ cs.map (·.name), m ∈ seen ++ (c :: cs).map (·.name) := by
        intro m hm
        rw [List.map_cons, List.mem_append, List.mem_cons]
        exact (List.mem_append.mp hm).imp_right .inr
      exact ih fun m hm n hn ↦ h m (hsub m hm) n (hsub n hn)
    · have hsub : ∀ m ∈ c.name :: seen ++ cs.map (·.name), m ∈ seen ++ (c :: cs).map (·.name) := by
        intro m hm
        rw [List.cons_append, List.mem_cons, List.mem_append] at hm
        rw [List.map_cons, List.mem_append, List.mem_cons, or_left_comm]
        exact hm
      rw [List.map_cons]
      exact congrArg _ (ih fun m hm n hn ↦ h m (hsub m hm) n (hsub n hn))

/-- The columns that are shown unless their name was shown before. -/
def candidateColumns (b : Backend) (a : Assembly) : List OutputColumn :=
  b.factColumns ++ (if a.requires .features then b.featureColumns else [])
    ++ (if b.settings.lemmas && a.requires .lemmas then b.lemmaColumns else [])
    ++ if b.settings.grams then
        (gramColumns.filter fun (r, _) ↦ a.requires r).map fun (r, name) ↦
          ⟨.of r.aliasName "frequency", name, true⟩
      else []

theorem candidateColumns_lower (h : b.SpelledPlainly) (a : Assembly) :
    b.lower.candidateColumns a = (b.candidateColumns a).map (·.lower) := by
  have hgrams : ((gramColumns.filter fun (r, _) ↦ a.requires r).map fun (r, name) ↦
        (⟨.of r.aliasName "frequency", name, true⟩ : OutputColumn)).map (·.lower)
      = (gramColumns.filter fun (r, _) ↦ a.requires r).map fun (r, name) ↦
        ⟨.of r.aliasName "frequency", name, true⟩ := by
    have hsmall : ∀ g ∈ gramColumns, Text.asciiLower g.1.aliasName = g.1.aliasName ∧
      Text.asciiLower g.2 = g.2 := by decide
    rw [List.map_map]
    refine List.map_congr_left fun g hg ↦ ?_
    obtain ⟨r, name⟩ := g
    obtain ⟨hrelation, hname⟩ := hsmall (r, name) (List.mem_filter.mp hg).1
    rw [Function.comp_apply, OutputColumn.lower, Sql.Expr.lowerColumn_of, hrelation, hname]
    rfl
  rw [candidateColumns, candidateColumns, settings_lower, factColumns_lower h,
    featureColumns_lower h, lemmaColumns_lower, List.map_append, List.map_append, List.map_append,
    apply_ite (List.map _), apply_ite (List.map _), apply_ite (List.map _), hgrams, List.map_nil]

theorem name_mem_shownNames {a : Assembly} {c : OutputColumn} (h : c ∈ b.candidateColumns a) :
    c.name ∈ b.shownNames := by
  have hite {p : Prop} [Decidable p] {cs : List OutputColumn} (hc : c ∈ if p then cs else []) :
      c ∈ cs := by
    split at hc
    · exact hc
    · cases hc
  rw [shownNames, List.mem_append]
  rw [candidateColumns, List.mem_append, List.mem_append, List.mem_append] at h
  rcases h with ((h | h) | h) | h
  · exact .inl (List.mem_map_of_mem (List.mem_append_left _ (List.mem_append_left _ h)))
  · exact .inl (List.mem_map_of_mem (List.mem_append_left _ (List.mem_append_right _ (hite h))))
  · exact .inl (List.mem_map_of_mem (List.mem_append_right _ (hite h)))
  · obtain ⟨g, hg, rfl⟩ := List.mem_map.mp (hite h)
    exact .inr (List.mem_map_of_mem (List.mem_filter.mp hg).1)

/-- **Selected columns.** With plain spelling they differ in letter case only. -/
theorem outputColumns_lower (h : b.SpelledPlainly) (a : Assembly) :
    b.lower.outputColumns a = (b.outputColumns a).map (·.lower) := by
  have hnames : ∀ m ∈ [] ++ (b.candidateColumns a).map (·.name), m ∈ b.shownNames := by
    intro m hm
    obtain ⟨c, hc, rfl⟩ := List.mem_map.mp hm
    exact name_mem_shownNames hc
  change firstOfEachName [] (b.lower.candidateColumns a) = _
  rw [candidateColumns_lower h]
  exact firstOfEachName_lower fun m hm n hn ↦ h.shown m (hnames m hm) n (hnames n hn)

end Backend

/-! ## Statements -/

namespace Statement

/-- The statement with its selected columns in small letters. -/
def lower (s : Statement) : Statement := { s with select := s.select.lower }

/-- The statement without its selected columns. -/
def unshown (s : Statement) : Statement := { s with select := { s.select with items := [] } }

/-- Two statements agree in all but the selected columns. -/
structure SameButShown (s t : Statement) : Prop where
  joins : s.select.joins = t.select.joins
  whereClause : s.whereClause = t.whereClause
  fromClause : s.fromClause = t.fromClause
  orderBy : s.orderBy = t.orderBy
  args : s.args = t.args
  indexHint : s.indexHint = t.indexHint
  limit : s.limit = t.limit
  distinct : s.distinct = t.distinct
  posx : s.posx = t.posx

/-- Two statements agree but for the letter case of selected columns. -/
structure SameLetters (s t : Statement) : Prop extends SameButShown s t where
  items : s.select.items.map (·.lower) = t.select.items.map (·.lower)
  sql : Text.asciiLower s.sql = Text.asciiLower t.sql

theorem sameButShown_of_unshown_eq {s t : Statement} (h : s.unshown = t.unshown)
    (hs : s.select.itemsFragment.args = []) (ht : t.select.itemsFragment.args = []) :
    s.SameButShown t := by
  have hselect : s.unshown.select = t.unshown.select := congrArg Statement.select h
  have hargs {s : Statement} (hs : s.select.itemsFragment.args = []) :
      s.args = s.unshown.select.fragment.args := by
    have hnone : s.unshown.select.itemsFragment.args = [] := rfl
    rw [args, Sql.Select.fragment, Sql.Select.fragment]
    simp only [Sql.Fragment.args_append, hs, hnone]
    rfl
  exact {
    joins := (congrArg Sql.Select.joins hselect :)
    whereClause := (congrArg (·.conditionFragment.sql) hselect :)
    fromClause := (congrArg (·.fromFragment.sql) hselect :)
    orderBy := (congrArg (·.orderFragment.sql) hselect :)
    args := by rw [hargs hs, hargs ht, hselect]
    indexHint := (congrArg Statement.indexHint h :)
    limit := (congrArg Statement.limit h :)
    distinct := (congrArg Sql.Select.distinct hselect :)
    posx := (congrArg Statement.posx h :) }

theorem sameLetters_of_lower_eq {s t : Statement} (h : s.lower = t.lower)
    (hs : s.select.itemsFragment.args = []) (ht : t.select.itemsFragment.args = []) :
    s.SameLetters t := by
  have hselect : s.select.lower = t.select.lower := congrArg Statement.select h
  have hunshown : s.lower.unshown = t.lower.unshown := congrArg Statement.unshown h
  have hsql : s.select.fragment.SameLetters t.select.fragment := by
    have hlower := s.select.sameLetters_lower
    rw [hselect] at hlower
    exact hlower.trans t.select.sameLetters_lower.symm
  exact {
    toSameButShown := sameButShown_of_unshown_eq hunshown hs ht
    items := (congrArg Sql.Select.items hselect :)
    sql := hsql }

end Statement

/-- Two compilations fail for the same reason or give related statements. -/
inductive Alike (R : Statement → Statement → Prop) :
    Except CompileError Statement → Except CompileError Statement → Prop
  | error (e : CompileError) : Alike R (.error e) (.error e)
  | ok {s t : Statement} (h : R s t) : Alike R (.ok s) (.ok t)

theorem alike_of_map_eq {R : Statement → Statement → Prop} {f : Statement → Statement}
    {x y : Except CompileError Statement} (h : x.map f = y.map f)
    (hR : ∀ s t, x = .ok s → y = .ok t → f s = f t → R s t) : Alike R x y := by
  rcases x with e | s
  · rcases y with e' | t
    · obtain rfl := Except.error.inj h
      exact .error e
    · cases h
  · rcases y with e' | t
    · cases h
    · exact .ok (hR s t rfl rfl (Except.ok.inj h))

/-! ## Compiling -/

namespace Backend

variable {b : Backend}

/-- **Assembling.** Apart from its selected columns a statement does not depend on letter case. -/
theorem map_unshown_assemble_lower (a : Assembly) :
    (b.lower.assemble a).map Statement.unshown = (b.assemble a).map Statement.unshown := by
  rw [assemble, assemble, orderField_lower]
  rcases b.orderField with e | ⟨f, r⟩
  · rfl
  · dsimp only [bind, Except.bind, pure, Except.pure, Except.map, Statement.unshown]
    rw [outputRelations_lower, joins_lower, fetchLimit_lower, columnExpr_lower, posx_lower]
    rfl

/-- **Assembling.** With plain spelling only the letter case of the selected columns changes. -/
theorem assemble_lower (h : b.SpelledPlainly) (a : Assembly) :
    b.lower.assemble a = (b.assemble a).map Statement.lower := by
  rw [assemble, assemble, orderField_lower]
  rcases b.orderField with e | ⟨f, r⟩
  · rfl
  · have hitems (a : Assembly) : (b.lower.outputColumns a).map (·.item)
        = ((b.outputColumns a).map (·.item)).map (·.lower) := by
      rw [outputColumns_lower h, List.map_map, List.map_map]
      exact List.map_congr_left fun c _ ↦ c.item_lower
    dsimp only [bind, Except.bind, pure, Except.pure, Except.map, Statement.lower]
    rw [outputRelations_lower, joins_lower, fetchLimit_lower, columnExpr_lower, posx_lower, hitems]
    rfl

theorem args_items_of_assemble {a : Assembly} {st : Statement} (h : b.assemble a = .ok st) :
    st.select.itemsFragment.args = [] := by
  obtain ⟨⟨f, r⟩, -, h⟩ := exists_of_bind_eq_ok h
  obtain rfl := Except.ok.inj h
  rw [Sql.Select.args_itemsFragment, List.flatMap_eq_nil_iff]
  intro i hi
  obtain ⟨c, hc, rfl⟩ := List.mem_map.mp hi
  obtain ⟨aliasName, column, hexpr⟩ := exists_expr_of_mem_outputColumns hc
  rw [OutputColumn.item, hexpr]
  rfl

theorem args_items_of_compile {q : Query} {st : Statement} (h : b.compile q = .ok st) :
    st.select.itemsFragment.args = [] := by
  obtain ⟨-, plans, h⟩ := exists_assemble_of_compile h
  exact args_items_of_assemble h

theorem args_items_of_compileWords {words : List String} {st : Statement}
    (h : b.compileWords words = .ok st) : st.select.itemsFragment.args = [] := by
  rw [compileWords] at h
  split at h
  · cases h
  · exact args_items_of_assemble h

section

variable {b' : Backend} {f g : Statement → Statement}

theorem map_compile_of_lower_eq (hlower : b.lower = b'.lower)
    (hb : ∀ a, (b.lower.assemble a).map f = (b.assemble a).map g)
    (hb' : ∀ a, (b'.lower.assemble a).map f = (b'.assemble a).map g) (q : Query) :
    (b.compile q).map g = (b'.compile q).map g := by
  have hplan : b.plan = b'.plan := by rw [← plan_lower, hlower, plan_lower]
  rw [compile, compile, hplan]
  split
  · rfl
  · rcases q.predicates.mapM b'.plan with e | plans
    · change Except.map g (.error e) = Except.map g (.error e)
      rfl
    · exact (hb (.ofPlans plans)).symm.trans (hlower ▸ hb' (.ofPlans plans))

theorem map_compileWords_of_lower_eq (hlower : b.lower = b'.lower)
    (hb : ∀ a, (b.lower.assemble a).map f = (b.assemble a).map g)
    (hb' : ∀ a, (b'.lower.assemble a).map f = (b'.assemble a).map g) (words : List String) :
    (b.compileWords words).map g = (b'.compileWords words).map g := by
  rw [compileWords, compileWords]
  split
  · rfl
  · exact (hb (.ofWords words)).symm.trans (hlower ▸ hb' (.ofWords words))

end

theorem map_id_assemble_lower (h : b.SpelledPlainly) (a : Assembly) :
    (b.lower.assemble a).map id = (b.assemble a).map Statement.lower := by
  rw [assemble_lower h]
  rcases b.assemble a with e | st
  · rfl
  · rfl

end Backend

/-- **Letter case.** Two schemas that differ only in the letter case of columns have the same
catalog. Under them a query, and a list of words, is refused for the same reason or compiled to
statements that agree in all but the selected columns; and where both schemas spell the columns that
the compiler knows as it spells them, and no two shown names differ in letter case alone, the
selected columns are the same but for letter case as well. -/
theorem compile_of_respelling {s s' : Schema} (h : s.lower = s'.lower) :
    Catalog.relational s = Catalog.relational s' ∧
      ∀ (catalog : Catalog) (settings : QuerySettings),
        (∀ q, Alike Statement.SameButShown
          (Backend.compile ⟨catalog, s, settings⟩ q) (Backend.compile ⟨catalog, s', settings⟩ q)) ∧
        (∀ words, Alike Statement.SameButShown
          (Backend.compileWords ⟨catalog, s, settings⟩ words)
          (Backend.compileWords ⟨catalog, s', settings⟩ words)) ∧
        (Backend.SpelledPlainly ⟨catalog, s, settings⟩ →
          Backend.SpelledPlainly ⟨catalog, s', settings⟩ →
          (∀ q, Alike Statement.SameLetters (Backend.compile ⟨catalog, s, settings⟩ q)
            (Backend.compile ⟨catalog, s', settings⟩ q)) ∧
          ∀ words, Alike Statement.SameLetters (Backend.compileWords ⟨catalog, s, settings⟩ words)
            (Backend.compileWords ⟨catalog, s', settings⟩ words)) := by
  refine ⟨by rw [← Catalog.relational_lower s, h, Catalog.relational_lower], ?_⟩
  intro catalog settings
  have hlower : Backend.lower ⟨catalog, s, settings⟩ = Backend.lower ⟨catalog, s', settings⟩ :=
    congrArg (fun s ↦ (⟨catalog, s, settings⟩ : Backend)) h
  refine ⟨fun q ↦ ?_, fun words ↦ ?_, fun hs hs' ↦ ⟨fun q ↦ ?_, fun words ↦ ?_⟩⟩
  · have hmap := Backend.map_compile_of_lower_eq hlower Backend.map_unshown_assemble_lower
      Backend.map_unshown_assemble_lower q
    exact alike_of_map_eq hmap fun st st' hst hst' heq ↦ Statement.sameButShown_of_unshown_eq heq
      (Backend.args_items_of_compile hst) (Backend.args_items_of_compile hst')
  · have hmap := Backend.map_compileWords_of_lower_eq hlower Backend.map_unshown_assemble_lower
      Backend.map_unshown_assemble_lower words
    exact alike_of_map_eq hmap fun st st' hst hst' heq ↦ Statement.sameButShown_of_unshown_eq heq
      (Backend.args_items_of_compileWords hst) (Backend.args_items_of_compileWords hst')
  · have hmap := Backend.map_compile_of_lower_eq hlower (Backend.map_id_assemble_lower hs)
      (Backend.map_id_assemble_lower hs') q
    exact alike_of_map_eq hmap fun st st' hst hst' heq ↦ Statement.sameLetters_of_lower_eq heq
      (Backend.args_items_of_compile hst) (Backend.args_items_of_compile hst')
  · have hmap := Backend.map_compileWords_of_lower_eq hlower (Backend.map_id_assemble_lower hs)
      (Backend.map_id_assemble_lower hs') words
    exact alike_of_map_eq hmap fun st st' hst hst' heq ↦ Statement.sameLetters_of_lower_eq heq
      (Backend.args_items_of_compileWords hst) (Backend.args_items_of_compileWords hst')

/-- A corpus with capitals in columns that the compiler does not know by name, or looks for without
regard to case. -/
def capitalSchema : Schema where
  tables := [("wordfreqs", ["LEMMA", "Form", "pos", "posx", "frequency", "frequencyx", "featid"]),
    ("features", ["featid", "NounCase"])]

/-- The same corpus in small letters. -/
def smallSchema : Schema where
  tables := [("wordfreqs", ["lemma", "form", "pos", "posx", "frequency", "frequencyx", "featid"]),
    ("features", ["featid", "nouncase"])]

/-- There the statements differ in the letter case of selected columns only. -/
theorem compile_of_capitals :
    Catalog.relational capitalSchema = Catalog.relational smallSchema ∧
      ∃ st st', Backend.compile ⟨.relational capitalSchema, capitalSchema, {}⟩
          { predicates := [⟨"nouncase", .equal, .text "Gen", false⟩] } = .ok st ∧
        Backend.compile ⟨.relational capitalSchema, smallSchema, {}⟩
          { predicates := [⟨"nouncase", .equal, .text "Gen", false⟩] } = .ok st' ∧
        st.SameLetters st' := by
  have hlower : capitalSchema.lower = smallSchema.lower :=
    Schema.lower_eq (by decide +kernel) rfl
  obtain ⟨hcatalog, hcompile⟩ := compile_of_respelling hlower
  have hcapital : Backend.SpelledPlainly ⟨.relational capitalSchema, capitalSchema, {}⟩ :=
    ⟨by decide +kernel, by decide +kernel, fun _ ↦ by decide +kernel, by decide +kernel⟩
  have hsmall : Backend.SpelledPlainly ⟨.relational capitalSchema, smallSchema, {}⟩ :=
    ⟨by decide +kernel, by decide +kernel, fun _ ↦ by decide +kernel, by decide +kernel⟩
  have halike := ((hcompile (.relational capitalSchema) {}).2.2 hcapital hsmall).1
    { predicates := [⟨"nouncase", .equal, .text "Gen", false⟩] }
  refine ⟨hcatalog, ?_⟩
  obtain ⟨st, hst⟩ : ∃ st, Backend.compile ⟨.relational capitalSchema, capitalSchema, {}⟩
      { predicates := [⟨"nouncase", .equal, .text "Gen", false⟩] } = .ok st := ⟨_, rfl⟩
  obtain ⟨st', hst'⟩ : ∃ st, Backend.compile ⟨.relational capitalSchema, smallSchema, {}⟩
      { predicates := [⟨"nouncase", .equal, .text "Gen", false⟩] } = .ok st := ⟨_, rfl⟩
  rw [hst, hst'] at halike
  cases halike with
  | ok h => exact ⟨st, st', hst, hst', h⟩

/-- A corpus whose number of the features is spelled with capitals. -/
def shownKeySchema : Schema where
  tables := [("wordfreqs", ["form", "frequency", "FeatID"])]

/-- The same corpus in small letters. -/
def hiddenKeySchema : Schema where
  tables := [("wordfreqs", ["form", "frequency", "featid"])]

/-- Without plain spelling the selected columns may differ: a column that is not to be shown is
shown if it is spelled with capitals. -/
theorem shown_columns_depend_on_case :
    ¬ ∀ (s s' : Schema) (settings : QuerySettings) (q : Query), s.lower = s'.lower →
      Alike Statement.SameLetters (Backend.compile ⟨.relational s, s, settings⟩ q)
        (Backend.compile ⟨.relational s', s', settings⟩ q) := by
  intro h
  have hlower : shownKeySchema.lower = hiddenKeySchema.lower :=
    Schema.lower_eq (by decide +kernel) rfl
  have halike := h _ _ {} { predicates := [⟨"form", .equal, .text "a", false⟩] } hlower
  obtain ⟨st, hst, hitems⟩ : ∃ st, Backend.compile ⟨.relational shownKeySchema, shownKeySchema, {}⟩
      { predicates := [⟨"form", .equal, .text "a", false⟩] } = .ok st ∧
        st.select.items.length = 3 := ⟨_, rfl, rfl⟩
  obtain ⟨st', hst', hitems'⟩ : ∃ st,
      Backend.compile ⟨.relational hiddenKeySchema, hiddenKeySchema, {}⟩
        { predicates := [⟨"form", .equal, .text "a", false⟩] } = .ok st ∧
          st.select.items.length = 2 := ⟨_, rfl, rfl⟩
  rw [hst, hst'] at halike
  cases halike with
  | ok hsame =>
    have hlength := congrArg List.length hsame.items
    rw [List.length_map, List.length_map, hitems, hitems'] at hlength
    cases hlength

end CorpusQuery

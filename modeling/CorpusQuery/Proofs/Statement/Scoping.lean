import CorpusQuery.Proofs.Catalog.Layout
import CorpusQuery.Proofs.Selection.Joined

/-!
# Statements are well scoped

Tables are asked for in four places, by the conditions, by the order, by the settings and by the
look-ups, and joined in another. A statement is well scoped if nothing gets lost between them: no
two tables have one alias, every column is one of a table under its alias and is known to the
schema, the condition of a join looks at no other joined table, and no two shown columns are written
under one name. Over a schema that follows the layout of a corpus all statements are well scoped.

The aliases were dealt with before. What is new are the columns, and they come from three sources:
fields live in columns that are there, columns are shown because the schema lists them or has been
asked for them, and joins use the columns that the layout promises. Under the settings that tell
forms apart by part of speech other columns take the place of some, but only if these are there.

## Main statements

* `Backend.backed_of_plan`: the columns of conditions are there.
* `Backend.over_linkCondition`: the columns of joins are there.
* `Backend.SelectSpec.wellScoped`: statements are well scoped.
-/

namespace CorpusQuery

open Sql (ColumnName Expr Join Select SelectItem Source TableName)
open Assembly (Lookup lookups)

/-! ## Scopes of statements -/

namespace Sql

/-- A table of a statement under its alias; without one it goes by its own name. -/
def Source.named (s : Source) : String × TableName := (s.aliasName.getD s.table.table, s.table)

/-- A joined table under its alias; without one it goes by its own name. -/
def Join.named (j : Join) : String × TableName := (j.aliasName.getD j.table.table, j.table)

/-- The tables of a statement under their aliases. -/
def Select.tables (s : Select) : List (String × TableName) :=
  s.sources.map (·.named) ++ s.joins.map (·.named)

/-- The name that a statement writes for a shown column: the one behind the column, or else the
column itself. -/
def SelectItem.writtenName (i : SelectItem) : String :=
  match i.aliasName, i.expr with
  | some name, _ => name
  | none, .column _ name => name
  | none, e => e.fragment.sql

end Sql

/-- A column is named under the alias of one of these tables, and the table has it. -/
def Schema.Knows (s : Schema) (tables : List (String × TableName)) (c : ColumnName) : Prop :=
  ∃ t ∈ tables, c.qualifier = some t.1 ∧ s.hasColumn t.2.table c.name = true

/-- **Well-scoped statements.** -/
structure Sql.Select.WellScoped (schema : Schema) (s : Select) : Prop where
  /-- All tables are tables of the corpus. -/
  tables : ∀ t ∈ s.tables, t.2.schema = none ∧ schema.hasTable t.2.table = true
  /-- No two tables have one alias, not even up to the case of letters. -/
  aliases : (s.tables.map fun t ↦ Text.asciiLower t.1).Nodup
  items : ∀ i ∈ s.items, i.expr.Over (schema.Knows s.tables)
  /-- The condition of a join is about the sources and the joined table alone. -/
  joins : ∀ j ∈ s.joins, j.condition.Over (schema.Knows (s.sources.map (·.named) ++ [j.named]))
  condition : ∀ e ∈ s.condition, e.Over (schema.Knows s.tables)
  order : ∀ o ∈ s.order, o.expr.Over (schema.Knows s.tables)
  /-- No two shown columns have one name in the statement. -/
  names : (s.items.map (·.writtenName)).Nodup

/-! ## Columns of relations -/

/-- If a column is named under the alias of a relation then the table of the relation has it. -/
def Schema.Backs (s : Schema) (c : ColumnName) : Prop :=
  ∀ r : Relation, c.qualifier = some r.aliasName → s.hasColumn r.table c.name = true

theorem Relation.aliasName_inj {r s : Relation} (h : r.aliasName = s.aliasName) : r = s :=
  (Assembly.satelliteAlias_inj (m := 0) (n := 0) h).1

theorem Schema.backs_of {s : Schema} {r : Relation} {name : String}
    (h : s.hasColumn r.table name = true) : s.Backs ⟨some r.aliasName, name⟩ := by
  intro r' hr'
  obtain rfl := Relation.aliasName_inj (Option.some.inj hr')
  exact h

namespace Backend

variable {b : Backend}

theorem hasColumn_physicalColumn {r : Relation} {column : String}
    (h : b.schema.hasColumn r.table column = true) :
    b.schema.hasColumn r.table (b.physicalColumn r column) = true := by
  rw [physicalColumn.eq_def]
  split
  case isFalse => exact h
  case isTrue hr =>
    obtain ⟨rfl, hposx⟩ := hr
    rw [posx, Bool.and_eq_true, Bool.and_eq_true] at hposx
    split
    · exact hposx.1.2
    · exact hposx.2
    · exact h

end Backend

/-! ## Conditions -/

/-- The columns of a plan are there. -/
def ConditionPlan.Backed (s : Schema) : ConditionPlan → Prop
  | .shared condition _ _ _ => condition.Over s.Backs
  | .satellite r column _ _ => s.hasColumn r.table column = true

namespace Backend

variable {b : Backend}

/-- **Columns of conditions.** -/
theorem backed_of_plan (hcatalog : b.catalog = .relational b.schema)
    (hlayout : b.schema.FollowsLayout) {p : Predicate} {plan : ConditionPlan}
    (h : b.plan p = .ok plan) : plan.Backed b.schema := by
  obtain ⟨f, r, hf, hr, -, hplanned⟩ := exists_planned h
  have hmem : f ∈ (Catalog.relational b.schema).fields := hcatalog ▸ Catalog.mem_of_get? hf
  obtain ⟨hcolumn, hsatellite⟩ := Catalog.hasColumn_of_mem_relational hlayout f hmem
  cases hplanned with
  | @positional e _ he =>
    refine over_ite_negate (Expr.Over.orAll? (fun e he ↦ ?_) he) p.negated
    obtain ⟨s, -, rfl⟩ := List.mem_map.mp he
    apply over_positionalCondition
    · exact Schema.backs_of (hlayout.hasColumn_facts (by decide))
    · exact fun hreversed ↦ Schema.backs_of hreversed
  | satellite _ hs _ => exact hsatellite _ (satellite_of_satelliteFor? hs)
  | @column e _ _ he =>
    have hbacks := Schema.backs_of (hasColumn_physicalColumn (hcolumn r hr))
    exact over_ite_negate (over_columnCondition hbacks he) p.negated

theorem backed_wordsPlan {s : Schema} (hlayout : s.FollowsLayout) (words : List String) :
    (wordsPlan words).Backed s :=
  over_wordsPlan (Schema.backs_of (hlayout.hasColumn_facts (by decide))) words ""

theorem backs_orderField (hcatalog : b.catalog = .relational b.schema)
    (hlayout : b.schema.FollowsLayout) {f : Field} {r : Relation}
    (h : b.orderField = .ok (f, r)) : (b.columnExpr f r).Over b.schema.Backs := by
  obtain ⟨hf, hr, -⟩ := exists_field_of_orderField h
  have hmem : f ∈ (Catalog.relational b.schema).fields := hcatalog ▸ Catalog.mem_of_get? hf
  have hcolumn := (Catalog.hasColumn_of_mem_relational hlayout f hmem).1 r hr
  exact over_columnExpr (Schema.backs_of (hasColumn_physicalColumn hcolumn))

end Backend

namespace Assembly

/-- A labelled plan is about a table that is joined once, or it is a look-up under its alias. -/
theorem mem_label {seen : List Relation} {plans : List ConditionPlan} {e : ConditionPlan × String}
    (h : e ∈ label seen plans) :
    (∃ condition r touched unanchored, e.1 = .shared condition r touched unanchored ∧
      e.1 ∈ plans) ∨ ∃ l ∈ lookups seen plans, e = (l.plan, l.aliasName) := by
  induction plans generalizing seen with
  | nil => cases h
  | cons plan plans ih =>
    cases plan with
    | satellite r column first rest =>
      rcases List.mem_cons.mp h with rfl | h
      · exact .inr ⟨_, List.mem_cons_self, rfl⟩
      · refine (ih h).imp ?_ ?_
        · rintro ⟨c, s, t, u, heq, hmem⟩
          exact ⟨c, s, t, u, heq, List.mem_cons_of_mem _ hmem⟩
        · rintro ⟨l, hl, heq⟩
          exact ⟨l, List.mem_cons_of_mem _ hl, heq⟩
    | shared condition r touched unanchored =>
      rcases List.mem_cons.mp h with rfl | h
      · exact .inl ⟨_, _, _, _, rfl, List.mem_cons_self⟩
      · refine (ih h).imp_left ?_
        rintro ⟨c, s, t, u, heq, hmem⟩
        exact ⟨c, s, t, u, heq, List.mem_cons_of_mem _ hmem⟩

theorem mem_conditions_ofPlans {plans : List ConditionPlan} {e : Expr}
    (h : e ∈ (ofPlans plans).conditions) :
    (∃ r touched unanchored, .shared e r touched unanchored ∈ plans) ∨
      ∃ l ∈ lookups [] plans, e = l.condition := by
  obtain ⟨⟨plan, aliasName⟩, hmem, rfl⟩ := List.mem_map.mp h
  rcases mem_label hmem with ⟨condition, r, touched, unanchored, rfl, hplan⟩ | ⟨l, hl, heq⟩
  · exact .inl ⟨r, touched, unanchored, hplan⟩
  · obtain ⟨rfl, rfl⟩ := Prod.mk.inj heq
    exact .inr ⟨l, hl, rfl⟩

end Assembly

/-! ## Shown columns -/

namespace Backend

variable {b : Backend}

theorem backs_of_mem_outputColumns (hlayout : b.schema.FollowsLayout) {a : Assembly}
    (hrequired : ∀ r, a.requires r = true → b.schema.hasTable r.table = true)
    {c : OutputColumn} (h : c ∈ b.outputColumns a) : c.expr.Over b.schema.Backs := by
  cases shown_of_mem_outputColumns h with
  | fact hcolumn =>
    have hdeclared := Schema.hasColumn_of_mem (List.mem_filter.mp hcolumn).1
    exact Expr.over_of (Schema.backs_of (hasColumn_physicalColumn hdeclared))
  | feature _ hcolumn =>
    have hdeclared := Schema.hasColumn_of_mem (List.mem_filter.mp hcolumn).1
    exact Expr.over_of (Schema.backs_of hdeclared)
  | statistic _ hcolumn => exact Expr.over_of (Schema.backs_of (List.mem_filter.mp hcolumn).2)
  | @gram r _ hr hgram =>
    have hall : ∀ e ∈ gramColumns, "frequency" ∈ e.1.keyColumns := by decide
    exact Expr.over_of (Schema.backs_of (hlayout.keys r (hrequired r hr) _ (hall _ hgram)))

theorem nodup_names_firstOfEachName (seen : List String) (cs : List OutputColumn) :
    ((firstOfEachName seen cs).map (·.name)).Nodup ∧
      ∀ c ∈ firstOfEachName seen cs, c.name ∉ seen := by
  induction cs generalizing seen with
  | nil => exact ⟨List.nodup_nil, fun _ h ↦ absurd h List.not_mem_nil⟩
  | cons first cs ih =>
    rw [firstOfEachName]
    split
    case isTrue => exact ih seen
    case isFalse hseen =>
      obtain ⟨hnodup, hnotin⟩ := ih (first.name :: seen)
      constructor
      · rw [List.map_cons, List.nodup_cons]
        refine ⟨fun hmem ↦ ?_, hnodup⟩
        obtain ⟨c, hc, hname⟩ := List.mem_map.mp hmem
        exact hnotin c hc (hname ▸ List.mem_cons_self)
      · intro c hc
        rcases List.mem_cons.mp hc with rfl | hc
        · rwa [List.contains_iff_mem] at hseen
        · exact fun hmem ↦ hnotin c hc (List.mem_cons_of_mem _ hmem)

theorem writtenName_item {a : Assembly} {c : OutputColumn} (h : c ∈ b.outputColumns a) :
    c.item.writtenName = c.name := by
  cases shown_of_mem_outputColumns h with
  | @fact column =>
    by_cases hphysical : b.physicalColumn .facts column = column
    · simp [OutputColumn.item, SelectItem.writtenName, Expr.of, hphysical]
    · simp [OutputColumn.item, SelectItem.writtenName, hphysical]
  | feature | statistic | gram => rfl

theorem nodup_writtenNames (b : Backend) (a : Assembly) :
    (((b.outputColumns a).map (·.item)).map (·.writtenName)).Nodup := by
  have hnames : ((b.outputColumns a).map (·.item)).map (·.writtenName)
      = (b.outputColumns a).map (·.name) := by
    rw [List.map_map]
    exact List.map_congr_left fun c hc ↦ writtenName_item hc
  rw [hnames]
  exact (nodup_names_firstOfEachName [] _).1

/-! ## Joins -/

/-- The table of a relation under an alias. -/
def namedTable (link : Relation × String) : String × TableName :=
  (link.2, { table := link.1.table })

/-- The facts table under its alias. -/
def factsTable : String × TableName := namedTable (.facts, Relation.facts.aliasName)

/-- **Conditions of joins** compare the joined table with the facts table, in columns that the
layout promises. -/
theorem over_linkCondition (hlayout : b.schema.FollowsLayout) {r : Relation} {aliasName : String}
    (hr : r ≠ .facts) (htable : b.schema.hasTable r.table = true)
    (halias : r.isSatellite = false → aliasName = r.aliasName) :
    (b.linkCondition r aliasName).Over
      (b.schema.Knows [factsTable, namedTable (r, aliasName)]) := by
  have hfacts {column : String} (h : b.schema.hasColumn Relation.facts.table column = true) :
      (Expr.of Relation.facts.aliasName column).Over
        (b.schema.Knows [factsTable, namedTable (r, aliasName)]) :=
    Expr.over_of ⟨factsTable, List.mem_cons_self, rfl, h⟩
  have hjoined {column : String} (h : column ∈ r.keyColumns) :
      (Expr.of aliasName column).Over
        (b.schema.Knows [factsTable, namedTable (r, aliasName)]) :=
    Expr.over_of ⟨namedTable (r, aliasName), by simp, rfl, hlayout.keys r htable _ h⟩
  have htrigram (start : Int) : (trigram (.of Relation.facts.aliasName "form") start).Over
      (b.schema.Knows [factsTable, namedTable (r, aliasName)]) := by
    intro c hc
    exact hfacts (hlayout.hasColumn_facts (by decide)) c hc
  have hfeatures (h : "featid" ∈ r.keyColumns) : (sameFeatures aliasName).Over
      (b.schema.Knows [factsTable, namedTable (r, aliasName)]) :=
    (hjoined h).binary .eq (hfacts (hlayout.features r h htable))
  cases r with
  | facts => exact absurd rfl hr
  | features | derivations | clitics | nounCases => exact hfeatures (by decide)
  | lemmas =>
    obtain rfl := halias rfl
    have hpos : b.schema.hasColumn Relation.facts.table (if b.posx then "posx" else "pos")
        = true := by
      split
      case isTrue hposx =>
        rw [posx, Bool.and_eq_true, Bool.and_eq_true] at hposx
        exact hposx.1.2
      case isFalse => exact hlayout.hasColumn_facts (by decide)
    exact ((hjoined (by decide)).binary .eq (hfacts (hlayout.hasColumn_facts (by decide)))).binary
      .and ((hjoined (by decide)).binary .eq (hfacts hpos))
  | initGrams =>
    obtain rfl := halias rfl
    exact (hjoined (by decide)).binary .eq (htrigram 1)
  | finGrams =>
    obtain rfl := halias rfl
    exact (hjoined (by decide)).binary .eq (htrigram (-3))
  | bigrams =>
    obtain rfl := halias rfl
    exact (hjoined (by decide)).binary .eq (hfacts (hlayout.hasColumn_facts (by decide)))

/-! ## Statements -/

section Select

variable {plans : List ConditionPlan} {a : Assembly} {s : Select}

theorem tables_eq (hs : b.SelectSpec plans a s) :
    s.tables = factsTable :: (a.links (lookups [] plans)).map namedTable := by
  obtain ⟨index, hsources⟩ := hs.sources
  rw [Select.tables, hsources, Database.joins_eq_map_links hs, List.map_map]
  rfl

theorem mem_tables_of_requires (hs : b.SelectSpec plans a s) {r : Relation}
    (hsatellite : r.isSatellite = false) (hr : r = .facts ∨ a.requires r = true) :
    namedTable (r, r.aliasName) ∈ s.tables := by
  rw [tables_eq hs]
  by_cases hne : r = .facts
  · rw [hne]
    exact List.mem_cons_self
  · refine List.mem_cons_of_mem _ (List.mem_map_of_mem ?_)
    rcases Assembly.mem_before_or_after hsatellite (hr.resolve_left hne) hne with hr | hr
    · exact List.mem_append_left _ (List.mem_append_left _ (List.mem_map_of_mem hr))
    · exact List.mem_append_right _ (List.mem_map_of_mem hr)

theorem mem_tables_of_mem_lookups (hs : b.SelectSpec plans a s) {l : Lookup}
    (hl : l ∈ lookups [] plans) : namedTable (l.relation, l.aliasName) ∈ s.tables := by
  rw [tables_eq hs]
  refine List.mem_cons_of_mem _ (List.mem_map_of_mem ?_)
  exact List.mem_append_left _ (List.mem_append_right _ (List.mem_map_of_mem hl))

theorem over_knows_of_covers (hs : b.SelectSpec plans a s) {e : Expr} (he : a.Covers e)
    (hbacks : e.Over b.schema.Backs) : e.Over (b.schema.Knows s.tables) := by
  obtain ⟨r, hsatellite, hr, habout⟩ := he
  intro c hc
  have hname := habout c hc
  exact ⟨_, mem_tables_of_requires hs hsatellite hr, hname, hbacks c hc r hname⟩

theorem over_knows_condition (hs : b.SelectSpec plans a s)
    (hplans : ∀ plan ∈ plans, plan.Backed b.schema) {e : Expr}
    (he : e ∈ (Assembly.ofPlans plans).conditions) : e.Over (b.schema.Knows s.tables) := by
  rcases Assembly.mem_conditions_ofPlans he with ⟨r, touched, unanchored, hplan⟩ | ⟨l, hl, rfl⟩
  · exact over_knows_of_covers hs (hs.shared _ _ _ _ hplan) (hplans _ hplan)
  · have hcolumn : (Expr.of l.aliasName l.column).Over (b.schema.Knows s.tables) :=
      Expr.over_of ⟨_, mem_tables_of_mem_lookups hs hl, rfl,
        hplans _ (Assembly.plan_mem_of_mem_lookups hl)⟩
    rcases l with ⟨r, aliasName, column, first, rest⟩
    cases rest with
    | nil => exact hcolumn.binary .eq (Expr.over_value first)
    | cons next rest => exact hcolumn.inValues _ false

theorem spec_of_mem_links (hs : b.SelectSpec plans a s)
    (hplans : ∀ plan ∈ plans, plan.Backed b.schema) {link : Relation × String}
    (hlink : link ∈ a.links (lookups [] plans)) :
    link.1 ≠ .facts ∧ b.schema.hasTable link.1.table = true := by
  simp only [Assembly.links, List.mem_append, List.mem_map] at hlink
  rcases hlink with (⟨r, hr, rfl⟩ | ⟨l, hl, rfl⟩) | ⟨r, hr, rfl⟩
  · obtain ⟨hrequired, hne⟩ := Assembly.mem_before hr
    exact ⟨hne, (hs.required r hrequired).1⟩
  · have hsatellite := Database.isSatellite_of_mem_lookups hs hl
    refine ⟨?_, Schema.hasTable_of_hasColumn (hplans _ (Assembly.plan_mem_of_mem_lookups hl))⟩
    rintro (hfacts : l.relation = .facts)
    rw [hfacts] at hsatellite
    cases hsatellite
  · obtain ⟨hrequired, hne⟩ := Assembly.mem_after hr
    exact ⟨hne, (hs.required r hrequired).1⟩

/-- **From columns that are there to scopes.** -/
theorem SelectSpec.wellScoped (hs : b.SelectSpec plans a s)
    (hcatalog : b.catalog = .relational b.schema) (hlayout : b.schema.FollowsLayout)
    (hplans : ∀ plan ∈ plans, plan.Backed b.schema) : s.WellScoped b.schema where
  tables := by
    rw [tables_eq hs]
    intro t ht
    rcases List.mem_cons.mp ht with rfl | ht
    · exact ⟨rfl, hlayout.facts⟩
    · obtain ⟨link, hlink, rfl⟩ := List.mem_map.mp ht
      exact ⟨rfl, (spec_of_mem_links hs hplans hlink).2⟩
  aliases := by
    have hnames : (s.tables.map fun t ↦ Text.asciiLower t.1)
        = (Database.aliases plans a).map Text.asciiLower := by
      rw [tables_eq hs, Database.aliases, Assembly.joinedAliases, Assembly.links]
      simp only [List.map_cons, List.map_append, List.map_map]
      rfl
    rw [hnames]
    exact Database.nodup_map_asciiLower_aliases hs
  items := by
    intro i hi
    refine over_knows_of_covers hs (hs.covers_items i hi) ?_
    rw [hs.items] at hi
    obtain ⟨c, hc, rfl⟩ := List.mem_map.mp hi
    exact backs_of_mem_outputColumns hlayout (fun r hr ↦ (hs.required r hr).1) hc
  joins := by
    obtain ⟨index, hsources⟩ := hs.sources
    rw [Database.joins_eq_map_links hs, hsources]
    intro j hj
    obtain ⟨link, hlink, rfl⟩ := List.mem_map.mp hj
    obtain ⟨hne, htable⟩ := spec_of_mem_links hs hplans hlink
    exact over_linkCondition hlayout hne htable (Database.aliasName_of_mem_links hs hlink)
  condition := by
    intro e he
    rw [hs.condition] at he
    exact Expr.Over.andAll? (fun e he ↦ over_knows_condition hs hplans he) he
  order := by
    intro o ho
    refine over_knows_of_covers hs (hs.order o ho) ?_
    obtain ⟨f, r, horder, hexpr⟩ := hs.ordered
    rw [hexpr o ho]
    exact backs_orderField hcatalog hlayout horder
  names := by
    rw [hs.items]
    exact nodup_writtenNames b a

end Select

end Backend

/-- What a compiled statement is made of, over a schema that follows the layout of a corpus. -/
theorem Backend.exists_backed_spec {b : Backend} (hcatalog : b.catalog = .relational b.schema)
    (hlayout : b.schema.FollowsLayout) {st : Statement}
    (h : (∃ q, b.compile q = .ok st) ∨ ∃ words, b.compileWords words = .ok st) :
    ∃ plans a, b.SelectSpec plans a st.select ∧ ∀ plan ∈ plans, plan.Backed b.schema := by
  rcases h with ⟨q, hq⟩ | ⟨words, hwords⟩
  · obtain ⟨plans, a, hmapM, hs⟩ := Backend.exists_select_of_compile hcatalog hq
    refine ⟨plans, a, hs, fun plan hplan ↦ ?_⟩
    obtain ⟨p, -, hp⟩ := exists_of_mem_mapM hmapM hplan
    exact Backend.backed_of_plan hcatalog hlayout hp
  · obtain ⟨a, hs⟩ := Backend.exists_select_of_compileWords hcatalog hwords
    refine ⟨_, a, hs, fun plan hplan ↦ ?_⟩
    rw [List.mem_singleton.mp hplan]
    exact Backend.backed_wordsPlan hlayout words

end CorpusQuery

import CorpusQuery.Proofs.Lists
import CorpusQuery.Proofs.Query.Compiling
import CorpusQuery.Proofs.Selection.Distinct
import CorpusQuery.Proofs.Selection.Joined

/-!
# Joins neither double nor lose words

A statement joins a word with its features, its lemma, its n-grams and any number of satellites, and
the joins of satellites multiply: a word with two matching rows in each of three satellites comes in
eight combinations. Still a statement yields every word that meets the query once, and nothing else.

All combinations of a word show the same, since nothing that is shown is about a satellite, and the
same conditions hold for them apart from the look-ups. So each word gives copies of one row, and the
number of copies is the product, over the look-ups, of the number of rows that are found. It is zero
if the word does not meet a look-up. It is at most one as long as each look-up has one value, for
a value stands in a satellite at most once. When a look-up has several values the statement asks for
distinct rows, and different words are not alike.

## Main statements

* `Database.rows_eq_copies`: what a statement selects, as copies of one row for each word.
* `selectRows_perm_words`: what is left of that.
-/

namespace CorpusQuery

open Sql (Datum Expr Select)
open Assembly (Lookup lookups passesIfShared)

namespace Assembly.Lookup

/-- Whether a row of a satellite holds one of the values that are looked up. -/
def passes (l : Lookup) (p : Part) : Bool := l.values.any fun v ↦ p.columnIs l.column (.ofValue v)

theorem holds_condition {l : Lookup} {p : Part} {scope : Sql.Scope}
    (hscope : ∀ name, scope ⟨some l.aliasName, name⟩ = p.column? name) :
    (l.condition.truth scope).holds = l.passes p := by
  rcases l with ⟨r, aliasName, column, first, rest⟩
  cases rest with
  | nil =>
    rw [passes, values, List.any_cons, List.any_nil, Bool.or_false]
    exact holds_columnIs hscope rfl column
  | cons next rest => exact holds_inValues hscope column (first :: next :: rest)

end Assembly.Lookup

namespace Database

variable {db : Database} {b : Backend} {w : Part}

/-! ## What a word meets and shows -/

/-- Whether a word meets a plan. -/
def meetsPlan (db : Database) (w : Part) : ConditionPlan → Bool
  | .shared condition _ _ _ => (condition.truth (db.entry w).scope).holds
  | .satellite r column first rest =>
    (db.hanging w r r.aliasName).any fun s ↦
      (first :: rest).any fun v ↦ s.columnIs column (.ofValue v)

/-- Whether a word meets a predicate. A predicate that is planned as a look-up in a satellite asks
for a row there that hangs off the word and holds one of its values. Any other one has a condition,
which has to be true of the word with its rows of the other tables. -/
def meets (db : Database) (b : Backend) (w : Part) (p : Predicate) : Bool :=
  match b.plan p with
  | .ok (.shared condition _ _ _) => (condition.truth (db.entry w).scope).holds
  | .ok (.satellite r column _ _) =>
    (db.hanging w r r.aliasName).any fun s ↦
      p.operand.values.any fun v ↦ s.columnIs column (.ofValue v)
  | .error _ => false

/-- What the columns of a statement show of a word. -/
def shown (db : Database) (s : Select) (w : Part) : List Datum :=
  s.items.map (·.expr.eval (db.entry w).scope)

theorem meets_eq_meetsPlan (hcatalog : b.catalog = .relational b.schema) {p : Predicate}
    {plan : ConditionPlan} (h : b.plan p = .ok plan) : db.meets b w p = db.meetsPlan w plan := by
  rw [meets, h]
  cases Backend.plan_spec hcatalog h with
  | shared => rfl
  | satellite _ hvalues =>
    dsimp only
    rw [hvalues]
    rfl

/-! ## Copies of a word -/

/-- The choices of rows for the look-ups that are left by all conditions. -/
def hits (db : Database) (plans : List ConditionPlan) (w : Part) : List (List Part) :=
  if plans.all (passesIfShared (db.meetsPlan w)) then
    choices ((lookups [] plans).map fun l ↦ (db.partnersOf w l).filter l.passes)
  else []

theorem isEmpty_hits (plans : List ConditionPlan) :
    (!(db.hits plans w).isEmpty) = plans.all (db.meetsPlan w) := by
  rw [Assembly.all_plans, hits]
  cases plans.all (passesIfShared (db.meetsPlan w)) with
  | false => rfl
  | true =>
    rw [if_pos rfl, Bool.true_and, Bool.eq_iff_iff, Bool.not_eq_true', List.isEmpty_eq_false_iff,
      choices_ne_nil_iff, List.forall_mem_map, List.all_eq_true]
    apply forall₂_congr
    intro l _
    rw [partnersOf, hanging_eq_map_under db w l.relation l.aliasName l.relation.aliasName,
      List.filter_map, ne_eq, List.map_eq_nil_iff, List.filter_eq_nil_iff]
    simp only [Classical.not_forall, Decidable.not_not, exists_prop]
    exact List.any_eq_true.symm

section Copies

variable {plans : List ConditionPlan} {a : Assembly} {s : Select} {found : List Part}

/-- A value stands in a satellite at most once, so look-ups of single values find one row. -/
theorem length_hits_le_one (hlayout : db.FollowsLayout) (hs : b.SelectSpec plans a s)
    (hw : w ∈ db.words) (hsingle : plans.any (·.fansOut) = false) :
    (db.hits plans w).length ≤ 1 := by
  rw [hits]
  split
  case isFalse => exact Nat.zero_le 1
  apply length_choices_le_one
  intro rows hrows
  obtain ⟨l, hl, rfl⟩ := List.mem_map.mp hrows
  have hplan := Assembly.plan_mem_of_mem_lookups hl
  have hrest : l.rest = [] := by
    have hfans := List.any_eq_false.mp hsingle _ hplan
    exact List.isEmpty_iff.mp (by simpa [Lookup.plan, ConditionPlan.fansOut] using hfans)
  -- The layout speaks of the satellite under its own alias, so the rows go back to that one.
  have hpasses : l.passes ∘ Part.under l.aliasName
      = fun p ↦ p.columnIs l.column (.ofValue l.first) := by
    funext p
    rw [Function.comp_apply, Lookup.passes, Lookup.values, hrest, List.any_cons, List.any_nil,
      Bool.or_false]
    rfl
  rw [partnersOf, hanging_eq_map_under db w l.relation l.aliasName l.relation.aliasName,
    List.filter_map, List.length_map, hpasses]
  exact hlayout.satellites l.column l.relation (hs.satellite _ _ _ _ hplan) w hw l.first

theorem satisfies_eq_all {es : List Expr} (h : s.condition = Expr.andAll? es) (c : Combination) :
    satisfies s c = es.all fun e ↦ (e.truth c.scope).holds := by
  rw [satisfies, h]
  cases es with
  | nil => rfl
  | cons e es => exact Expr.holds_of_andAll? rfl c.scope

/-- Conditions on tables that are joined once are the same for all combinations of a word. -/
theorem all_shared_combination (hs : b.SelectSpec plans a s) (hw : w ∈ db.words)
    (hfound : found ∈ choices ((lookups [] plans).map (db.partnersOf w))) :
    plans.all (passesIfShared fun plan ↦
        ((plan.condition "").truth (db.combination a w found).scope).holds)
      = plans.all (passesIfShared (db.meetsPlan w)) := by
  refine Assembly.all_passesIfShared_congr fun condition r touched unanchored hplan ↦ ?_
  exact congrArg (fun d ↦ (Datum.truth d).holds)
    (eval_combination hs hw hfound (hs.shared condition r touched unanchored hplan))

theorem all_lookups_of_separate {ls : List Lookup} {c : Combination} (hc : c.Separate)
    (hfound : found ∈ choices (ls.map (db.partnersOf w))) (hmem : ∀ p ∈ found, p ∈ c) :
    (ls.all fun l ↦ (l.condition.truth c.scope).holds)
      = (ls.zip found).all fun e ↦ e.1.passes e.2 := by
  -- There is one row for each look-up, so every look-up can be looked at together with its row.
  have hzip : (ls.zip found).map Prod.fst = ls :=
    List.map_fst_zip (Nat.le_of_eq (length_of_mem_choices hfound).symm)
  calc (ls.all fun l ↦ (l.condition.truth c.scope).holds)
      = ((ls.zip found).map Prod.fst).all fun l ↦ (l.condition.truth c.scope).holds := by
        rw [hzip]
    _ = (ls.zip found).all fun e ↦ (e.1.condition.truth c.scope).holds := List.all_map
    _ = (ls.zip found).all fun e ↦ e.1.passes e.2 := by
      rw [Bool.eq_iff_iff, List.all_eq_true, List.all_eq_true]
      apply forall₂_congr
      intro e he
      obtain ⟨l, p⟩ := e
      have halias : p.aliasName = l.aliasName :=
        aliasName_of_mem_hanging (mem_of_mem_zip_choices hfound he)
      have hp := hmem p (List.of_mem_zip he).2
      rw [Lookup.holds_condition fun name ↦ halias ▸ Combination.scope_of_mem hc hp name]

theorem all_lookups_combination (hs : b.SelectSpec plans a s) (hw : w ∈ db.words)
    (hfound : found ∈ choices ((lookups [] plans).map (db.partnersOf w))) :
    ((lookups [] plans).all fun l ↦
        (l.condition.truth (db.combination a w found).scope).holds)
      = ((lookups [] plans).zip found).all fun e ↦ e.1.passes e.2 :=
  all_lookups_of_separate (separate_combination hs hw hfound) hfound fun _ hp ↦
    List.mem_cons_of_mem _ (List.mem_append_left _ (List.mem_append_right _ hp))

theorem satisfies_combination (hs : b.SelectSpec plans a s) (hw : w ∈ db.words)
    (hfound : found ∈ choices ((lookups [] plans).map (db.partnersOf w))) :
    satisfies s (db.combination a w found)
      = (plans.all (passesIfShared (db.meetsPlan w)) &&
        ((lookups [] plans).zip found).all fun e ↦ e.1.passes e.2) := by
  rw [satisfies_eq_all hs.condition, Assembly.all_conditions_ofPlans,
    all_shared_combination hs hw hfound, all_lookups_combination hs hw hfound]

theorem outputRow_combination (hs : b.SelectSpec plans a s) (hw : w ∈ db.words)
    (hfound : found ∈ choices ((lookups [] plans).map (db.partnersOf w))) :
    outputRow s (db.combination a w found) = outputRow s (db.entry w) := by
  have hkeys : s.order.map (·.expr.eval (db.combination a w found).scope)
      = s.order.map (·.expr.eval (db.entry w).scope) :=
    List.map_congr_left fun o ho ↦ eval_combination hs hw hfound (hs.order o ho)
  have hcells : s.items.map (·.expr.eval (db.combination a w found).scope)
      = s.items.map (·.expr.eval (db.entry w).scope) :=
    List.map_congr_left fun i hi ↦ eval_combination hs hw hfound (hs.covers_items i hi)
  rw [outputRow, outputRow, hkeys, hcells]

theorem filter_combinations (hs : b.SelectSpec plans a s) (hw : w ∈ db.words) :
    (choices ((lookups [] plans).map (db.partnersOf w))).filter
      (fun found ↦ satisfies s (db.combination a w found)) = db.hits plans w := by
  rw [hits, ← filter_choices Lookup.passes]
  cases hshared : plans.all (passesIfShared (db.meetsPlan w)) with
  | true =>
    rw [if_pos rfl]
    apply List.filter_congr
    intro found hfound
    rw [satisfies_combination hs hw hfound, hshared, Bool.true_and]
  | false =>
    rw [if_neg Bool.false_ne_true, List.filter_eq_nil_iff]
    intro found hfound
    rw [satisfies_combination hs hw hfound, hshared, Bool.false_and]
    exact Bool.false_ne_true

/-- **Copies.** Before distinct rows are asked for, a statement selects copies of one row for each
word. -/
theorem rows_eq_copies (hposx : b.posx = false) (hschema : b.schema = db.schema)
    (hlayout : db.FollowsLayout) (hs : b.SelectSpec plans a s) :
    ((db.joined s).filter (satisfies s)).map (outputRow s)
      = db.words.flatMap fun w ↦ (db.hits plans w).map fun _ ↦ outputRow s (db.entry w) := by
  rw [joined_eq_combinations hposx hschema hlayout hs, List.filter_flatMap, List.map_flatMap]
  apply List.flatMap_congr
  intro w hw
  have hleft := filter_combinations hs hw
  rw [List.filter_map, List.map_map, ← hleft]
  apply List.map_congr_left
  intro found hfound
  exact outputRow_combination hs hw (List.mem_filter.mp hfound).1

/-- Whether distinct rows are asked for or not, each word is left once if it has a copy. The words
that have one have to differ in what is shown of them. -/
theorem distinct_rows_eq_of_hits (hposx : b.posx = false) (hschema : b.schema = db.schema)
    (hlayout : db.FollowsLayout) (hs : b.SelectSpec plans a s)
    (hdifferent : (db.words.filter fun w ↦ !(db.hits plans w).isEmpty).Pairwise fun v w ↦
      alike (db.shown s v) (db.shown s w) = false) :
    (if s.distinct then distinctRows (((db.joined s).filter (satisfies s)).map (outputRow s))
      else ((db.joined s).filter (satisfies s)).map (outputRow s))
      = (db.words.filter fun w ↦ !(db.hits plans w).isEmpty).map
        fun w ↦ outputRow s (db.entry w) := by
  rw [rows_eq_copies hposx hschema hlayout hs, hs.distinct]
  cases hfans : plans.any (·.fansOut) with
  | true => exact distinctRows_flatMap_copies _ _ _ hdifferent
  | false =>
    -- Nothing fans out, so there is nothing to drop and it does not matter what is alike.
    apply flatMap_copies
    intro w hw
    exact length_hits_le_one hlayout hs hw hfans

theorem distinct_rows_eq (hposx : b.posx = false) (hschema : b.schema = db.schema)
    (hlayout : db.FollowsLayout) (hs : b.SelectSpec plans a s)
    (hdifferent : db.words.Pairwise fun v w ↦ alike (db.shown s v) (db.shown s w) = false) :
    (if s.distinct then distinctRows (((db.joined s).filter (satisfies s)).map (outputRow s))
      else ((db.joined s).filter (satisfies s)).map (outputRow s))
      = (db.words.filter fun w ↦ !(db.hits plans w).isEmpty).map
        fun w ↦ outputRow s (db.entry w) :=
  distinct_rows_eq_of_hits hposx hschema hlayout hs (hdifferent.filter _)

end Copies

end Database

/-- **One row for each word.** Over a corpus that follows the layout, a statement without its limit
yields one row for every word that meets all predicates of the query, and no other rows. The words
have to differ in the selected columns, or else distinct rows would be too few; it is enough that
they differ in those of the facts table. -/
theorem selectRows_perm_words {db : Database} {b : Backend} {q : Query} {st : Statement}
    (hcatalog : b.catalog = .relational b.schema) (hschema : b.schema = db.schema)
    (hposx : b.posx = false) (hcompile : b.compile q = .ok st) (hlayout : db.FollowsLayout)
    (hdifferent : db.words.Pairwise fun v w ↦
      Database.alike (db.shown st.select v) (db.shown st.select w) = false) :
    (db.selectRows { st.select with limit := none }).Perm
      ((db.words.filter fun w ↦ q.predicates.all (db.meets b w)).map (db.shown st.select)) := by
  obtain ⟨plans, a, hplans, hs⟩ := Backend.exists_select_of_compile hcatalog hcompile
  have hmeets : (fun w ↦ q.predicates.all (db.meets b w))
      = fun w ↦ !(db.hits plans w).isEmpty := by
    funext w
    rw [Database.isEmpty_hits]
    exact all_eq_of_mapM hplans fun p plan hp ↦ Database.meets_eq_meetsPlan hcatalog hp
  have hrows := Database.distinct_rows_eq hposx hschema hlayout hs hdifferent
  -- The order of the statement only rearranges the rows, and the limit takes none away.
  have hperm := (List.mergeSort_perm _ fun r t ↦
    Database.keyOrder st.select.order r.keys t.keys != .gt).trans (List.Perm.of_eq hrows)
  have hcells := hperm.map (·.cells)
  rw [List.map_map] at hcells
  rw [hmeets]
  exact hcells

theorem Database.order_datum_of_alike {db : Database} {b : Backend} {plans : List ConditionPlan}
    {a : Assembly} {s : Select} {v w : Part} {column : String} (hs : b.SelectSpec plans a s)
    (hposx : b.posx = false) (hv : v ∈ db.words) (hw : w ∈ db.words)
    (hcolumn : column ∈ b.schema.columns Relation.facts.table)
    (hshown : Backend.hiddenColumns.contains column = false)
    (halike : alike (db.shown s v) (db.shown s w) = true) :
    (v.datum column).order (w.datum column) = .eq := by
  have hmem : ⟨.of Relation.facts.aliasName (b.physicalColumn .facts column), column,
      b.physicalColumn .facts column != column⟩ ∈ b.factColumns :=
    List.mem_map_of_mem (List.mem_filter.mpr ⟨hcolumn, by rw [hshown]; rfl⟩)
  -- Columns of the facts table come first, so no other column takes the name of one away.
  obtain ⟨c, hc, hexpr⟩ := Backend.exists_item_of_mem_factColumns (a := a) hmem
  have heval {u : Part} (hu : u ∈ db.words) :
      c.item.expr.eval (db.entry u).scope = u.datum column := by
    have hscope (name : String) : (db.entry u).scope ⟨some Relation.facts.aliasName, name⟩
        = u.column? name := Database.scope_entry hu (r := .facts) (by decide) name
    rw [Backend.OutputColumn.item, hexpr, Backend.physicalColumn_of_posx hposx]
    exact eval_of hscope column
  have hitem : c.item ∈ s.items := hs.items ▸ List.mem_map_of_mem hc
  have horder := (Database.alike_map_iff _ _ s.items).mp halike c.item hitem
  rw [heval hv, heval hw] at horder
  exact horder

theorem pairwise_shown_of_columns {db : Database} {b : Backend} {q : Query} {st : Statement}
    (hcatalog : b.catalog = .relational b.schema) (hposx : b.posx = false)
    (hcompile : b.compile q = .ok st)
    (hdifferent : db.words.Pairwise fun v w ↦
      ∃ column ∈ b.schema.columns Relation.facts.table,
        Backend.hiddenColumns.contains column = false ∧
          (v.datum column).order (w.datum column) ≠ .eq) :
    db.words.Pairwise fun v w ↦
      Database.alike (db.shown st.select v) (db.shown st.select w) = false := by
  obtain ⟨plans, a, -, hs⟩ := Backend.exists_select_of_compile hcatalog hcompile
  refine hdifferent.imp_of_mem ?_
  rintro v w hv hw ⟨column, hcolumn, hshown, hne⟩
  refine Bool.eq_false_iff.mpr fun halike ↦ hne ?_
  exact Database.order_datum_of_alike hs hposx hv hw hcolumn hshown halike

/-! ## A corpus with several derivations of a word -/

/-- A corpus where one word has two derivations, and only that word has a lemma. -/
def fanningDatabase : Database where
  tables := [
    { name := "wordfreqs"
      columns := [⟨"form", .text⟩, ⟨"lemma", .text⟩, ⟨"pos", .text⟩, ⟨"frequency", .numeric⟩,
        ⟨"featid", .numeric⟩]
      rows := [
        [.text "olematon", .text "olla", .text "VERB", .int 7, .int 1],
        [.text "menetys", .text "menetys", .text "NOUN", .int 5, .int 2],
        [.text "olo", .text "olo", .text "NOUN", .int 3, .int 3]] },
    { name := "features"
      columns := [⟨"featid", .numeric⟩, ⟨"derivation", .text⟩]
      rows := [[.int 1, .text "Ma,Ton"], [.int 2, .text "Ys"], [.int 3, .text "_"]] },
    { name := "derivations"
      columns := [⟨"featid", .numeric⟩, ⟨"derivation", .text⟩]
      rows := [[.int 1, .text "Ma"], [.int 1, .text "Ton"], [.int 2, .text "Ys"]] },
    { name := "lemmas"
      columns := [⟨"lemma", .text⟩, ⟨"pos", .text⟩, ⟨"lemmafreq", .numeric⟩]
      rows := [[.text "olla", .text "VERB", .int 90]] }]

/-- Statements over that corpus. -/
def fanningBackend : Backend where
  catalog := .relational fanningDatabase.schema
  schema := fanningDatabase.schema
  settings := { posx := false }

theorem followsLayout_fanningDatabase : fanningDatabase.FollowsLayout where
  features := by decide
  lemmas := by decide
  ngrams := by decide
  satellites := by
    have hall : ∀ e ∈ Catalog.satelliteColumns, ∀ w ∈ fanningDatabase.words,
        (∀ p ∈ fanningDatabase.hanging w e.2 e.2.aliasName, p.hasText e.1 = true) ∧
        (fanningDatabase.hanging w e.2 e.2.aliasName).Pairwise fun p p' ↦
          p.datum e.1 ≠ p'.datum e.1 := by decide
    intro column r hcolumn w hw v
    obtain ⟨htext, hdifferent⟩ := hall _ (Catalog.mem_satelliteColumns hcolumn) w hw
    exact Part.length_filter_columnIs_le_one htext hdifferent _

/-- Two look-ups join the first word with four pairs of derivations, of which two are left, and
the second word with one pair; they are selected once each. -/
theorem two_rows_of_fanning_lookups : ∃ q st,
    Query.read fanningBackend.catalog {}
      "derivation in (ma,ton,ys) and derivation in (ton,ys) and frequency > 3" = .ok q ∧
    fanningBackend.compile q = .ok st ∧
    (fanningDatabase.selectRows { st.select with limit := none }).length = 2 := by
  let q : Query := { predicates := [⟨"derivation", .isIn, .texts ["Ma", "Ton", "Ys"], false⟩,
    ⟨"derivation", .isIn, .texts ["Ton", "Ys"], false⟩,
    ⟨"frequency", .greater, .number (.int 3), false⟩] }
  have hread : Query.read fanningBackend.catalog {}
      "derivation in (ma,ton,ys) and derivation in (ton,ys) and frequency > 3" = .ok q := rfl
  have horder : fanningBackend.catalog.lookup? fanningBackend.settings.orderBy
      = some (Catalog.factField .numeric "frequency") := by decide +kernel
  have hcatalog : fanningBackend.catalog = .relational fanningBackend.schema := rfl
  have hschema : fanningBackend.schema = fanningDatabase.schema := rfl
  have hposx : fanningBackend.posx = false := by decide +kernel
  have hfacts : fanningBackend.schema.hasTable Relation.facts.table = true := by decide +kernel
  have hclosed : fanningBackend.catalog.Closed := by
    rw [hcatalog]
    exact Catalog.closed_relational _
  obtain ⟨st, hcompile⟩ := Backend.exists_compile_eq_ok
    (Backend.backed_of_catalog_eq hcatalog hfacts) hclosed
    (fun p hp ↦ Query.admits_of_mem_read hread hp) (List.cons_ne_nil _ _) horder (by decide)
  have hforms : fanningDatabase.words.Pairwise fun v w ↦
      (v.datum "form").order (w.datum "form") ≠ .eq := by decide +kernel
  have hform : "form" ∈ fanningBackend.schema.columns Relation.facts.table := by decide +kernel
  have hdifferent := pairwise_shown_of_columns hcatalog hposx hcompile
    (hforms.imp fun h ↦ ⟨"form", hform, by decide, h⟩)
  have hperm := selectRows_perm_words hcatalog hschema hposx hcompile
    followsLayout_fanningDatabase hdifferent
  have hcount : ((fanningDatabase.words.filter fun w ↦
      q.predicates.all (fanningDatabase.meets fanningBackend w)).map
        (fanningDatabase.shown st.select)).length = 2 := by
    rw [List.length_map]
    decide +kernel
  exact ⟨q, st, hread, hcompile, hperm.length_eq.trans hcount⟩

end CorpusQuery

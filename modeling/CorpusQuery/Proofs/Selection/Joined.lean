import CorpusQuery.Proofs.Selection.Layout
import CorpusQuery.Proofs.Statement.Aliases
import CorpusQuery.Proofs.Statement.Plans

/-!
# What a statement joins

The tables other than satellites add one row to every word, if only a missing one: the layout sees
to it that there is not more than one row, and features, joined strictly, are never missing.
So the combinations of a word are the choices of one row for each look-up, and what is about a table
that is joined once has the same value in all of them.

## Main statements

* `Database.joined_eq_combinations`: what a statement joins, word by word.
* `Database.eval_combination`: what all combinations of a word have in common.
-/

namespace CorpusQuery

open Sql (Expr Join Select)
open Assembly (Lookup lookups)

/-! ## Tables in the order of their joins -/

namespace Assembly

/-- The tables that are joined once, before the satellites. -/
def before (a : Assembly) : List Relation := [.features, .lemmas].filter a.requires

/-- The tables that are joined once, after the satellites. -/
def after (a : Assembly) : List Relation := Relation.ngrams.filter a.requires

/-- All joined tables with their aliases. -/
def links (a : Assembly) (ls : List Lookup) : List (Relation × String) :=
  a.before.map (fun r ↦ (r, r.aliasName)) ++ ls.map (fun l ↦ (l.relation, l.aliasName))
    ++ a.after.map fun r ↦ (r, r.aliasName)

theorem requires_of_mem_filter {a : Assembly} {rs : List Relation} (hrs : .facts ∉ rs)
    {r : Relation} (h : r ∈ rs.filter a.requires) : a.requires r = true ∧ r ≠ .facts := by
  obtain ⟨hmem, hr⟩ := List.mem_filter.mp h
  refine ⟨hr, ?_⟩
  rintro rfl
  exact hrs hmem

theorem mem_before {a : Assembly} {r : Relation} (h : r ∈ a.before) :
    a.requires r = true ∧ r ≠ .facts := requires_of_mem_filter (by decide) h

theorem mem_after {a : Assembly} {r : Relation} (h : r ∈ a.after) :
    a.requires r = true ∧ r ≠ .facts := requires_of_mem_filter (by decide) h

theorem mem_before_or_after {a : Assembly} {r : Relation} (hsatellite : r.isSatellite = false)
    (hr : a.requires r = true) (hne : r ≠ .facts) : r ∈ a.before ∨ r ∈ a.after := by
  cases r with
  | facts => exact absurd rfl hne
  | features | lemmas => exact .inl (List.mem_filter.mpr ⟨by decide, hr⟩)
  | initGrams | finGrams | bigrams => exact .inr (List.mem_filter.mpr ⟨by decide, hr⟩)
  | derivations | clitics | nounCases => cases hsatellite

theorem nodup_facts_before_after (a : Assembly) : (.facts :: (a.before ++ a.after)).Nodup := by
  have hall : (.facts :: ([.features, .lemmas] ++ Relation.ngrams) : List Relation).Nodup := by
    decide
  rw [before, after, ← List.filter_append]
  exact hall.sublist (List.filter_sublist.cons_cons _)

end Assembly

namespace Backend

theorem joins_eq_map_linkJoin (b : Backend) {a : Assembly} {ls : List Lookup}
    (hsatellites : a.satellites = ls.map fun l ↦ (l.relation, l.aliasName))
    (hls : ∀ l ∈ ls, l.relation.isSatellite = true) :
    b.joins a = (a.links ls).map b.linkJoin := by
  have hbefore : (if a.requires .features then
        [joinOf .inner .features Relation.features.aliasName
          (sameFeatures Relation.features.aliasName)] else [])
      ++ (if a.requires .lemmas then
        [joinOf .left .lemmas Relation.lemmas.aliasName b.sameLemma] else [])
      = (a.before.map fun r ↦ (r, r.aliasName)).map b.linkJoin := by
    rw [Assembly.before, List.filter_cons, List.filter_cons, List.filter_nil]
    cases a.requires .features <;> cases a.requires .lemmas <;> rfl
  -- The function in `joins` matches on the pair, so we only ask what its values are.
  have hmiddle (f : Relation × String → Join)
      (hf : ∀ r aliasName, f (r, aliasName) = joinOf .inner r aliasName (sameFeatures aliasName)) :
      a.satellites.map f = (ls.map fun l ↦ (l.relation, l.aliasName)).map b.linkJoin := by
    rw [hsatellites]
    apply List.map_congr_left
    intro link hlink
    obtain ⟨l, hl, rfl⟩ := List.mem_map.mp hlink
    have hl := hls l hl
    rw [hf]
    rcases l with ⟨r, aliasName, column, first, rest⟩
    cases r <;> first | rfl | cases hl
  have hafter : ((Relation.ngrams.filter a.requires).map fun r ↦
        joinOf .left r r.aliasName (sameColumn (.of r.aliasName "form") (gramKey r)))
      = (a.after.map fun r ↦ (r, r.aliasName)).map b.linkJoin := by
    rw [Assembly.after, List.map_map]
    apply List.map_congr_left
    intro r hr
    have hmem := (List.mem_filter.mp hr).1
    cases r <;> first | rfl | exact absurd hmem (by decide)
  rw [joins, Assembly.links, List.map_append, List.map_append, ← hbefore, ← hafter,
    hmiddle _ fun _ _ ↦ rfl]

end Backend

/-! ## Partners of a word -/

namespace Database

variable {db : Database} {b : Backend} {w : Part}

/-- What the join of a table adds to a word. -/
def candidates (db : Database) (w : Part) (link : Relation × String) : List Part :=
  match Backend.linkKind link.1, db.hanging w link.1 link.2 with
  | .left, [] => [db.missingPart link.1.table (some link.2)]
  | .left, p :: ps => p :: ps
  | .inner, ps => ps

theorem partners_linkJoin (hw : w ∈ db.words) {r : Relation} (hposx : r = .lemmas → b.posx = false)
    {aliasName : String} (halias : r.isSatellite = false → aliasName = r.aliasName)
    {left : Combination} (hleft : w ∈ left)
    (hkeys : (left.map Part.key ++ [joinKey (b.linkJoin (r, aliasName))]).Nodup) :
    db.partners left (b.linkJoin (r, aliasName)) = db.candidates w (r, aliasName) := by
  have hmatching : (db.parts r.table (some aliasName)).filter (fun p ↦
      ((b.linkCondition r aliasName).truth (Combination.scope (left ++ [p]))).holds)
        = db.hanging w r aliasName := by
    apply List.filter_congr
    intro p hp
    obtain ⟨row, -, rfl⟩ := List.mem_map.mp hp
    refine Backend.holds_linkCondition ?_ (List.mem_append_left _ hleft)
      (List.mem_append_right _ (List.mem_singleton_self _)) (aliasName_of_mem_words hw) r hposx
      halias
    rw [Combination.Separate, List.map_append]
    exact hkeys
  simp only [partners, Backend.linkJoin, Backend.joinOf, candidates, hmatching]
  cases Backend.linkKind r with
  | inner => rfl
  | left => cases db.hanging w r aliasName <;> rfl

/-- A table that is no satellite adds one row, if only a missing one. -/
theorem candidates_single (hlayout : db.FollowsLayout) (hw : w ∈ db.words) {r : Relation}
    (hsatellite : r.isSatellite = false) (hne : r ≠ .facts)
    (htable : db.schema.hasTable r.table = true) :
    db.candidates w (r, r.aliasName) = [db.companion w r] := by
  have hcount : (db.hanging w r r.aliasName).length ≤ 1 ∧
      (Backend.linkKind r = .inner → (db.hanging w r r.aliasName).length = 1) := by
    cases r with
    | facts => exact absurd rfl hne
    | features =>
      have h := hlayout.features htable w hw
      exact ⟨Nat.le_of_eq h, fun _ ↦ h⟩
    | lemmas => exact ⟨hlayout.lemmas w hw, fun h ↦ nomatch h⟩
    | initGrams => exact ⟨hlayout.ngrams .initGrams (by decide) w hw, fun h ↦ nomatch h⟩
    | finGrams => exact ⟨hlayout.ngrams .finGrams (by decide) w hw, fun h ↦ nomatch h⟩
    | bigrams => exact ⟨hlayout.ngrams .bigrams (by decide) w hw, fun h ↦ nomatch h⟩
    | derivations | clitics | nounCases => cases hsatellite
  obtain ⟨hle, hinner⟩ := hcount
  -- Without a row a table that is joined loosely adds the missing row. A strict join would add
  -- nothing, but then there is a row.
  rw [candidates, companion, if_neg hne]
  cases hps : db.hanging w r r.aliasName with
  | nil =>
    cases hkind : Backend.linkKind r with
    | left => rfl
    | inner =>
      rw [hps] at hinner
      cases hinner hkind
  | cons p ps =>
    have hnil : ps = [] := by
      rw [hps, List.length_cons] at hle
      exact List.eq_nil_of_length_eq_zero (by omega)
    rw [hnil]
    cases Backend.linkKind r <;> rfl

theorem candidates_satellite {r : Relation} (hsatellite : r.isSatellite = true)
    (aliasName : String) :
    db.candidates w (r, aliasName) = db.hanging w r aliasName := by
  cases r <;> first | rfl | cases hsatellite

/-! ## Combinations of a word -/

/-- A word with the rows of the joined tables, where the look-ups found the given rows. -/
def combination (db : Database) (a : Assembly) (w : Part) (found : List Part) : Combination :=
  w :: (a.before.map (db.companion w) ++ found ++ a.after.map (db.companion w))

/-- The rows that hang off a word in the satellite of a look-up. -/
def partnersOf (db : Database) (w : Part) (l : Lookup) : List Part :=
  db.hanging w l.relation l.aliasName

section Joined

variable {plans : List ConditionPlan} {a : Assembly} {s : Select}

theorem isSatellite_of_mem_lookups (hs : b.SelectSpec plans a s) {l : Lookup}
    (hl : l ∈ lookups [] plans) : l.relation.isSatellite = true :=
  Catalog.isSatellite_of_satelliteOf?
    (hs.satellite _ _ _ _ (Assembly.plan_mem_of_mem_lookups hl))

theorem joins_eq_map_links (hs : b.SelectSpec plans a s) :
    s.joins = (a.links (lookups [] plans)).map b.linkJoin := by
  rw [hs.joins]
  refine b.joins_eq_map_linkJoin ?_ fun l ↦ isSatellite_of_mem_lookups hs
  rw [hs.satellites, Assembly.satellites_ofPlans]

/-- The aliases of the joins of a statement, with that of the facts table in front. -/
def aliases (plans : List ConditionPlan) (a : Assembly) : List String :=
  Assembly.joinedAliases a.before (lookups [] plans) a.after

/-- No two joins of a statement have one alias, not even up to the case of letters, since all
aliases are in small letters. -/
theorem nodup_map_asciiLower_aliases (hs : b.SelectSpec plans a s) :
    ((aliases plans a).map Text.asciiLower).Nodup := by
  have hlower : ∀ x ∈ aliases plans a, Text.asciiLower x = x := by
    intro x hx
    have htable (r : Relation) : Text.asciiLower r.aliasName = r.aliasName :=
      Assembly.asciiLower_satelliteAlias r 0
    simp only [aliases, Assembly.joinedAliases, List.mem_cons, List.mem_append, List.mem_map] at hx
    rcases hx with rfl | (⟨r, -, rfl⟩ | ⟨l, hl, rfl⟩) | ⟨r, -, rfl⟩
    · exact htable .facts
    · exact htable r
    · obtain ⟨n, -, hname⟩ := Assembly.alias_of_mem_lookups hl
      rw [hname]
      exact Assembly.asciiLower_satelliteAlias _ n
    · exact htable r
  rw [List.map_congr_left hlower, List.map_id']
  exact Assembly.nodup_joinedAliases a.nodup_facts_before_after
    (fun r hr ↦ (hs.required r (Assembly.mem_before hr).1).2)
    (fun r hr ↦ (hs.required r (Assembly.mem_after hr).1).2)
    fun l hl ↦ isSatellite_of_mem_lookups hs hl

theorem aliasName_of_mem_links (hs : b.SelectSpec plans a s) {link : Relation × String}
    (hlink : link ∈ a.links (lookups [] plans)) (hnone : link.1.isSatellite = false) :
    link.2 = link.1.aliasName := by
  simp only [Assembly.links, List.mem_append, List.mem_map] at hlink
  rcases hlink with (⟨r, -, rfl⟩ | ⟨l, hl, rfl⟩) | ⟨r, -, rfl⟩
  · rfl
  · exact absurd (isSatellite_of_mem_lookups hs hl) (Bool.eq_false_iff.mp hnone)
  · rfl

theorem nodup_keys (hs : b.SelectSpec plans a s) (hw : w ∈ db.words) :
    (w.key :: (a.links (lookups [] plans)).map fun link ↦ joinKey (b.linkJoin link)).Nodup := by
  have hnames : (w.key :: (a.links (lookups [] plans)).map fun link ↦ joinKey (b.linkJoin link))
      = (aliases plans a).map Text.asciiLower := by
    rw [Part.key, aliasName_of_mem_words hw, aliases, Assembly.joinedAliases, Assembly.links]
    simp only [List.map_cons, List.map_append, List.map_map]
    rfl
  rw [hnames]
  exact nodup_map_asciiLower_aliases hs

theorem separate_of_mem_joined (hs : b.SelectSpec plans a s) {c : Combination}
    (hc : c ∈ db.joined s) : c.Separate := by
  obtain ⟨index, hsources⟩ := hs.sources
  obtain ⟨w, hw, added, rfl, hadded⟩ := exists_of_mem_joined hsources hc
  rw [Combination.Separate, List.map_cons, hadded, joins_eq_map_links hs, List.map_map]
  exact nodup_keys hs hw

/-- What each join adds to a word: one row, or all that hang off it in a satellite. -/
theorem map_candidates_links (hschema : b.schema = db.schema) (hlayout : db.FollowsLayout)
    (hs : b.SelectSpec plans a s) (hw : w ∈ db.words) :
    (a.links (lookups [] plans)).map (db.candidates w)
      = (a.before.map (db.companion w)).map (fun p ↦ [p])
        ++ (lookups [] plans).map (db.partnersOf w)
        ++ (a.after.map (db.companion w)).map fun p ↦ [p] := by
  have hsingle (rs : List Relation) (hrs : ∀ r ∈ rs, a.requires r = true ∧ r ≠ .facts) :
      (rs.map fun r ↦ (r, r.aliasName)).map (db.candidates w)
        = (rs.map (db.companion w)).map fun p ↦ [p] := by
    rw [List.map_map, List.map_map]
    apply List.map_congr_left
    intro r hr
    obtain ⟨hrequired, hne⟩ := hrs r hr
    obtain ⟨htable, hsatellite⟩ := hs.required r hrequired
    exact candidates_single hlayout hw hsatellite hne (hschema ▸ htable)
  have hfound : ((lookups [] plans).map fun l ↦ (l.relation, l.aliasName)).map (db.candidates w)
      = (lookups [] plans).map (db.partnersOf w) := by
    rw [List.map_map]
    apply List.map_congr_left
    intro l hl
    exact candidates_satellite (isSatellite_of_mem_lookups hs hl) l.aliasName
  rw [Assembly.links, List.map_append, List.map_append, hfound,
    hsingle _ fun r ↦ Assembly.mem_before, hsingle _ fun r ↦ Assembly.mem_after]

/-- **Joins, word by word.** Every word is joined with the rows of the tables that have one for it,
and with all choices of a row for each look-up. -/
theorem joined_eq_combinations (hposx : b.posx = false) (hschema : b.schema = db.schema)
    (hlayout : db.FollowsLayout) (hs : b.SelectSpec plans a s) :
    db.joined s = db.words.flatMap fun w ↦
      (choices ((lookups [] plans).map (db.partnersOf w))).map (db.combination a w) := by
  obtain ⟨index, hsources⟩ := hs.sources
  have hjoined : db.joined s = db.words.flatMap fun w ↦
      (choices ((a.links (lookups [] plans)).map (db.candidates w))).map (w :: ·) := by
    refine joined_eq_flatMap hsources (joins_eq_map_links hs) (fun w hw ↦ nodup_keys hs hw) ?_
    intro w hw link hlink left hleft hnodup
    exact partners_linkJoin hw (fun _ ↦ hposx) (aliasName_of_mem_links hs hlink) hleft hnodup
  rw [hjoined]
  apply List.flatMap_congr
  intro w hw
  rw [map_candidates_links hschema hlayout hs hw, choices_between, List.map_map]
  rfl

/-! ## What combinations have in common -/

theorem aliasNames_of_mem_choices {ls : List Lookup} {found : List Part}
    (hfound : found ∈ choices (ls.map (db.partnersOf w))) :
    found.map (·.aliasName) = ls.map (·.aliasName) := by
  induction ls generalizing found with
  | nil =>
    rw [List.mem_singleton.mp hfound]
    rfl
  | cons l ls ih =>
    obtain ⟨p, hp, ps, hps, rfl⟩ := mem_choices_cons.mp hfound
    rw [List.map_cons, List.map_cons, ih hps, aliasName_of_mem_hanging hp]

theorem separate_combination (hs : b.SelectSpec plans a s) (hw : w ∈ db.words)
    {found : List Part} (hfound : found ∈ choices ((lookups [] plans).map (db.partnersOf w))) :
    (db.combination a w found).Separate := by
  have hcompanions (rs : List Relation) :
      (rs.map (db.companion w)).map (·.aliasName) = rs.map (·.aliasName) := by
    rw [List.map_map]
    apply List.map_congr_left
    intro r _
    exact aliasName_companion hw r
  have hnames : (db.combination a w found).map (·.aliasName) = aliases plans a := by
    rw [combination, List.map_cons, List.map_append, List.map_append, hcompanions, hcompanions,
      aliasNames_of_mem_choices hfound, aliasName_of_mem_words hw]
    rfl
  have hkeys : (db.combination a w found).map Part.key
      = ((db.combination a w found).map (·.aliasName)).map Text.asciiLower := by
    rw [List.map_map]
    rfl
  rw [Combination.Separate, hkeys, hnames]
  exact nodup_map_asciiLower_aliases hs

/-- What is about a table that is joined once has the same value in all combinations of a word: it
only sees the row of that table, and this row is the same in all of them. -/
theorem eval_combination (hs : b.SelectSpec plans a s) (hw : w ∈ db.words) {found : List Part}
    (hfound : found ∈ choices ((lookups [] plans).map (db.partnersOf w))) {e : Expr}
    (he : a.Covers e) :
    e.eval (db.combination a w found).scope = e.eval (db.entry w).scope := by
  obtain ⟨r, hsatellite, hr, habout⟩ := he
  have hsingle : r ∈ Relation.singles := by
    cases r <;> first | decide | cases hsatellite
  -- The row that the expression is about is in the combination, whatever the look-ups found.
  have hmem : db.companion w r ∈ db.combination a w found := by
    by_cases hne : r = .facts
    · rw [companion, if_pos hne]
      exact List.mem_cons_self
    · refine List.mem_cons_of_mem _ ?_
      rcases Assembly.mem_before_or_after hsatellite (hr.resolve_left hne) hne with hr | hr
      · exact List.mem_append_left _ (List.mem_append_left _ (List.mem_map_of_mem hr))
      · exact List.mem_append_right _ (List.mem_map_of_mem hr)
  apply habout.eval_eq
  intro name
  rw [scope_entry hw hsingle, ← aliasName_companion hw r]
  exact Combination.scope_of_mem (separate_combination hs hw hfound) hmem name

end Joined

end Database

end CorpusQuery

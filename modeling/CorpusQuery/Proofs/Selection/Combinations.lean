import CorpusQuery.Database.Selection
import Mathlib.Data.List.Basic

/-!
# Joining one table after another

A statement over one source joins its tables one after another, and every combination is extended by
the rows that the join's condition admits. When the condition looks at nothing but the row of the
source and the row to be joined, the tables that were joined before do not matter. The combinations
of one source row are then all choices of one admitted row for each join, and what is said of each
join apart can be said of the combinations.

Rows are told apart by their aliases, so all this needs aliases that differ in more than the case of
letters.

## Main statements

* `Combination.scope_of_mem`: a column under an alias is that of the one row with this alias.
* `Database.joined_eq_flatMap`: the combinations of a statement, source row by source row.
-/

namespace CorpusQuery

open Sql (Join Select Source)

/-! ## Choices -/

/-- All ways to choose one element of each list. -/
def choices {α : Type} : List (List α) → List (List α)
  | [] => [[]]
  | xs :: rest => xs.flatMap fun x ↦ (choices rest).map (x :: ·)

section Choices

variable {α ι : Type}

theorem mem_choices_cons {xs : List α} {rest : List (List α)} {ys : List α} :
    ys ∈ choices (xs :: rest) ↔ ∃ x ∈ xs, ∃ zs ∈ choices rest, x :: zs = ys := by
  simp only [choices, List.mem_flatMap, List.mem_map]

theorem choices_append (xss yss : List (List α)) :
    choices (xss ++ yss) = (choices xss).flatMap fun xs ↦ (choices yss).map (xs ++ ·) := by
  induction xss with
  | nil =>
    rw [List.nil_append, choices, List.flatMap_singleton]
    exact (List.map_id _).symm
  | cons xs xss ih =>
    rw [List.cons_append, choices, choices, ih, List.flatMap_assoc]
    refine congrArg (xs.flatMap ·) ?_
    funext x
    rw [List.map_flatMap, List.flatMap_map]
    simp only [List.map_map]
    rfl

theorem choices_map_singleton (xs : List α) : choices (xs.map fun x ↦ [x]) = [xs] := by
  induction xs with
  | nil => rfl
  | cons x xs ih => rw [List.map_cons, choices, ih]; rfl

/-- Only where a list has several elements is there a choice. -/
theorem choices_between (xs : List α) (yss : List (List α)) (zs : List α) :
    choices (xs.map (fun x ↦ [x]) ++ yss ++ zs.map fun z ↦ [z])
      = (choices yss).map fun ys ↦ xs ++ ys ++ zs := by
  rw [choices_append, choices_append, choices_map_singleton, choices_map_singleton,
    List.flatMap_singleton, List.flatMap_map, List.map_eq_flatMap]
  rfl

theorem choices_ne_nil_iff {xss : List (List α)} : choices xss ≠ [] ↔ ∀ xs ∈ xss, xs ≠ [] := by
  induction xss with
  | nil => simp [choices]
  | cons xs xss ih =>
    rw [List.forall_mem_cons, ← ih, choices]
    simp only [ne_eq, List.flatMap_eq_nil_iff, List.map_eq_nil_iff]
    constructor
    · intro h
      constructor
      · rintro rfl
        exact h fun _ hx ↦ absurd hx List.not_mem_nil
      · exact fun hnil ↦ h fun _ _ ↦ hnil
    · rintro ⟨hxs, hrest⟩ h
      obtain ⟨x, hx⟩ := List.exists_mem_of_ne_nil xs hxs
      exact hrest (h x hx)

theorem length_choices_le_one {xss : List (List α)} (h : ∀ xs ∈ xss, xs.length ≤ 1) :
    (choices xss).length ≤ 1 := by
  induction xss with
  | nil => exact Nat.le_refl 1
  | cons xs xss ih =>
    obtain ⟨hxs, hrest⟩ := List.forall_mem_cons.mp h
    match xs, hxs with
    | [], _ => exact Nat.zero_le 1
    | [x], _ =>
      rw [choices, List.flatMap_singleton, List.length_map]
      exact ih hrest

theorem length_of_mem_choices {candidates : ι → List α} {is : List ι} {xs : List α}
    (h : xs ∈ choices (is.map candidates)) : xs.length = is.length := by
  induction is generalizing xs with
  | nil => rw [List.mem_singleton.mp h]; rfl
  | cons i is ih =>
    obtain ⟨x, -, zs, hzs, rfl⟩ := mem_choices_cons.mp h
    rw [List.length_cons, List.length_cons, ih hzs]

theorem mem_of_mem_zip_choices {candidates : ι → List α} {is : List ι} {xs : List α}
    (h : xs ∈ choices (is.map candidates)) {i : ι} {x : α} (hmem : (i, x) ∈ is.zip xs) :
    x ∈ candidates i := by
  induction is generalizing xs with
  | nil => cases hmem
  | cons j is ih =>
    obtain ⟨y, hy, zs, hzs, rfl⟩ := mem_choices_cons.mp h
    rcases List.mem_cons.mp hmem with heq | hmem
    · obtain ⟨rfl, rfl⟩ := Prod.mk.inj heq
      exact hy
    · exact ih hzs hmem

theorem filter_choices {candidates : ι → List α} (test : ι → α → Bool) (is : List ι) :
    (choices (is.map candidates)).filter (fun xs ↦ (is.zip xs).all fun e ↦ test e.1 e.2)
      = choices (is.map fun i ↦ (candidates i).filter (test i)) := by
  induction is with
  | nil => rfl
  | cons i is ih =>
    rw [List.map_cons, List.map_cons, choices, choices, ← ih, List.filter_flatMap]
    -- An element that fails the test takes all choices that begin with it along.
    induction candidates i with
    | nil => rfl
    | cons x xs ihx =>
      rw [List.flatMap_cons, ihx, List.filter_map, List.filter_cons]
      cases hx : test i x with
      | true => simp [Function.comp_def, hx]
      | false => simp [Function.comp_def, hx]

end Choices

/-! ## Rows under their aliases -/

/-- The alias of a part up to the case of letters. -/
def Part.key (p : Part) : String := Text.asciiLower p.aliasName

namespace Combination

/-- No two parts of a combination answer to one alias. -/
def Separate (c : Combination) : Prop := (c.map Part.key).Nodup

theorem scope_eq_none {c : Combination} {aliasName : String}
    (h : Text.asciiLower aliasName ∉ c.map Part.key) (name : String) :
    c.scope ⟨some aliasName, name⟩ = none := by
  refine List.findSome?_eq_none_iff.mpr fun p hp ↦ if_neg fun hanswers ↦ h ?_
  have hkey : Text.asciiLower aliasName = p.key := beq_iff_eq.mp hanswers
  exact hkey ▸ List.mem_map_of_mem hp

theorem scope_of_mem {c : Combination} (hc : c.Separate) {p : Part} (hp : p ∈ c) (name : String) :
    c.scope ⟨some p.aliasName, name⟩ = p.column? name := by
  induction c with
  | nil => cases hp
  | cons q c ih =>
    obtain ⟨hq, hc⟩ := List.nodup_cons.mp hc
    rw [scope, List.findSome?_cons]
    rcases List.mem_cons.mp hp with rfl | hp
    · have hanswers : p.answers ⟨some p.aliasName, name⟩ = true := beq_self_eq_true _
      rw [if_pos hanswers]
      cases hcol : p.column? name with
      | some bound => rfl
      | none => exact scope_eq_none hq name
    · have hanswers : ¬q.answers ⟨some p.aliasName, name⟩ = true := by
        intro h
        have hkey : p.key = q.key := beq_iff_eq.mp h
        exact hq (hkey ▸ List.mem_map_of_mem hp)
      rw [if_neg hanswers]
      exact ih hc hp

end Combination

/-! ## Joins -/

namespace Database

variable {db : Database}

/-- The alias that a join gives to its table, up to the case of letters. -/
def joinKey (j : Join) : String := Text.asciiLower (j.aliasName.getD j.table.table)

/-- The parts that a join adds to a combination. -/
def partners (db : Database) (left : Combination) (j : Join) : List Part :=
  let matching := (db.parts j.table.table j.aliasName).filter fun p ↦
    (j.condition.truth (Combination.scope (left ++ [p]))).holds
  match j.kind, matching with
  | .left, [] => [db.missingPart j.table.table j.aliasName]
  | _, _ => matching

theorem extend_eq_map (left : Combination) (j : Join) :
    db.extend left j = (db.partners left j).map (left ++ [·]) := by
  have hfilter : ((db.parts j.table.table j.aliasName).map fun p ↦ left ++ [p]).filter
      (fun c ↦ (j.condition.truth (Combination.scope c)).holds)
        = ((db.parts j.table.table j.aliasName).filter fun p ↦
          (j.condition.truth (Combination.scope (left ++ [p]))).holds).map (left ++ [·]) :=
    List.filter_map
  rw [extend, hfilter, partners]
  cases j.kind with
  | inner => rfl
  | left =>
    cases (db.parts j.table.table j.aliasName).filter fun p ↦
      (j.condition.truth (Combination.scope (left ++ [p]))).holds with
    | nil => rfl
    | cons p ps => rfl

theorem key_of_mem_partners {left : Combination} {j : Join} {p : Part}
    (h : p ∈ db.partners left j) : p.key = joinKey j := by
  have hparts : ∀ p ∈ db.parts j.table.table j.aliasName, p.key = joinKey j := by
    intro p hp
    obtain ⟨row, -, rfl⟩ := List.mem_map.mp hp
    rfl
  rw [partners] at h
  split at h
  · rw [List.mem_singleton.mp h]
    rfl
  · exact hparts p (List.mem_filter.mp h).1

theorem exists_of_mem_extend {left c : Combination} {j : Join} (h : c ∈ db.extend left j) :
    ∃ p : Part, c = left ++ [p] ∧ p.key = joinKey j := by
  rw [extend_eq_map] at h
  obtain ⟨p, hp, rfl⟩ := List.mem_map.mp h
  exact ⟨p, rfl, key_of_mem_partners hp⟩

theorem exists_of_mem_foldl_extend {joins : List Join} {rows : List Combination} {c : Combination}
    (h : c ∈ joins.foldl (fun rows j ↦ rows.flatMap (db.extend · j)) rows) :
    ∃ left ∈ rows, ∃ added : List Part, c = left ++ added ∧
      added.map Part.key = joins.map joinKey := by
  induction joins generalizing rows with
  | nil => exact ⟨c, h, [], (List.append_nil c).symm, rfl⟩
  | cons j joins ih =>
    obtain ⟨extended, hextended, added, rfl, hadded⟩ := ih h
    obtain ⟨left, hleft, hmem⟩ := List.mem_flatMap.mp hextended
    obtain ⟨p, rfl, hp⟩ := exists_of_mem_extend hmem
    refine ⟨left, hleft, p :: added, List.append_assoc left [p] added, ?_⟩
    rw [List.map_cons, List.map_cons, hp, hadded]

/-- A combination of a statement with one source is a row of the source with one part for each
join. -/
theorem exists_of_mem_joined {s : Select} {source : Source} (hsource : s.sources = [source])
    {c : Combination} (h : c ∈ db.joined s) :
    ∃ w ∈ db.parts source.table.table source.aliasName, ∃ added : List Part,
      c = w :: added ∧ added.map Part.key = s.joins.map joinKey := by
  obtain ⟨left, hleft, added, rfl, hadded⟩ := exists_of_mem_foldl_extend h
  rw [hsource, combinations] at hleft
  obtain ⟨w, hw, hleft⟩ := List.mem_flatMap.mp hleft
  obtain rfl := List.mem_singleton.mp hleft
  exact ⟨w, hw, added, rfl, hadded⟩

theorem foldl_extend_flatMap {α : Type} (joins : List Join) (f : α → List Combination)
    (xs : List α) :
    joins.foldl (fun rows j ↦ rows.flatMap (db.extend · j)) (xs.flatMap f)
      = xs.flatMap fun x ↦ joins.foldl (fun rows j ↦ rows.flatMap (db.extend · j)) (f x) := by
  induction joins generalizing f with
  | nil => rfl
  | cons j joins ih =>
    simp only [List.foldl_cons]
    rw [List.flatMap_assoc, ih]

/-- **Independent joins.** Where the partners of each join depend on one part of the combination
only, joining is choosing. -/
theorem foldl_extend_eq_choices {ι : Type} {w : Part} {join : ι → Join} {candidates : ι → List Part}
    (is : List ι) (left : Combination) (hw : w ∈ left)
    (hkeys : (left.map Part.key ++ is.map fun i ↦ joinKey (join i)).Nodup)
    (hpartners : ∀ i ∈ is, ∀ left : Combination, w ∈ left →
      (left.map Part.key ++ [joinKey (join i)]).Nodup →
      db.partners left (join i) = candidates i) :
    (is.map join).foldl (fun rows j ↦ rows.flatMap (db.extend · j)) [left]
      = (choices (is.map candidates)).map (left ++ ·) := by
  -- The combination grows with every join. What stays is that the source row is in it and that the
  -- aliases of the joins to come are not.
  induction is generalizing left with
  | nil =>
    rw [List.map_nil, List.map_nil, choices, List.map_singleton, List.append_nil]
    rfl
  | cons i is ih =>
    obtain ⟨hi, his⟩ := List.forall_mem_cons.mp hpartners
    have hnodup : (left.map Part.key ++ [joinKey (join i)]).Nodup := by
      refine hkeys.sublist (List.Sublist.append_left ?_ _)
      exact List.singleton_sublist.mpr List.mem_cons_self
    rw [List.map_cons, List.foldl_cons, List.flatMap_singleton, extend_eq_map,
      hi left hw hnodup, List.map_eq_flatMap, foldl_extend_flatMap, List.map_cons, choices,
      List.map_flatMap]
    apply List.flatMap_congr
    intro p hp
    have hkey : p.key = joinKey (join i) := key_of_mem_partners (hi left hw hnodup ▸ hp)
    rw [ih (left ++ [p]) (List.mem_append_left _ hw) ?_ his, List.map_map]
    · refine congrArg (List.map · _) ?_
      funext ps
      exact List.append_assoc left [p] ps
    · rw [List.map_append, List.map_singleton, hkey, List.append_assoc]
      exact hkeys

theorem joined_eq_flatMap {ι : Type} {s : Select} {source : Source} {join : ι → Join}
    {is : List ι} {candidates : Part → ι → List Part} (hsource : s.sources = [source])
    (hjoins : s.joins = is.map join)
    (hkeys : ∀ w ∈ db.parts source.table.table source.aliasName,
      (w.key :: is.map fun i ↦ joinKey (join i)).Nodup)
    (hpartners : ∀ w ∈ db.parts source.table.table source.aliasName, ∀ i ∈ is,
      ∀ left : Combination, w ∈ left → (left.map Part.key ++ [joinKey (join i)]).Nodup →
      db.partners left (join i) = candidates w i) :
    db.joined s = (db.parts source.table.table source.aliasName).flatMap fun w ↦
      (choices (is.map (candidates w))).map (w :: ·) := by
  rw [joined, hsource, hjoins, combinations, foldl_extend_flatMap]
  apply List.flatMap_congr
  intro w hw
  exact foldl_extend_eq_choices is [w] (List.mem_singleton_self w) (hkeys w hw) (hpartners w hw)

end Database

end CorpusQuery

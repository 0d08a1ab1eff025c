import CorpusQuery.Statement

/-!
# Aliases never meet

A satellite may be joined any number of times, each time under an alias of its own: that of its
table, with the number of the join from the second one on. The other tables are joined once, under
the alias of the table. No two of these aliases are the same, and since all of them are in small
letters they are not taken for each other either where the case of letters does not matter.

Two facts carry this. The first letter of an alias tells the table, and what follows it tells the
number of the join.
-/

namespace CorpusQuery

namespace Assembly

/-! ## One alias -/

theorem toLower_of_isDigit {c : Char} (h : c.isDigit = true) : c.toLower = c := by
  refine dif_neg ?_
  simp only [Char.isDigit, Bool.and_eq_true, decide_eq_true_eq] at h
  rintro ⟨hlow, -⟩
  have hhigh := h.2
  simp [UInt32.le_iff_toNat_le] at hlow hhigh
  omega

theorem toList_toString_nat (n : Nat) : (toString n).toList = Nat.toDigits 10 n := by
  rw [Nat.toString_eq_repr, Nat.toList_repr]

/-- What follows the alias of the table. -/
def aliasNumber (n : Nat) : List Char := if n = 0 then [] else Nat.toDigits 10 (n + 1)

theorem toList_satelliteAlias (r : Relation) (n : Nat) :
    (satelliteAlias r n).toList = r.aliasName.toList ++ aliasNumber n := by
  rw [satelliteAlias, aliasNumber]
  by_cases hn : n = 0
  · rw [if_pos (beq_iff_eq.mpr hn), if_pos hn, List.append_nil]
  · rw [if_neg (mt beq_iff_eq.mp hn), if_neg hn, String.toList_append, toList_toString_nat]

theorem aliasNumber_inj {m n : Nat} (h : aliasNumber m = aliasNumber n) : m = n := by
  -- The digits give the number back, and there are some.
  have hdigits (k : Nat) : Nat.ofDigitChars 10 (Nat.toDigits 10 (k + 1)) 0 = k + 1 :=
    Nat.ofDigitChars_ten_toDigits
  rw [aliasNumber, aliasNumber] at h
  by_cases hm : m = 0
  · by_cases hn : n = 0
    · rw [hm, hn]
    · rw [if_pos hm, if_neg hn] at h
      exact absurd h.symm Nat.toDigits_ne_nil
  · by_cases hn : n = 0
    · rw [if_neg hm, if_pos hn] at h
      exact absurd h Nat.toDigits_ne_nil
    · rw [if_neg hm, if_neg hn] at h
      have := (hdigits m).symm.trans (h ▸ hdigits n)
      omega

theorem relation_eq_of_head {r s : Relation} {xs ys : List Char}
    (h : r.aliasName.toList ++ xs = s.aliasName.toList ++ ys) : r = s := by
  have hhead (r : Relation) (xs : List Char) :
      (r.aliasName.toList ++ xs).head? = r.aliasName.toList.head? := by
    cases r <;> rfl
  have heads : r.aliasName.toList.head? = s.aliasName.toList.head? := by
    rw [← hhead r xs, h, hhead s ys]
  cases r <;> cases s <;> first | rfl | exact absurd heads (by decide)

theorem satelliteAlias_inj {r s : Relation} {m n : Nat}
    (h : satelliteAlias r m = satelliteAlias s n) : r = s ∧ m = n := by
  have hlist : r.aliasName.toList ++ aliasNumber m = s.aliasName.toList ++ aliasNumber n := by
    rw [← toList_satelliteAlias, ← toList_satelliteAlias, h]
  obtain rfl := relation_eq_of_head hlist
  exact ⟨rfl, aliasNumber_inj (List.append_cancel_left hlist)⟩

theorem asciiLower_satelliteAlias (r : Relation) (n : Nat) :
    Text.asciiLower (satelliteAlias r n) = satelliteAlias r n := by
  have hname : r.aliasName.toList.map Char.toLower = r.aliasName.toList := by
    cases r <;> rfl
  have hnumber : (aliasNumber n).map Char.toLower = aliasNumber n := by
    refine List.map_congr_left (fun c hc ↦ toLower_of_isDigit ?_) |>.trans (List.map_id _)
    rw [aliasNumber] at hc
    split at hc
    · cases hc
    · exact Nat.isDigit_of_mem_toDigits (by decide) (by decide) hc
  rw [Text.asciiLower, toList_satelliteAlias, List.map_append, hname, hnumber,
    ← toList_satelliteAlias, String.ofList_toList]

/-! ## Look-ups -/

/-- A look-up in a satellite under the alias of its join. -/
structure Lookup where
  relation : Relation
  aliasName : String
  column : String
  first : Value
  rest : List Value

namespace Lookup

/-- The values that are looked up. -/
def values (l : Lookup) : List Value := l.first :: l.rest

/-- The plan of the look-up. -/
def plan (l : Lookup) : ConditionPlan := .satellite l.relation l.column l.first l.rest

/-- The condition of the look-up. -/
def condition (l : Lookup) : Sql.Expr := l.plan.condition l.aliasName

end Lookup

/-- The look-ups of plans; `seen` are the satellites joined before. -/
def lookups (seen : List Relation) : List ConditionPlan → List Lookup
  | [] => []
  | .satellite r column first rest :: plans =>
    ⟨r, satelliteAlias r (seen.count r), column, first, rest⟩ :: lookups (r :: seen) plans
  | .shared _ _ _ _ :: plans => lookups seen plans

theorem satellites_ofPlans (plans : List ConditionPlan) :
    (ofPlans plans).satellites = (lookups [] plans).map fun l ↦ (l.relation, l.aliasName) := by
  -- The function in `ofPlans` matches on the pair, so we only ask what its values are.
  have hlabel (f : ConditionPlan × String → Option (Relation × String))
      (hsatellite : ∀ r column first rest aliasName,
        f (.satellite r column first rest, aliasName) = some (r, aliasName))
      (hshared : ∀ condition r touched unanchored aliasName,
        f (.shared condition r touched unanchored, aliasName) = none) (seen : List Relation) :
      (label seen plans).filterMap f
        = (lookups seen plans).map fun l ↦ (l.relation, l.aliasName) := by
    induction plans generalizing seen with
    | nil => rfl
    | cons plan plans ih =>
      cases plan with
      | satellite r column first rest =>
        rw [label, lookups, List.filterMap_cons_some (hsatellite _ _ _ _ _), ih, List.map_cons]
      | shared condition r touched unanchored =>
        rw [label, lookups, List.filterMap_cons_none (hshared _ _ _ _ _), ih]
        rintro _ _ _ _ ⟨⟩
  exact hlabel _ (fun _ _ _ _ _ ↦ rfl) (fun _ _ _ _ _ ↦ rfl) []

/-- The test of a plan on a table that is joined once; look-ups pass. -/
def passesIfShared (test : ConditionPlan → Bool) : ConditionPlan → Bool
  | .shared condition r touched unanchored => test (.shared condition r touched unanchored)
  | .satellite _ _ _ _ => true

theorem all_passesIfShared_congr {test test' : ConditionPlan → Bool} {plans : List ConditionPlan}
    (h : ∀ condition r touched unanchored, .shared condition r touched unanchored ∈ plans →
      test (.shared condition r touched unanchored)
        = test' (.shared condition r touched unanchored)) :
    plans.all (passesIfShared test) = plans.all (passesIfShared test') := by
  rw [Bool.eq_iff_iff, List.all_eq_true, List.all_eq_true]
  refine forall₂_congr fun plan hplan ↦ ?_
  cases plan with
  | satellite => rfl
  | shared condition r touched unanchored =>
    rw [passesIfShared, passesIfShared, h _ _ _ _ hplan]

/-- All plans pass a test if those on tables that are joined once and all look-ups do. Only the test
of a look-up may depend on its alias. -/
theorem all_label (test : ConditionPlan → String → Bool) (seen : List Relation)
    (plans : List ConditionPlan) :
    ((label seen plans).all fun e ↦ test e.1 e.2)
      = (plans.all (passesIfShared (test · "")) &&
        (lookups seen plans).all fun l ↦ test l.plan l.aliasName) := by
  induction plans generalizing seen with
  | nil => rfl
  | cons plan plans ih =>
    cases plan with
    | satellite r column first rest =>
      rw [label, List.all_cons, ih (r :: seen), lookups, List.all_cons, List.all_cons,
        passesIfShared, Bool.true_and, Bool.and_left_comm]
      rfl
    | shared condition r touched unanchored =>
      rw [label, List.all_cons, ih seen, lookups, List.all_cons, passesIfShared, Bool.and_assoc]
      rintro _ _ _ _ ⟨⟩

theorem all_conditions_ofPlans (test : Sql.Expr → Bool) (plans : List ConditionPlan) :
    (ofPlans plans).conditions.all test
      = (plans.all (passesIfShared (test <| ·.condition "")) &&
        (lookups [] plans).all (test ·.condition)) := by
  have h := all_label (fun plan aliasName ↦ test (plan.condition aliasName)) [] plans
  rw [ofPlans, List.all_map]
  exact h

theorem all_plans (test : ConditionPlan → Bool) (plans : List ConditionPlan) :
    plans.all test = (plans.all (passesIfShared test) && (lookups [] plans).all (test ·.plan)) := by
  have hlabel (seen : List Relation) : (label seen plans).map (·.1) = plans := by
    induction plans generalizing seen with
    | nil => rfl
    | cons plan plans ih =>
      cases plan with
      | satellite r column first rest => exact congrArg _ (ih (r :: seen))
      | shared condition r touched unanchored => exact congrArg _ (ih seen)
  calc plans.all test
      = ((label [] plans).map (·.1)).all test := by rw [hlabel]
    _ = (label [] plans).all fun e ↦ test e.1 := List.all_map
    _ = _ := all_label (fun plan _ ↦ test plan) [] plans

theorem plan_mem_of_mem_lookups {seen : List Relation} {plans : List ConditionPlan} {l : Lookup}
    (h : l ∈ lookups seen plans) : l.plan ∈ plans := by
  induction plans generalizing seen with
  | nil => cases h
  | cons plan plans ih =>
    cases plan with
    | satellite r column first rest =>
      rcases List.mem_cons.mp h with rfl | h
      · exact List.mem_cons_self
      · exact List.mem_cons_of_mem _ (ih h)
    | shared condition r touched unanchored => exact List.mem_cons_of_mem _ (ih h)

theorem alias_of_mem_lookups {seen : List Relation} {plans : List ConditionPlan} {l : Lookup}
    (h : l ∈ lookups seen plans) :
    ∃ n, seen.count l.relation ≤ n ∧ l.aliasName = satelliteAlias l.relation n := by
  induction plans generalizing seen with
  | nil => cases h
  | cons plan plans ih =>
    cases plan with
    | satellite r column first rest =>
      rcases List.mem_cons.mp h with rfl | h
      · exact ⟨_, Nat.le_refl _, rfl⟩
      · obtain ⟨n, hn, hname⟩ := ih h
        exact ⟨n, Nat.le_trans (List.Sublist.count_le _ (List.sublist_cons_self r seen)) hn, hname⟩
    | shared condition r touched unanchored => exact ih h

theorem nodup_aliases_lookups (seen : List Relation) (plans : List ConditionPlan) :
    ((lookups seen plans).map (·.aliasName)).Nodup := by
  induction plans generalizing seen with
  | nil => exact List.nodup_nil
  | cons plan plans ih =>
    cases plan with
    | satellite r column first rest =>
      rw [lookups, List.map_cons, List.nodup_cons]
      refine ⟨?_, ih (r :: seen)⟩
      intro hmem
      obtain ⟨l, hl, hname⟩ := List.mem_map.mp hmem
      obtain ⟨n, hn, hl⟩ := alias_of_mem_lookups hl
      obtain ⟨rfl, rfl⟩ := satelliteAlias_inj (hl.symm.trans hname)
      -- A later join of the satellite counts this one.
      rw [List.count_cons_self] at hn
      omega
    | shared condition r touched unanchored => exact ih seen

/-! ## All joins -/

/-- The aliases of the facts table, of tables joined once before and after the satellites, and of
the satellites. -/
def joinedAliases (before : List Relation) (ls : List Lookup) (after : List Relation) :
    List String :=
  Relation.facts.aliasName :: (before.map (·.aliasName) ++ ls.map (·.aliasName)
    ++ after.map (·.aliasName))

theorem nodup_joinedAliases {before after : List Relation} {plans : List ConditionPlan}
    (hrelations : (.facts :: (before ++ after)).Nodup)
    (hbefore : ∀ r ∈ before, r.isSatellite = false) (hafter : ∀ r ∈ after, r.isSatellite = false)
    (hlookups : ∀ l ∈ lookups [] plans, l.relation.isSatellite = true) :
    (joinedAliases before (lookups [] plans) after).Nodup := by
  have hsame (r s : Relation) : r.aliasName = s.aliasName → r = s := fun h ↦
    (satelliteAlias_inj (m := 0) (n := 0) h).1
  have hlookup (r : Relation) (hr : r.isSatellite = false) (l : Lookup)
      (hl : l ∈ lookups [] plans) : r.aliasName ≠ l.aliasName := by
    intro h
    obtain ⟨n, -, hname⟩ := alias_of_mem_lookups hl
    obtain ⟨rfl, -⟩ := satelliteAlias_inj (m := 0) (h.trans hname)
    rw [hlookups l hl] at hr
    cases hr
  have honce : ((.facts :: (before ++ after)).map Relation.aliasName).Nodup :=
    List.Pairwise.map _ (fun r s hne h ↦ hne (hsame r s h)) hrelations
  -- With the look-ups moved to the end, what stands before them are tables that are joined once.
  have hperm : (joinedAliases before (lookups [] plans) after).Perm
      ((.facts :: (before ++ after)).map Relation.aliasName
        ++ (lookups [] plans).map (·.aliasName)) := by
    rw [joinedAliases, List.map_cons, List.map_append, List.cons_append, List.append_assoc,
      List.append_assoc]
    exact .cons _ (.append_left _ List.perm_append_comm)
  refine hperm.nodup_iff.mpr (List.nodup_append.mpr ⟨honce, nodup_aliases_lookups [] plans, ?_⟩)
  rintro x hx y hy rfl
  obtain ⟨r, hr, rfl⟩ := List.mem_map.mp hx
  obtain ⟨l, hl, hname⟩ := List.mem_map.mp hy
  refine hlookup r ?_ l hl hname.symm
  rcases List.mem_cons.mp hr with rfl | hr
  · rfl
  · exact (List.mem_append.mp hr).elim (hbefore r) (hafter r)

end Assembly

end CorpusQuery

import CorpusQuery.Proofs.Table.Distinct
import CorpusQuery.Proofs.Table.Rows
import CorpusQuery.Table.Top

/-!
# Which rows are the most frequent ones

Keeping the `n` most frequent rows of each form groups the rows, ranks every group and keeps its
first `n` positions. What that comes to can be said of each row on its own: a row is kept if fewer
than `n` rows of its form come before it. Those are the ones above it that are at least as frequent,
and the ones below it that are more frequent.

The invariant of the grouping is that the groups are apart and that each one has exactly the
positions that share a form with its first one. Forms are the same if they are one key of a hash
table, so the two zeros are different forms, and a row whose form is not a number shares it with no
other row and is a group on its own. Ranking a group keeps equally frequent rows in their order, so
the rows before a row in the ranking are the rows that come before it in the sense above.

## Main statements

* `Table.topPerForm_eq`: which rows are kept.
* `Table.place_eq_add_countP`: how many rows come before a row, as a table is cut.
* `Table.topPerForm_eq_self_of_subperm`: tables that no row is left out of.
-/

namespace CorpusQuery

open Number (value?)

/-! ## The first places of a sorted list -/

section Stable

variable {le : ℕ → ℕ → Bool}

/-- Whether a position comes before another one when positions are ranked: it is better, or it is as
good and stands further up. -/
def comesBefore (le : ℕ → ℕ → Bool) (j i : ℕ) : Bool := le j i && (!le i j || decide (j < i))

theorem comesBefore_asymm (j i : ℕ) (h : comesBefore le j i = true) :
    comesBefore le i j = false := by
  simp only [comesBefore, Bool.and_eq_true, Bool.or_eq_true, Bool.not_eq_true', decide_eq_true_iff,
    Bool.and_eq_false_iff, Bool.or_eq_false_iff, Bool.not_eq_false', decide_eq_false_iff_not] at h ⊢
  obtain ⟨hji, hij | hlt⟩ := h
  · exact .inl hij
  · exact .inr ⟨hji, Nat.lt_asymm hlt⟩

variable (htrans : ∀ a b c, le a b = true → le b c = true → le a c = true)
  (htotal : ∀ a b, (le a b || le b a) = true)

include htrans htotal

/-- **Ranking is stable.** Positions that stand in their order are ranked by what comes before
what. -/
theorem pairwise_comesBefore {positions : List ℕ} (h : positions.Pairwise (· < ·)) :
    (positions.mergeSort le).Pairwise (comesBefore le · ·) := by
  have hnodup : (positions.mergeSort le).Nodup :=
    (List.mergeSort_perm positions le).nodup_iff.mpr (h.imp Nat.ne_of_lt)
  rw [List.pairwise_iff_forall_sublist]
  intro a b hab
  have hle : le a b = true :=
    List.pairwise_iff_forall_sublist.mp (List.pairwise_mergeSort htrans htotal positions) hab
  have hmem (x : ℕ) (hx : x ∈ [a, b]) : x ∈ positions := List.mem_mergeSort.mp (hab.subset hx)
  rw [comesBefore, hle, Bool.true_and, Bool.or_eq_true, Bool.not_eq_true', decide_eq_true_iff,
    or_iff_not_imp_left, Bool.not_eq_false]
  intro hba
  by_contra hlt
  have hne : a ≠ b := by
    have hpair := hnodup.sublist hab
    simpa using hpair
  have hswapped : b < a := by omega
  -- Ranking keeps two positions that are equally good in their order.
  have hsublist : [b, a].Sublist positions := by
    apply List.sublist_of_subperm_of_pairwise _ (List.pairwise_pair.mpr hswapped) h
    have hpair : [b, a].Nodup := List.nodup_cons.mpr ⟨by simpa using hne.symm, List.nodup_singleton a⟩
    apply List.subperm_of_subset hpair
    intro x hx
    exact hmem x (by simpa [or_comm] using hx)
  exact not_sublist_swap hnodup hab (List.pair_sublist_mergeSort htrans htotal hba hsublist)

theorem mem_take_mergeSort {positions : List ℕ} (h : positions.Pairwise (· < ·)) (n i : ℕ) :
    i ∈ (positions.mergeSort le).take n
      ↔ i ∈ positions ∧ positions.countP (comesBefore le · i) < n := by
  rw [mem_take_iff_of_pairwise comesBefore_asymm (pairwise_comesBefore htrans htotal h),
    List.mem_mergeSort, (List.mergeSort_perm positions le).countP_eq]

end Stable

namespace Table

/-! ## Groups -/

section Groups

variable {cell : ℕ → Value} {k : ℕ} {groups : List FormGroup}

/-- The position `i` and the positions below `k` that share its form. -/
def mates (cell : ℕ → Value) (k i : ℕ) : List ℕ :=
  (List.range k).filter fun j ↦ j == i || (cell i).sameKey (cell j)

theorem mem_mates {i j : ℕ} :
    j ∈ mates cell k i ↔ j < k ∧ (j = i ∨ (cell i).sameKey (cell j) = true) := by
  rw [mates, List.mem_filter, List.mem_range, Bool.or_eq_true, beq_iff_eq]

theorem pairwise_mates (i : ℕ) : (mates cell k i).Pairwise (· < ·) :=
  List.pairwise_lt_range.filter _

theorem mates_succ {i : ℕ} (hi : i < k) :
    mates cell (k + 1) i = mates cell k i ++ if (cell i).sameKey (cell k) then [k] else [] := by
  have hne : (k == i) = false := beq_eq_false_iff_ne.mpr (by omega)
  rw [mates, List.range_succ, List.filter_append, ← mates, List.filter_singleton, hne,
    Bool.false_or, cond_eq_ite]

theorem mates_eq_of_mem {i j : ℕ} (h : j ∈ mates cell k i) : mates cell k i = mates cell k j := by
  obtain ⟨-, rfl | hsame⟩ := mem_mates.mp h
  · rfl
  · have hsame' : (cell j).sameKey (cell i) = true := Value.sameKey_comm .. ▸ hsame
    refine List.filter_congr fun l _ ↦ ?_
    rw [Bool.eq_iff_iff, Bool.or_eq_true, Bool.or_eq_true, beq_iff_eq, beq_iff_eq]
    constructor
    · rintro (rfl | hl)
      · exact .inr hsame'
      · exact .inr (Value.sameKey_trans hsame' hl)
    · rintro (rfl | hl)
      · exact .inr hsame
      · exact .inr (Value.sameKey_trans hsame hl)

/-- The positions below `k` are grouped: the groups have different forms, each is made of mates, and
no position is missing. -/
structure Grouped (cell : ℕ → Value) (k : ℕ) (groups : List FormGroup) : Prop where
  apart : groups.Pairwise fun g h ↦ g.form.sameKey h.form = false
  mates : ∀ g ∈ groups, ∃ i < k, g.form = cell i ∧ g.positions = mates cell k i
  covers : ∀ i < k, ∃ g ∈ groups, i ∈ g.positions

/-- A position starts a group if no group has its form, and is added to the first one otherwise. -/
theorem addToGroup_cases (form : Value) (position : ℕ) (groups : List FormGroup) :
    ((∀ g ∈ groups, g.form.sameKey form = false) ∧
      addToGroup form position groups = groups ++ [⟨form, [position]⟩]) ∨
    ∃ before g after, groups = before ++ g :: after ∧ (∀ h ∈ before, h.form.sameKey form = false) ∧
      g.form.sameKey form = true ∧ addToGroup form position groups
        = before ++ { g with positions := g.positions ++ [position] } :: after := by
  induction groups with
  | nil => exact .inl ⟨fun _ h ↦ absurd h List.not_mem_nil, rfl⟩
  | cons g groups ih =>
    rw [addToGroup]
    by_cases hg : g.form.sameKey form = true
    · rw [if_pos hg]
      exact .inr ⟨[], g, groups, rfl, fun _ h ↦ absurd h List.not_mem_nil, hg, rfl⟩
    · have hother : g.form.sameKey form = false := Bool.eq_false_iff.mpr hg
      rw [if_neg hg]
      rcases ih with ⟨hnone, hadd⟩ | ⟨before, g', after, rfl, hbefore, hg', hadd⟩
      · exact .inl ⟨List.forall_mem_cons.mpr ⟨hother, hnone⟩, by rw [hadd, List.cons_append]⟩
      · exact .inr ⟨g :: before, g', after, rfl, List.forall_mem_cons.mpr ⟨hother, hbefore⟩, hg',
          by rw [hadd, List.cons_append]⟩

theorem Grouped.mates_of_other (h : Grouped cell k groups) {g : FormGroup} (hg : g ∈ groups)
    (hother : g.form.sameKey (cell k) = false) :
    ∃ i < k + 1, g.form = cell i ∧ g.positions = Table.mates cell (k + 1) i := by
  obtain ⟨i, hi, hform, hpositions⟩ := h.mates g hg
  refine ⟨i, Nat.lt_succ_of_lt hi, hform, ?_⟩
  rw [mates_succ hi, ← hform, hother, if_neg Bool.false_ne_true, List.append_nil, hpositions]

theorem Grouped.mates_self (h : Grouped cell k groups)
    (hnone : ∀ g ∈ groups, g.form.sameKey (cell k) = false) :
    Table.mates cell (k + 1) k = [k] := by
  have hother : (List.range k).filter (fun j ↦ j == k || (cell k).sameKey (cell j)) = [] := by
    rw [List.filter_eq_nil_iff]
    intro j hj hmate
    have hlt : j < k := List.mem_range.mp hj
    have hsame : (cell j).sameKey (cell k) = true := by
      rw [Bool.or_eq_true, beq_iff_eq] at hmate
      rw [Value.sameKey_comm]
      exact hmate.resolve_left (Nat.ne_of_lt hlt)
    obtain ⟨g, hg, hposition⟩ := h.covers j hlt
    obtain ⟨i, -, hform, hpositions⟩ := h.mates g hg
    have hgk : g.form.sameKey (cell k) = true := by
      obtain ⟨-, rfl | hij⟩ := mem_mates.mp (hpositions ▸ hposition)
      · rwa [hform]
      · rw [hform]
        exact Value.sameKey_trans hij hsame
    rw [hnone g hg] at hgk
    cases hgk
  rw [Table.mates, List.range_succ, List.filter_append, hother, List.nil_append,
    List.filter_cons_of_pos (by simp), List.filter_nil]

/-- **One more row.** Adding a position keeps the groups apart and complete. -/
theorem Grouped.addToGroup (h : Grouped cell k groups) :
    Grouped cell (k + 1) (addToGroup (cell k) k groups) := by
  rcases addToGroup_cases (cell k) k groups with
    ⟨hnone, hadd⟩ | ⟨before, g, after, rfl, hbefore, hg, hadd⟩
  · rw [hadd]
    constructor
    case apart =>
      rw [List.pairwise_append]
      refine ⟨h.apart, List.pairwise_singleton _ _, fun g hg g' hg' ↦ ?_⟩
      obtain rfl := List.mem_singleton.mp hg'
      exact hnone g hg
    case mates =>
      intro g hg
      rcases List.mem_append.mp hg with hg | hg
      · exact h.mates_of_other hg (hnone g hg)
      · obtain rfl := List.mem_singleton.mp hg
        exact ⟨k, Nat.lt_succ_self k, rfl, (h.mates_self hnone).symm⟩
    case covers =>
      intro i hi
      by_cases hik : i = k
      · exact ⟨_, List.mem_append_right _ (List.mem_singleton_self _), by simp [hik]⟩
      · obtain ⟨g, hg, hposition⟩ := h.covers i (by omega)
        exact ⟨g, List.mem_append_left _ hg, hposition⟩
  · obtain ⟨-, hgafter, -⟩ := List.pairwise_append.mp h.apart
    -- The groups behind the one that grows have other forms as well.
    have hafter : ∀ g' ∈ after, g'.form.sameKey (cell k) = false := by
      intro g' hg'
      rw [Bool.eq_false_iff]
      intro hsame
      have hother := (List.pairwise_cons.mp hgafter).1 g' hg'
      rw [Value.sameKey_trans hg (Value.sameKey_comm .. ▸ hsame)] at hother
      cases hother
    rw [hadd]
    constructor
    case apart =>
      have hapart := h.apart
      simp only [List.pairwise_append, List.pairwise_cons, List.forall_mem_cons] at hapart ⊢
      exact hapart
    case mates =>
      intro g' hg'
      rcases List.mem_append.mp hg' with hg' | hg'
      · exact h.mates_of_other (List.mem_append_left _ hg') (hbefore g' hg')
      rcases List.mem_cons.mp hg' with rfl | hg'
      · obtain ⟨i, hi, hform, hpositions⟩ :=
          h.mates g (List.mem_append_right _ List.mem_cons_self)
        refine ⟨i, Nat.lt_succ_of_lt hi, hform, ?_⟩
        rw [mates_succ hi, ← hform, hg, if_pos rfl, ← hpositions]
      · exact h.mates_of_other (List.mem_append_right _ (List.mem_cons_of_mem _ hg'))
          (hafter g' hg')
    case covers =>
      intro i hi
      by_cases hik : i = k
      · exact ⟨_, List.mem_append_right _ List.mem_cons_self, by simp [hik]⟩
      · obtain ⟨g', hg', hposition⟩ := h.covers i (by omega)
        rcases List.mem_append.mp hg' with hg' | hg'
        · exact ⟨g', List.mem_append_left _ hg', hposition⟩
        rcases List.mem_cons.mp hg' with rfl | hg'
        · exact ⟨_, List.mem_append_right _ List.mem_cons_self, List.mem_append_left _ hposition⟩
        · exact ⟨g', List.mem_append_right _ (List.mem_cons_of_mem _ hg'), hposition⟩

theorem Grouped.positions_eq (h : Grouped cell k groups) {g : FormGroup} (hg : g ∈ groups) {i : ℕ}
    (hi : i ∈ g.positions) : g.positions = Table.mates cell k i := by
  obtain ⟨first, -, -, hpositions⟩ := h.mates g hg
  rw [hpositions] at hi ⊢
  exact mates_eq_of_mem hi

end Groups

/-- **Whole tables.** All positions are grouped. -/
theorem grouped_formGroups (form : ℕ) (rows : List (List Value)) :
    Grouped (fun i ↦ cellAt form (rowAt rows i)) rows.length (formGroups form rows) := by
  rw [formGroups, zipIdx_eq_map_rowAt, List.foldl_map]
  generalize rows.length = k
  induction k with
  | zero =>
    exact ⟨.nil, fun _ h ↦ absurd h List.not_mem_nil, fun _ h ↦ absurd h (Nat.not_lt_zero _)⟩
  | succ k ih =>
    rw [List.range_succ, List.foldl_append]
    exact ih.addToGroup

/-! ## Ranks -/

/-- What a frequency ranks by: the number it stands for. A missing one is below all numbers. -/
def rankKey (frequency : Option Float) : WithBot (WithBot (WithTop ℤ)) :=
  match frequency.bind value? with
  | some a => a
  | none => ⊥

/-- A frequency that is a number, or missing. -/
def Rankable (frequency : Option Float) : Prop := ∀ x, frequency = some x → x.isNaN = false

theorem rankKey_some {x : Float} (h : Rankable (some x)) :
    ∃ a, value? x = some a ∧ rankKey (some x) = a := by
  have hnumber : value? x ≠ none := by
    rw [Ne, ← Number.isNaN_iff, h x rfl]
    exact Bool.false_ne_true
  obtain ⟨a, ha⟩ := Option.ne_none_iff_exists'.mp hnumber
  refine ⟨a, ha, ?_⟩
  rw [rankKey, Option.bind_some, ha]

theorem rank_eq_compare {a b : Option Float} (ha : Rankable a) (hb : Rankable b) :
    rank a b = compare (rankKey b) (rankKey a) := by
  cases a with
  | none =>
    cases b with
    | none => exact (compare_eq_iff_eq.mpr rfl).symm
    | some y =>
      obtain ⟨n, -, hkey⟩ := rankKey_some hb
      rw [hkey]
      exact (compare_gt_iff_gt.mpr (WithBot.bot_lt_coe n)).symm
  | some x =>
    obtain ⟨m, hm, hkey⟩ := rankKey_some ha
    cases b with
    | none =>
      rw [hkey]
      exact (compare_lt_iff_lt.mpr (WithBot.bot_lt_coe m)).symm
    | some y =>
      obtain ⟨n, hn, hkey'⟩ := rankKey_some hb
      rw [hkey, hkey', rank, Number.order_eq, hn, hm]
      exact (Number.compare_map WithBot.coe_strictMono n m).symm

/-! ## Places -/

section Places

variable (form freq : ℕ)

/-- The frequency of a row. -/
def frequencyOf (row : List Value) : Option Float := (cellAt freq row).toNumber?

/-- Whether two rows have the same form. -/
def sameForm (row other : List Value) : Bool := (cellAt form row).sameKey (cellAt form other)

/-- How many rows of its form come before a row: above it those that are at least as frequent, and
below it those that are more frequent. -/
noncomputable def place (rows : List (List Value)) (i : ℕ) : ℕ :=
  let row := rowAt rows i
  let key := rankKey (frequencyOf freq row)
  ((rows.take i).countP fun other ↦
      sameForm form row other && decide (key ≤ rankKey (frequencyOf freq other)))
    + (rows.drop (i + 1)).countP fun other ↦
      sameForm form row other && decide (key < rankKey (frequencyOf freq other))

variable {form freq} {rows : List (List Value)}

theorem take_eq_map_rowAt {i : ℕ} (hi : i ≤ rows.length) :
    rows.take i = (List.range i).map (rowAt rows) := by
  refine List.ext_getElem (by simpa using hi) fun j hj hj' ↦ ?_
  have hlt : j < rows.length := by
    rw [List.length_take] at hj
    omega
  simp [rowAt, hlt]

theorem drop_eq_map_rowAt (i : ℕ) :
    rows.drop i = (List.range' i (rows.length - i)).map (rowAt rows) := by
  refine List.ext_getElem (by simp) fun j hj hj' ↦ ?_
  have hlt : i + j < rows.length := by
    rw [List.length_drop] at hj
    omega
  simp [rowAt, hlt]

theorem countP_range_eq_place {i : ℕ} (hi : i < rows.length) :
    ((List.range rows.length).countP fun j ↦ sameForm form (rowAt rows i) (rowAt rows j) &&
        comesBefore (fun a b ↦ decide (rankKey (frequencyOf freq (rowAt rows b))
          ≤ rankKey (frequencyOf freq (rowAt rows a)))) j i)
      = place form freq rows i := by
  have hsplit : List.range rows.length
      = List.range i ++ i :: List.range' (i + 1) (rows.length - (i + 1)) := by
    have hrest : rows.length - i = rows.length - (i + 1) + 1 := by omega
    rw [← List.range'_succ, ← hrest, List.range_eq_range', List.range_eq_range']
    have happend := @List.range'_append_1 0 i (rows.length - i)
    rw [Nat.zero_add, Nat.add_sub_cancel' hi.le] at happend
    exact happend.symm
  have hself : comesBefore (fun a b ↦ decide (rankKey (frequencyOf freq (rowAt rows b))
      ≤ rankKey (frequencyOf freq (rowAt rows a)))) i i = false := by
    simp [comesBefore]
  rw [hsplit, List.countP_append, List.countP_cons, hself, Bool.and_false,
    if_neg Bool.false_ne_true, Nat.add_zero, place, take_eq_map_rowAt hi.le, drop_eq_map_rowAt,
    List.countP_map, List.countP_map]
  congr 1
  · refine List.countP_congr fun j hj ↦ ?_
    have hlt : j < i := List.mem_range.mp hj
    simp [comesBefore, hlt]
  · refine List.countP_congr fun j hj ↦ ?_
    have hle : ¬j < i := by
      have hbound := (List.mem_range'_1.mp hj).1
      omega
    simp only [comesBefore, hle, decide_false, Bool.or_false, Function.comp_apply,
      Bool.and_eq_true, decide_eq_true_iff, Bool.not_eq_true', decide_eq_false_iff_not, not_le]
    exact and_congr_right fun _ ↦ ⟨fun h ↦ h.2, fun h ↦ ⟨h.le, h⟩⟩

theorem rankable_rowAt (hrankable : ∀ row ∈ rows, Rankable (frequencyOf freq row)) (i : ℕ) :
    Rankable (frequencyOf freq (rowAt rows i)) := by
  rw [rowAt]
  rcases hi : rows[i]? with _ | row
  · intro x hx
    cases hx
  · exact hrankable row (List.mem_of_getElem? hi)

/-- **Ranking one form.** Of the rows of a form those are among the best that fewer than `n` come
before. -/
theorem mem_bestOf_mates (hrankable : ∀ row ∈ rows, Rankable (frequencyOf freq row)) (n : ℕ) {i : ℕ}
    (hi : i < rows.length) :
    i ∈ bestOf n (fun j ↦ frequencyOf freq (rowAt rows j))
        (mates (fun j ↦ cellAt form (rowAt rows j)) rows.length i)
      ↔ place form freq rows i < n := by
  have hrank := rankable_rowAt hrankable
  have hle : (fun a b ↦ rank (frequencyOf freq (rowAt rows a)) (frequencyOf freq (rowAt rows b))
      != .gt) = fun a b ↦ decide (rankKey (frequencyOf freq (rowAt rows b))
        ≤ rankKey (frequencyOf freq (rowAt rows a))) := by
    funext a b
    rw [rank_eq_compare (hrank a) (hrank b), Bool.eq_iff_iff, bne_iff_ne, decide_eq_true_iff,
      compare_le_iff_le]
  rw [bestOf, hle, mem_take_mergeSort
    (fun a b c hab hbc ↦ decide_eq_true
      ((of_decide_eq_true hbc).trans (of_decide_eq_true hab)))
    (fun a b ↦ by simpa using le_total _ _) (pairwise_mates i),
    and_iff_right (mem_mates.mpr ⟨hi, .inl rfl⟩), ← countP_range_eq_place hi, mates,
    List.countP_filter]
  refine iff_of_eq (congrArg (· < n) (List.countP_congr fun j _ ↦ ?_))
  by_cases hj : j = i
  · subst hj
    simp [comesBefore]
  · simp [hj, sameForm, and_comm]

theorem mem_flatMap_bestOf (frequency : ℕ → Option Float) (n : ℕ) {i : ℕ} (hi : i < rows.length) :
    i ∈ ((formGroups form rows).flatMap fun g ↦ bestOf n frequency g.positions)
      ↔ i ∈ bestOf n frequency (mates (fun j ↦ cellAt form (rowAt rows j)) rows.length i) := by
  have hgroups := grouped_formGroups form rows
  rw [List.mem_flatMap]
  constructor
  · rintro ⟨g, hg, hbest⟩
    have hposition : i ∈ g.positions := List.mem_mergeSort.mp (List.mem_of_mem_take hbest)
    rwa [hgroups.positions_eq hg hposition] at hbest
  · intro hbest
    obtain ⟨g, hg, hposition⟩ := hgroups.covers i hi
    exact ⟨g, hg, hgroups.positions_eq hg hposition ▸ hbest⟩

/-- A table of forms and frequencies keeps the best positions of every group. -/
theorem topPerForm_eq_bestOf {t : Table} (hform : t.columnIndex? "form" = some form)
    (hfreq : t.columnIndex? "frequency" = some freq) (n : ℕ) :
    t.topPerForm n = t.keepRows ((formGroups form t.rows).flatMap fun g ↦
      bestOf n (fun i ↦ frequencyOf freq (rowAt t.rows i)) g.positions).contains := by
  have hfrequency : (fun i ↦ (t.rows[i]?.map (cellAt freq)).bind (·.toNumber?))
      = fun i ↦ frequencyOf freq (rowAt t.rows i) := by
    funext i
    rw [rowAt]
    cases t.rows[i]? <;> rfl
  rw [topPerForm, hform, hfreq]
  dsimp only
  rw [hfrequency]

/-- **The most frequent rows.** Those rows are kept that fewer than `n` rows of their form come
before. -/
theorem topPerForm_eq {t : Table} (hform : t.columnIndex? "form" = some form)
    (hfreq : t.columnIndex? "frequency" = some freq)
    (hrankable : ∀ row ∈ t.rows, Rankable (frequencyOf freq row)) (n : ℕ) :
    t.topPerForm n = t.keepRows fun i ↦ decide (place form freq t.rows i < n) := by
  rw [topPerForm_eq_bestOf hform hfreq]
  refine keepRows_congr t fun i hi ↦ ?_
  rw [Bool.eq_iff_iff, List.contains_iff_mem, mem_flatMap_bestOf _ n hi, decide_eq_true_iff,
    ← mem_bestOf_mates hrankable n hi]

/-- **Cutting.** Below a cut only more frequent rows of the form come before a row above it. -/
theorem place_eq_add_countP {m i : ℕ} (him : i < m) :
    place form freq rows i = place form freq (rows.take m) i
      + (rows.drop m).countP fun other ↦ sameForm form (rowAt rows i) other &&
        decide (rankKey (frequencyOf freq (rowAt rows i)) < rankKey (frequencyOf freq other)) := by
  have hrow : rowAt (rows.take m) i = rowAt rows i := by
    rw [rowAt, rowAt, List.getElem?_take_of_lt him]
  have habove : (rows.take m).take i = rows.take i := by
    rw [List.take_take, Nat.min_eq_left him.le]
  have hbelow : rows.drop (i + 1) = (rows.take m).drop (i + 1) ++ rows.drop m := by
    rw [List.drop_take]
    have hdrop : rows.drop m = (rows.drop (i + 1)).drop (m - (i + 1)) := by
      rw [List.drop_drop]
      congr 1
      omega
    rw [hdrop, List.take_append_drop]
  rw [place, place, hrow, habove, hbelow, List.countP_append, Nat.add_assoc]

end Places

/-! ## Tables that no row is left out of -/

section Whole

variable {form : ℕ} {rows : List (List Value)} {t t' : Table} {n : ℕ}

/-- Mates are the rows of one form. A form that is not a number has one row at a time. -/
theorem length_mates {i : ℕ} (hi : i < rows.length) :
    (mates (fun j ↦ cellAt form (rowAt rows j)) rows.length i).length
      = max 1 (rows.countP (sameForm form (rowAt rows i))) := by
  have hmem : i ∈ List.range rows.length := List.mem_range.mpr hi
  rw [mates, ← List.countP_eq_length_filter, countP_eq_countP_range]
  by_cases hself : sameForm form (rowAt rows i) (rowAt rows i) = true
  · have hpos : 0 < (List.range rows.length).countP fun j ↦
        sameForm form (rowAt rows i) (rowAt rows j) := List.countP_pos_iff.mpr ⟨i, hmem, hself⟩
    rw [max_eq_right hpos]
    refine List.countP_congr fun j _ ↦ ?_
    rw [Bool.or_eq_true, beq_iff_eq]
    exact ⟨fun h ↦ h.elim (fun hj ↦ hj ▸ hself) id, .inr⟩
  · have hother (j : ℕ) : sameForm form (rowAt rows i) (rowAt rows j) = false := by
      rw [Bool.eq_false_iff]
      intro h
      exact hself (Value.sameKey_trans h (Value.sameKey_comm .. ▸ h))
    have hone : (List.range rows.length).countP (· == i) = 1 :=
      List.count_eq_one_of_mem List.nodup_range hmem
    simp only [sameForm] at hother
    simp [sameForm, hother, hone]

theorem forall_mem_bestOf_iff {cell : ℕ → Value} {k : ℕ} (frequency : ℕ → Option Float) :
    (∀ i < k, i ∈ bestOf n frequency (mates cell k i))
      ↔ ∀ i < k, (mates cell k i).length ≤ n := by
  constructor
  · intro hbest i hi
    have hsubset : mates cell k i ⊆ bestOf n frequency (mates cell k i) := by
      intro j hj
      rw [mates_eq_of_mem hj]
      exact hbest j (mem_mates.mp hj).1
    have hnodup : (mates cell k i).Nodup := (pairwise_mates i).imp Nat.ne_of_lt
    exact (List.subperm_of_subset hnodup hsubset).length_le.trans (List.length_take_le _ _)
  · intro hfew i hi
    have hlength : ((mates cell k i).mergeSort fun a b ↦
        rank (frequency a) (frequency b) != .gt).length ≤ n := by
      rw [List.length_mergeSort]
      exact hfew i hi
    rw [bestOf, List.take_of_length_le hlength, List.mem_mergeSort]
    exact mem_mates.mpr ⟨hi, .inl rfl⟩

/-- No form has more than `n` rows. A row whose form is not a number counts as the only one. -/
def AtMostPerForm (form n : ℕ) (rows : List (List Value)) : Prop :=
  ∀ row ∈ rows, max 1 (rows.countP (sameForm form row)) ≤ n

theorem AtMostPerForm.of_subperm {rows' : List (List Value)} (h : AtMostPerForm form n rows)
    (hrows : rows'.Subperm rows) : AtMostPerForm form n rows' := by
  intro row hrow
  have hle : rows'.countP (sameForm form row) ≤ rows.countP (sameForm form row) :=
    hrows.countP_le _
  exact (max_le_max le_rfl hle).trans (h row (hrows.subset hrow))

theorem forall_kept_iff (frequency : ℕ → Option Float) :
    (∀ i < rows.length, ((formGroups form rows).flatMap fun g ↦
        bestOf n frequency g.positions).contains i = true) ↔ AtMostPerForm form n rows := by
  have hkept : (∀ i < rows.length, ((formGroups form rows).flatMap fun g ↦
      bestOf n frequency g.positions).contains i = true) ↔ ∀ i < rows.length,
        i ∈ bestOf n frequency (mates (fun j ↦ cellAt form (rowAt rows j)) rows.length i) := by
    refine forall₂_congr fun i hi ↦ ?_
    rw [List.contains_iff_mem, mem_flatMap_bestOf frequency n hi]
  rw [hkept, forall_mem_bestOf_iff, AtMostPerForm]
  constructor
  · intro hfew row hrow
    obtain ⟨i, hi, rfl⟩ := List.getElem_of_mem hrow
    rw [← rowAt_eq_getElem hi, ← length_mates hi]
    exact hfew i hi
  · intro hfew i hi
    rw [length_mates hi, rowAt_eq_getElem hi]
    exact hfew _ (List.getElem_mem hi)

/-- **Fewer rows.** Where no row of a table is left out, none is left out of a table with some of
its rows. -/
theorem topPerForm_eq_self_of_subperm (hcolumns : t'.columns = t.columns)
    (hrows : t'.rows.Subperm t.rows) (h : (t.topPerForm n).rows.length = t.rows.length) :
    t'.topPerForm n = t' := by
  have hindex (name : String) : t'.columnIndex? name = t.columnIndex? name := by
    rw [columnIndex?, columnIndex?, hcolumns]
  rw [topPerForm] at h ⊢
  rw [hindex, hindex]
  cases hform : t.columnIndex? "form" with
  | none => rfl
  | some form =>
    cases hfreq : t.columnIndex? "frequency" with
    | none => rfl
    | some freq =>
      rw [hform, hfreq] at h
      have hfew := (forall_kept_iff _).mp (length_keepRows_eq_iff.mp h)
      exact keepRows_eq_self ((forall_kept_iff _).mpr (hfew.of_subperm hrows))

end Whole

end Table

end CorpusQuery

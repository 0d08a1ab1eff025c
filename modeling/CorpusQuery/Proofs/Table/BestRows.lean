import CorpusQuery.Proofs.Table.Columns
import CorpusQuery.Proofs.Table.Top

/-!
# The best rows of each form

Of two rows of one form the better one is the more frequent one, or the one that has a frequency at
all; otherwise it is the one further up. Among the rows of a form this is a strict order in which
any two of them compare, so that to keep the best `n` is to keep those with fewer than `n` better
ones. Forms are compared as keys of a hash table: the two zeros are different forms, and a row whose
form is not a number has none better, and stays unless none may.

Keeping the best rows leaves out no row that is better than one that stays. So a row has as many
better ones among those that stay as it had before, and keeping the best rows twice is a matter of
the smaller number.

Groups are marked one by one in a list of marks, and no mark is ever taken back. So it makes no
difference in which order the groups come.

## Main statements

* `Table.topPerForm_eq_marked`: groups in any order.
* `Table.RankedBy.topPerForm_topPerForm`: keeping the best rows twice.
* `Table.topPerForm_keeps_best`: which rows stay, and how many of each form.
-/

namespace CorpusQuery.Table

variable {t : Table} {form freq n : ℕ} {p : ℕ → Bool}

/-! ## Better rows -/

/-- Whether the row at one position is better than the row at another one of the same form: it has
the greater frequency or the only one, or it stands further up and the frequencies are equal or
missing. -/
def better (t : Table) (i j : ℕ) : Bool :=
  (t.cellUnder "form" (rowAt t.rows i)).sameKey (t.cellUnder "form" (rowAt t.rows j)) &&
    match (t.cellUnder "frequency" (rowAt t.rows i)).toNumber?,
      (t.cellUnder "frequency" (rowAt t.rows j)).toNumber? with
    | some x, some y => decide (y < x) || (x == y && decide (i < j))
    | some _, none => true
    | none, some _ => false
    | none, none => decide (i < j)

theorem rankKey_none : rankKey none = ⊥ := rfl

section Keys

variable {x y : Float} (hx : Rankable (some x)) (hy : Rankable (some y))

include hx hy

theorem rankKey_lt_rankKey_iff : rankKey (some x) < rankKey (some y) ↔ x < y := by
  obtain ⟨a, ha, hkey⟩ := rankKey_some hx
  obtain ⟨b, hb, hkey'⟩ := rankKey_some hy
  rw [hkey, hkey', WithBot.coe_lt_coe, Number.lt_iff, Number.compare_unpack, ha, hb,
    Option.bind_some, Option.map_some, Option.some_inj, compare_lt_iff_lt]

theorem rankKey_eq_rankKey_iff : rankKey (some x) = rankKey (some y) ↔ (x == y) = true := by
  obtain ⟨a, ha, hkey⟩ := rankKey_some hx
  obtain ⟨b, hb, hkey'⟩ := rankKey_some hy
  rw [hkey, hkey', WithBot.coe_inj, Number.beq_iff_value?, ha, hb]
  simp [eq_comm]

end Keys

/-! ## Better ones of the rows that stay -/

theorem better_keepRows {i j : ℕ} (hi : i < t.rows.length) (hj : j < t.rows.length)
    (hpi : p i = true) (hpj : p j = true) :
    (t.keepRows p).better (Nat.count (p ·) i) (Nat.count (p ·) j) = t.better i j := by
  rw [better, better, rowAt_keepRows hi hpi, rowAt_keepRows hj hpj]
  simp only [count_lt_count_iff hpi]
  rfl

/-- **Nothing better goes.** Where every row stays that is better than one that stays, a row has as
many better ones as before. -/
theorem countP_better_keepRows
    (hp : ∀ i j, t.better j i = true → p i = true → p j = true) {i : ℕ}
    (hi : i < t.rows.length) (hpi : p i = true) :
    (List.range (t.keepRows p).rows.length).countP ((t.keepRows p).better · (Nat.count (p ·) i))
      = (List.range t.rows.length).countP (t.better · i) := by
  rw [range_length_keepRows, List.countP_map, List.countP_filter]
  refine List.countP_congr fun j hj ↦ ?_
  have hlt : j < t.rows.length := List.mem_range.mp hj
  rw [Bool.and_eq_true, Function.comp_apply]
  constructor
  · rintro ⟨hbetter, hpj⟩
    rwa [better_keepRows hlt hi hpj hpi] at hbetter
  · intro hbetter
    have hpj : p j = true := hp i j hbetter hpi
    rw [better_keepRows hlt hi hpj hpi]
    exact ⟨hbetter, hpj⟩

/-! ## Ranked tables -/

/-- The columns of forms and frequencies stand at these positions, and frequencies are numbers or
missing. -/
structure RankedBy (t : Table) (form freq : ℕ) : Prop where
  form_eq : t.columnIndex? "form" = some form
  frequency_eq : t.columnIndex? "frequency" = some freq
  rankable : ∀ row ∈ t.rows, Rankable (frequencyOf freq row)

namespace RankedBy

variable (h : t.RankedBy form freq)

include h

theorem keepRows (p : ℕ → Bool) : (t.keepRows p).RankedBy form freq where
  form_eq := h.form_eq
  frequency_eq := h.frequency_eq
  rankable := by
    intro row hrow
    obtain ⟨i, hi, -⟩ := mem_rows_keepRows.mp hrow
    exact h.rankable row (List.mem_of_getElem? hi)

theorem better_iff {i j : ℕ} :
    t.better i j = true ↔ sameForm form (rowAt t.rows i) (rowAt t.rows j) = true ∧
      (rankKey (frequencyOf freq (rowAt t.rows j)) < rankKey (frequencyOf freq (rowAt t.rows i)) ∨
        rankKey (frequencyOf freq (rowAt t.rows j)) = rankKey (frequencyOf freq (rowAt t.rows i)) ∧
          i < j) := by
  have hi := rankable_rowAt h.rankable i
  have hj := rankable_rowAt h.rankable j
  rw [better, Bool.and_eq_true, cellUnder_eq_cellAt h.form_eq, cellUnder_eq_cellAt h.form_eq,
    cellUnder_eq_cellAt h.frequency_eq, cellUnder_eq_cellAt h.frequency_eq, ← sameForm,
    ← frequencyOf, ← frequencyOf]
  refine and_congr_right fun _ ↦ ?_
  generalize frequencyOf freq (rowAt t.rows i) = a at hi ⊢
  generalize frequencyOf freq (rowAt t.rows j) = b at hj ⊢
  rcases a with _ | x <;> rcases b with _ | y
  · simp
  · obtain ⟨k, -, hkey⟩ := rankKey_some hj
    simp [hkey, rankKey_none]
  · obtain ⟨k, -, hkey⟩ := rankKey_some hi
    simp [hkey, rankKey_none]
  · rw [rankKey_lt_rankKey_iff hj hi, eq_comm (a := rankKey (some y)), rankKey_eq_rankKey_iff hi hj]
    simp

theorem better_trans {i j k : ℕ} (hij : t.better i j = true) (hjk : t.better j k = true) :
    t.better i k = true := by
  rw [h.better_iff] at hij hjk ⊢
  obtain ⟨hform, hkey⟩ := hij
  obtain ⟨hform', hkey'⟩ := hjk
  refine ⟨Value.sameKey_trans hform hform', ?_⟩
  rcases hkey with hlt | ⟨heq, hlt⟩ <;> rcases hkey' with hlt' | ⟨heq', hlt'⟩
  · exact .inl (hlt'.trans hlt)
  · exact .inl (heq' ▸ hlt)
  · exact .inl (heq ▸ hlt')
  · exact .inr ⟨heq'.trans heq, hlt.trans hlt'⟩

theorem place_eq_countP_better {i : ℕ} (hi : i < t.rows.length) :
    place form freq t.rows i = (List.range t.rows.length).countP (t.better · i) := by
  rw [← countP_range_eq_place hi]
  refine List.countP_congr fun j _ ↦ ?_
  rw [h.better_iff, Bool.and_eq_true, sameForm, Value.sameKey_comm, ← sameForm]
  refine and_congr_right fun _ ↦ ?_
  rw [comesBefore, Bool.and_eq_true, Bool.or_eq_true, Bool.not_eq_true', decide_eq_true_iff,
    decide_eq_false_iff_not, decide_eq_true_iff, not_le]
  constructor
  · rintro ⟨hle, hlt | hlt⟩
    · exact .inl hlt
    · exact hle.lt_or_eq.imp_right fun heq ↦ ⟨heq, hlt⟩
  · rintro (hlt | ⟨heq, hlt⟩)
    · exact ⟨hlt.le, .inl hlt⟩
    · exact ⟨heq.le, .inr hlt⟩

/-- A row stays if fewer than `n` rows are better. -/
theorem topPerForm_eq_keepRows (n : ℕ) :
    t.topPerForm n = t.keepRows fun i ↦
      decide ((List.range t.rows.length).countP (t.better · i) < n) := by
  rw [topPerForm_eq h.form_eq h.frequency_eq h.rankable]
  refine keepRows_congr t fun i hi ↦ ?_
  rw [h.place_eq_countP_better hi]

theorem topPerForm_topPerForm (n m : ℕ) :
    (t.topPerForm n).topPerForm m = t.topPerForm (min n m) := by
  have hclosed (i j : ℕ) (hji : t.better j i = true)
      (hi : decide ((List.range t.rows.length).countP (t.better · i) < n) = true) :
      decide ((List.range t.rows.length).countP (t.better · j) < n) = true := by
    rw [decide_eq_true_iff] at hi ⊢
    exact (List.countP_mono_left fun k _ hkj ↦ h.better_trans hkj hji).trans_lt hi
  rw [h.topPerForm_eq_keepRows n, (h.keepRows _).topPerForm_eq_keepRows m, keepRows_keepRows,
    h.topPerForm_eq_keepRows (min n m)]
  refine keepRows_congr t fun i hi ↦ ?_
  by_cases hkept : (List.range t.rows.length).countP (t.better · i) < n
  · rw [countP_better_keepRows hclosed hi (decide_eq_true hkept), decide_eq_true hkept,
      Bool.true_and]
    simp [hkept]
  · simp [hkept]

end RankedBy

/-! ## Groups -/

theorem countP_mates_kept (frequency : ℕ → Option Float) (rows : List (List Value)) (i : ℕ) :
    (mates (fun j ↦ cellAt form (rowAt rows j)) rows.length i).countP
        ((formGroups form rows).flatMap fun g ↦ bestOf n frequency g.positions).contains
      = min n (mates (fun j ↦ cellAt form (rowAt rows j)) rows.length i).length := by
  set group := mates (fun j ↦ cellAt form (rowAt rows j)) rows.length i
  have hnodup : group.Nodup := (pairwise_mates i).imp Nat.ne_of_lt
  have hsorted := List.mergeSort_perm group fun a b ↦ rank (frequency a) (frequency b) != .gt
  have hbest : (bestOf n frequency group).Nodup :=
    (hsorted.nodup_iff.mpr hnodup).sublist (List.take_sublist _ _)
  have hkept : (group.filter
      ((formGroups form rows).flatMap fun g ↦ bestOf n frequency g.positions).contains).Perm
      (bestOf n frequency group) := by
    rw [List.perm_ext_iff_of_nodup (hnodup.filter _) hbest]
    intro j
    rw [List.mem_filter, List.contains_iff_mem]
    constructor
    · rintro ⟨hj, hmem⟩
      rwa [mem_flatMap_bestOf frequency n (mem_mates.mp hj).1, ← mates_eq_of_mem hj] at hmem
    · intro hmem
      have hj : j ∈ group := hsorted.subset (List.mem_of_mem_take hmem)
      rw [mem_flatMap_bestOf frequency n (mem_mates.mp hj).1, ← mates_eq_of_mem hj]
      exact ⟨hj, hmem⟩
  rw [List.countP_eq_length_filter, hkept.length_eq, bestOf, List.length_take, hsorted.length_eq]

/-- **Rows of a form.** As many stay as there are, and at most `n`. -/
theorem countP_topPerForm (hform : t.columnIndex? "form" = some form)
    (hfreq : t.columnIndex? "frequency" = some freq) (n : ℕ) (v : Value) :
    (t.topPerForm n).rows.countP (fun row ↦ v.sameKey (cellAt form row))
      = min n (t.rows.countP fun row ↦ v.sameKey (cellAt form row)) := by
  rw [topPerForm_eq_bestOf hform hfreq, countP_keepRows, countP_eq_countP_range _ t.rows]
  by_cases hv : ∃ i < t.rows.length, v.sameKey (cellAt form (rowAt t.rows i)) = true
  · obtain ⟨i, hi, hvi⟩ := hv
    have hmates :
        (List.range t.rows.length).filter (fun j ↦ v.sameKey (cellAt form (rowAt t.rows j)))
          = mates (fun j ↦ cellAt form (rowAt t.rows j)) t.rows.length i := by
      refine List.filter_congr fun j _ ↦ ?_
      rw [Bool.eq_iff_iff, Bool.or_eq_true, beq_iff_eq]
      constructor
      · exact fun hvj ↦ .inr (Value.sameKey_trans (Value.sameKey_comm .. ▸ hvi) hvj)
      · rintro (rfl | hij)
        · exact hvi
        · exact Value.sameKey_trans hvi hij
    -- Counting those of the form among what stays is counting what stays among those of the form.
    rw [List.countP_filter, List.countP_congr fun j _ ↦ by rw [Bool.and_comm], ← List.countP_filter,
      hmates, countP_mates_kept, ← hmates, List.countP_eq_length_filter]
  · have hnone (l : List ℕ) (hl : l ⊆ List.range t.rows.length) :
        l.countP (fun j ↦ v.sameKey (cellAt form (rowAt t.rows j))) = 0 := by
      rw [List.countP_eq_zero]
      exact fun j hj hvj ↦ hv ⟨j, List.mem_range.mp (hl hj), hvj⟩
    rw [hnone _ (List.filter_subset_self _), hnone _ (List.Subset.refl _), Nat.min_zero]

/-! ## Marks -/

/-- Marks the best positions of each group. -/
def markBest (n : ℕ) (frequency : ℕ → Option Float) (groups : List FormGroup) (marks : List Bool) :
    List Bool :=
  groups.foldl (fun marks g ↦
    (bestOf n frequency g.positions).foldl (fun marks i ↦ marks.set i true) marks) marks

/-- **Groups in any order.** The rows whose positions are marked are the same ones in whichever
order the groups come. -/
theorem topPerForm_eq_marked (hform : t.columnIndex? "form" = some form)
    (hfreq : t.columnIndex? "frequency" = some freq) (n : ℕ) {groups : List FormGroup}
    (hgroups : groups.Perm (formGroups form t.rows)) :
    t.topPerForm n = t.keepRows fun i ↦
      (markBest n (fun j ↦ frequencyOf freq (rowAt t.rows j)) groups
        (List.replicate t.rows.length false))[i]?.getD false := by
  rw [topPerForm_eq_bestOf hform hfreq]
  refine keepRows_congr t fun i hi ↦ ?_
  have hmarks : i < (List.replicate t.rows.length false).length := by rwa [List.length_replicate]
  rw [markBest, ← List.foldl_flatMap, getElem?_foldl_set hmarks, List.getElem?_replicate_of_lt hi,
    Option.getD_some, Bool.false_or]
  exact ((hgroups.flatMap_right _).contains_eq).symm

/-! ## The rows that stay -/

/-- **The best rows of each form.** Let a table have forms, and frequencies that are numbers or
missing. Then a row stays, at its place and with its cells, if fewer than `n` rows of its form are
better. Of each form as many rows stay as there are, and at most `n`. They are the ones that are
marked when the groups come in any order. To keep the best `m` of them is to keep the best of the
table for the smaller number. -/
theorem topPerForm_keeps_best (hform : "form" ∈ t.columns) (hfrequency : "frequency" ∈ t.columns)
    (hnumbers : ∀ row ∈ t.rows, ∀ x, (t.cellUnder "frequency" row).toNumber? = some x →
      x.isNaN = false) (n : ℕ) :
    let left := t.topPerForm n
    left = t.keepRows (fun i ↦
        decide ((List.range t.rows.length).countP (t.better · i) < n)) ∧
      (∀ form : Value, left.rows.countP (fun row ↦ form.sameKey (t.cellUnder "form" row))
        = min n (t.rows.countP fun row ↦ form.sameKey (t.cellUnder "form" row))) ∧
      (∀ groups, groups.Perm (formGroups (t.columns.idxOf "form") t.rows) →
        left = t.keepRows fun i ↦
          (markBest n (fun j ↦ (t.cellUnder "frequency" (rowAt t.rows j)).toNumber?) groups
            (List.replicate t.rows.length false))[i]?.getD false) ∧
      ∀ m, left.topPerForm m = t.topPerForm (min n m) := by
  intro left
  obtain ⟨form, hf⟩ := exists_columnIndex?_of_mem hform
  obtain ⟨freq, hq⟩ := exists_columnIndex?_of_mem hfrequency
  have hidx : t.columns.idxOf "form" = form := by
    rw [List.idxOf_eq_getD_idxOf?, ← columnIndex?, hf, Option.getD_some]
  simp only [cellUnder_eq_cellAt hf, cellUnder_eq_cellAt hq, hidx] at hnumbers ⊢
  have h : t.RankedBy form freq := ⟨hf, hq, hnumbers⟩
  exact ⟨h.topPerForm_eq_keepRows n, countP_topPerForm hf hq n,
    fun groups hgroups ↦ topPerForm_eq_marked hf hq n hgroups, h.topPerForm_topPerForm n⟩

/-- Two rows of one form are equally frequent, and a row of another one has no frequency. -/
def tiedUses : Table where
  columns := ["pos", "form", "frequency"]
  rows := [[.text "AUX", .text "on", .int 10], [.text "NOUN", .text "auto", .null],
    [.text "VERB", .text "on", .int 90], [.text "NOUN", .text "on", .int 10]]

theorem topPerForm_keeps_best_tiedUses :
    "form" ∈ tiedUses.columns ∧ "frequency" ∈ tiedUses.columns ∧
      tiedUses.topPerForm 2 = { tiedUses with rows := tiedUses.rows.take 3 } ∧
      (tiedUses.topPerForm 2).rows.countP
        (fun row ↦ (Value.text "on").sameKey (tiedUses.cellUnder "form" row)) = 2 ∧
      (tiedUses.topPerForm 2).topPerForm 1 = tiedUses.topPerForm 1 := by
  have hform : "form" ∈ tiedUses.columns := by decide
  have hfrequency : "frequency" ∈ tiedUses.columns := by decide
  have hnumbers : ∀ row ∈ tiedUses.rows, ∀ x,
      (tiedUses.cellUnder "frequency" row).toNumber? = some x → x.isNaN = false := by
    simp only [tiedUses, List.forall_mem_cons, List.not_mem_nil, IsEmpty.forall_iff, implies_true,
      and_true]
    refine ⟨?_, ?_, ?_, ?_⟩ <;> intro x hx <;> cases hx <;> decide
  obtain ⟨hleft, hcount, -, htwice⟩ := topPerForm_keeps_best hform hfrequency hnumbers 2
  refine ⟨hform, hfrequency, hleft.trans (by decide), ?_, htwice 1⟩
  exact (hcount (.text "on")).trans (by decide)

-- The two zeros are two forms.
example :
    let t : Table := ⟨["form", "frequency"], [[.real 0, .int 5], [.real (-0), .int 9]]⟩
    t.topPerForm 1 = t := by decide +kernel

end CorpusQuery.Table

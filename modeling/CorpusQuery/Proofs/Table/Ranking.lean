import CorpusQuery.Proofs.Lists

/-!
# Ranking with missing keys

Two kinds of corpora order their rows by a key that some rows may lack. Between keys that are there
they agree; where the missing ones go is a choice, and each has made its own. If no two rows have
the same key, as far as they have one, and at most one row lacks it, then this choice is all that an
order can depend on: there is one ranking of the rows with keys, and the row without one is put at
one of its ends. In which order the rows came does not matter, nor which sorting method is used.

## Main statements

* `Ranking.filter_mergeSort`: such a sort is stable.
* `Ranking.mergeSort_eq`: every such sort is the ranking with what is missing at one end.
-/

namespace CorpusQuery.Ranking

section Keys

variable {κ : Type} [LinearOrder κ]

/-- Whether a key may come before another one: keys that are there go up or down, and missing ones
are first or last. -/
def keyLE (ascending missingLast : Bool) : Option κ → Option κ → Bool
  | some x, some y => if ascending then decide (x ≤ y) else decide (y ≤ x)
  | some _, none => missingLast
  | none, some _ => !missingLast
  | none, none => true

theorem bne_gt_compare (ascending missingLast : Bool) (x y : κ) :
    ((if ascending then compare x y else (compare x y).swap) != .gt)
      = keyLE ascending missingLast (some x) (some y) := by
  have hcompare (x y : κ) : (compare x y != .gt) = decide (x ≤ y) := by
    rw [Bool.eq_iff_iff, bne_iff_ne, decide_eq_true_iff, compare_le_iff_le]
  cases ascending with
  | true => exact hcompare x y
  | false =>
    rw [if_neg Bool.false_ne_true, ← Std.OrientedOrd.eq_swap]
    exact hcompare y x

/-- Whether a key that is there comes before another one and is not the same. -/
def Precedes (ascending : Bool) (x y : κ) : Prop := if ascending then x < y else y < x

variable {ascending missingLast : Bool}

theorem keyLE_trans (a b c : Option κ) (hab : keyLE ascending missingLast a b = true)
    (hbc : keyLE ascending missingLast b c = true) : keyLE ascending missingLast a c = true := by
  rcases a with _ | x <;> rcases b with _ | y <;> rcases c with _ | z <;> grind [keyLE]

theorem keyLE_total (a b : Option κ) :
    (keyLE ascending missingLast a b || keyLE ascending missingLast b a) = true := by
  rcases a with _ | x <;> rcases b with _ | y <;> grind [keyLE]

theorem keyLE_antisymm {a b : Option κ} (hab : keyLE ascending missingLast a b = true)
    (hba : keyLE ascending missingLast b a = true) : a = b := by
  rcases a with _ | x <;> rcases b with _ | y <;> grind [keyLE]

end Keys

section Lists

variable {α β κ : Type}

/-- The elements without a key. -/
def missing (key : α → Option κ) (xs : List α) : List α := xs.filter fun a ↦ (key a).isNone

theorem eq_none_of_mem_missing {key : α → Option κ} {xs : List α} {a : α}
    (h : a ∈ missing key xs) : key a = none :=
  Option.isNone_iff_eq_none.mp (List.mem_filter.mp h).2

theorem length_missing_le_one {key : α → Option κ} {xs : List α} (hkeys : (xs.map key).Nodup) :
    (missing key xs).length ≤ 1 := by
  have hnodup : ((missing key xs).map key).Nodup := hkeys.sublist (List.filter_sublist.map key)
  have hnone : (missing key xs).map key = List.replicate (missing key xs).length none := by
    rw [List.eq_replicate_iff, List.length_map]
    refine ⟨rfl, fun k hk ↦ ?_⟩
    obtain ⟨a, ha, rfl⟩ := List.mem_map.mp hk
    exact eq_none_of_mem_missing ha
  rw [hnone] at hnodup
  exact List.nodup_replicate.mp hnodup

variable [LinearOrder κ]

/-- The elements with a key, in their order. -/
def ranked (ascending : Bool) (key : α → Option κ) (xs : List α) : List α :=
  (xs.filter fun a ↦ (key a).isSome).mergeSort fun a b ↦ keyLE ascending true (key a) (key b)

/-- All elements, those without a key at one end. -/
def arranged (ascending missingLast : Bool) (key : α → Option κ) (xs : List α) : List α :=
  if missingLast then ranked ascending key xs ++ missing key xs
  else missing key xs ++ ranked ascending key xs

variable {key : α → Option κ} {xs ys : List α} {ascending missingLast : Bool} {a : α}

theorem exists_of_mem_ranked (h : a ∈ ranked ascending key xs) : ∃ x, key a = some x :=
  Option.isSome_iff_exists.mp (List.mem_filter.mp (List.mem_mergeSort.mp h)).2

theorem perm_ranked_missing : (ranked ascending key xs ++ missing key xs).Perm xs := by
  have hmissing : missing key xs = xs.filter fun a ↦ !(key a).isSome := by
    rw [missing]
    refine List.filter_congr fun a _ ↦ ?_
    rw [Option.not_isSome]
  rw [hmissing]
  exact ((List.mergeSort_perm _ _).append_right _).trans (List.filter_append_perm _ xs)

theorem perm_arranged : (arranged ascending missingLast key xs).Perm xs := by
  rw [arranged]
  split
  · exact perm_ranked_missing
  · exact List.perm_append_comm.trans perm_ranked_missing

theorem pairwise_mergeSort (ascending missingLast : Bool) (key : α → Option κ) (xs : List α) :
    (xs.mergeSort fun a b ↦ keyLE ascending missingLast (key a) (key b)).Pairwise fun a b ↦
      keyLE ascending missingLast (key a) (key b) = true :=
  List.pairwise_mergeSort (fun a b c ↦ keyLE_trans (key a) (key b) (key c))
    (fun a b ↦ keyLE_total (key a) (key b)) xs

/-- **Stability.** Elements that share their key, or their lack of one, stay in their order. -/
theorem filter_mergeSort {p : α → Bool} (hp : ∀ a b, p a = true → p b = true → key a = key b)
    (ascending missingLast : Bool) (xs : List α) :
    (xs.mergeSort fun a b ↦ keyLE ascending missingLast (key a) (key b)).filter p
      = xs.filter p := by
  have htied : (xs.filter p).Pairwise fun a b ↦
      keyLE ascending missingLast (key a) (key b) = true := by
    refine List.pairwise_of_forall_mem_list fun a ha b hb ↦ ?_
    rw [hp a b (List.mem_filter.mp ha).2 (List.mem_filter.mp hb).2]
    simpa using keyLE_total (key b) (key b)
  have hsublist := (List.sublist_mergeSort (fun a b c ↦ keyLE_trans (key a) (key b) (key c))
    (fun a b ↦ keyLE_total (key a) (key b)) htied List.filter_sublist).filter p
  rw [List.filter_filter] at hsublist
  simp only [Bool.and_self] at hsublist
  exact (hsublist.eq_of_length ((List.mergeSort_perm xs _).symm.filter _).length_eq).symm

/-- **The ranking.** The keys follow each other strictly. -/
theorem pairwise_ranked (hkeys : (xs.map key).Nodup) :
    (ranked ascending key xs).Pairwise fun a b ↦
      ∃ x y, key a = some x ∧ key b = some y ∧ Precedes ascending x y := by
  have hsorted : (ranked ascending key xs).Pairwise fun a b ↦
      keyLE ascending true (key a) (key b) = true := pairwise_mergeSort _ _ _ _
  have hdistinct : (ranked ascending key xs).Pairwise fun a b ↦ key a ≠ key b := by
    have hall : ((ranked ascending key xs ++ missing key xs).map key).Nodup :=
      (perm_ranked_missing.map key).nodup_iff.mpr hkeys
    rw [List.map_append] at hall
    exact List.pairwise_map.mp (List.nodup_append.mp hall).1
  refine (hsorted.and hdistinct).imp_of_mem fun {a b} ha hb h ↦ ?_
  obtain ⟨x, hx⟩ := exists_of_mem_ranked ha
  obtain ⟨y, hy⟩ := exists_of_mem_ranked hb
  obtain ⟨hle, hne⟩ := h
  rw [hx, hy] at hle hne
  have hxy : x ≠ y := fun h ↦ hne (congrArg some h)
  refine ⟨x, y, hx, hy, ?_⟩
  cases ascending with
  | true => exact lt_of_le_of_ne (of_decide_eq_true hle) hxy
  | false => exact lt_of_le_of_ne (of_decide_eq_true hle) hxy.symm

theorem pairwise_arranged :
    (arranged ascending missingLast key xs).Pairwise fun a b ↦
      keyLE ascending missingLast (key a) (key b) = true := by
  have hranked : (ranked ascending key xs).Pairwise fun a b ↦
      keyLE ascending missingLast (key a) (key b) = true := by
    have hsorted : (ranked ascending key xs).Pairwise fun a b ↦
        keyLE ascending true (key a) (key b) = true := pairwise_mergeSort _ _ _ _
    refine hsorted.imp_of_mem fun {a b} ha hb h ↦ ?_
    obtain ⟨x, hx⟩ := exists_of_mem_ranked ha
    obtain ⟨y, hy⟩ := exists_of_mem_ranked hb
    rw [hx, hy] at h ⊢
    exact h
  have hmissing : (missing key xs).Pairwise fun a b ↦
      keyLE ascending missingLast (key a) (key b) = true := by
    refine List.pairwise_of_forall_mem_list fun a ha b hb ↦ ?_
    rw [eq_none_of_mem_missing ha, eq_none_of_mem_missing hb]
    rfl
  rw [arranged]
  cases missingLast with
  | true =>
    rw [if_pos rfl, List.pairwise_append]
    refine ⟨hranked, hmissing, fun a ha b hb ↦ ?_⟩
    obtain ⟨x, hx⟩ := exists_of_mem_ranked ha
    rw [hx, eq_none_of_mem_missing hb]
    rfl
  | false =>
    rw [if_neg Bool.false_ne_true, List.pairwise_append]
    refine ⟨hmissing, hranked, fun a ha b hb ↦ ?_⟩
    obtain ⟨x, hx⟩ := exists_of_mem_ranked hb
    rw [hx, eq_none_of_mem_missing ha]
    rfl

/-- Images are arranged by the keys that their originals have through them. -/
theorem arranged_map (f : β → α) (zs : List β) :
    arranged ascending missingLast key (zs.map f)
      = (arranged ascending missingLast (key ∘ f) zs).map f := by
  have hmissing : missing key (zs.map f) = (missing (key ∘ f) zs).map f := List.filter_map
  have hranked : ranked ascending key (zs.map f) = (ranked ascending (key ∘ f) zs).map f := by
    rw [ranked, ranked, List.filter_map]
    exact (List.map_mergeSort (f := f) fun _ _ _ _ ↦ rfl).symm
  rw [arranged, arranged, hmissing, hranked]
  cases missingLast with
  | true => exact List.map_append.symm
  | false => exact List.map_append.symm

/-- Sorting by distinct keys comes to the arranged elements, in whichever order they came. -/
theorem mergeSort_eq_arranged (hperm : ys.Perm xs) (hkeys : (xs.map key).Nodup) :
    (ys.mergeSort fun a b ↦ keyLE ascending missingLast (key a) (key b))
      = arranged ascending missingLast key xs := by
  refine List.Perm.eq_of_pairwise (fun a b ha hb hab hba ↦ ?_)
    (pairwise_mergeSort _ _ _ _) pairwise_arranged
    (((List.mergeSort_perm _ _).trans hperm).trans perm_arranged.symm)
  have hmem : a ∈ xs := hperm.subset (List.mem_mergeSort.mp ha)
  exact List.inj_on_of_nodup_map hkeys hmem (perm_arranged.subset hb) (keyLE_antisymm hab hba)

/-- **Sorting.** Images of elements that are sorted by the keys of the elements come to the images
of the arranged elements. -/
theorem mergeSort_eq {f : α → β} {le : β → β → Bool} {zs : List β} (hperm : zs.Perm (xs.map f))
    (hkeys : (xs.map key).Nodup)
    (hle : ∀ a ∈ xs, ∀ b ∈ xs, le (f a) (f b) = keyLE ascending missingLast (key a) (key b)) :
    zs.mergeSort le = (arranged ascending missingLast key xs).map f := by
  obtain ⟨ys, hys, rfl⟩ := exists_perm_of_map hperm
  rw [← mergeSort_eq_arranged hys hkeys]
  refine (List.map_mergeSort fun a ha b hb ↦ ?_).symm
  exact (hle a (hys.subset ha) b (hys.subset hb)).symm

end Lists

end CorpusQuery.Ranking

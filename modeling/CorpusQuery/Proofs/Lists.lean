import Mathlib.Data.Fintype.EquivFin
import Mathlib.Data.List.FinRange
import Mathlib.Data.List.Forall2
import Mathlib.Data.List.Perm.Basic
import Mathlib.Data.List.Sort
import Mathlib.Data.Nat.Count

/-!
# Facts about lists

What is needed here of lists in general: of pieces that a list is cut into, of members read at
several positions, of lists in another order, and of lists that are put together.
-/

namespace CorpusQuery

variable {α β γ : Type}

/-! ## Pieces -/

theorem eq_nil_or_eq_cons_of_length_eq {xs : List α} {ys : List β} (h : xs.length = ys.length) :
    xs = [] ∧ ys = [] ∨
      ∃ x xs' y ys', xs = x :: xs' ∧ ys = y :: ys' ∧ xs'.length = ys'.length := by
  cases xs with
  | nil => exact .inl ⟨rfl, List.length_eq_zero_iff.mp h.symm⟩
  | cons x xs =>
    cases ys with
    | nil => cases h
    | cons y ys => exact .inr ⟨x, xs, y, ys, rfl, rfl, Nat.succ.inj h⟩

theorem exists_stretch (p : α → Bool) (xs : List α) : ∃ stretch rest, xs = stretch ++ rest ∧
    (∀ x ∈ stretch, p x = true) ∧ ∀ x ∈ rest.head?, p x = false := by
  refine ⟨xs.takeWhile p, xs.dropWhile p, List.takeWhile_append_dropWhile.symm,
    List.all_eq_true.mp List.all_takeWhile, fun x hx ↦ ?_⟩
  have hnot := List.head?_dropWhile_not p xs
  rw [Option.mem_def.mp hx] at hnot
  exact hnot

theorem suffix_drop_iff {rest xs : List α} {i : ℕ} :
    rest <:+ xs.drop i ↔ rest = xs.drop i ∨ rest <:+ xs.drop (i + 1) := by
  rw [← List.tail_drop]
  cases xs.drop i with
  | nil => simp
  | cons y ys => exact List.suffix_cons_iff

theorem getLast?_of_suffix {tail xs : List α} {x : α} (h : tail <:+ xs)
    (hx : tail.getLast? = some x) : xs.getLast? = some x := by
  obtain ⟨start, rfl⟩ := h
  rw [List.getLast?_append, hx, Option.some_or]

theorem prefix_append_cons_iff {x : α} {part : List α} (hx : x ∉ part) (front back : List α) :
    part <+: front ++ x :: back ↔ part <+: front := by
  induction front generalizing part with
  | nil =>
    cases part with
    | nil => simp
    | cons y part =>
      have hne : y ≠ x := fun heq ↦ hx (heq ▸ List.mem_cons_self)
      simp [hne]
  | cons z front ih =>
    cases part with
    | nil => simp
    | cons y part =>
      rw [List.cons_append, List.cons_prefix_cons, List.cons_prefix_cons,
        ih (mt (List.mem_cons_of_mem y) hx)]

theorem infix_append_cons_iff {x : α} {part front back : List α} (hx : x ∉ part) :
    part <:+: front ++ x :: back ↔ part <:+: front ∨ part <:+: back := by
  induction front with
  | nil =>
    rw [List.nil_append, List.infix_cons_iff, List.infix_nil, ← List.prefix_nil]
    exact or_congr_left (prefix_append_cons_iff hx [] _)
  | cons y front ih =>
    rw [List.cons_append, List.infix_cons_iff, ih, List.infix_cons_iff, ← List.cons_append,
      prefix_append_cons_iff hx, or_assoc]

/-! ## Pieces between separators -/

/-- What has no separator can be told from what it is joined to. -/
theorem append_cons_inj [DecidableEq α] {sep : α} {xs ys xs' ys' : List α} (hxs : sep ∉ xs)
    (hxs' : sep ∉ xs') (h : xs ++ sep :: ys = xs' ++ sep :: ys') : xs = xs' ∧ ys = ys' := by
  have htake {xs ys : List α} (hxs : sep ∉ xs) :
      (xs ++ sep :: ys).takeWhile (· ≠ sep) = xs := by
    rw [List.takeWhile_append_of_pos fun x hx ↦ by simpa using ne_of_mem_of_not_mem hx hxs,
      List.takeWhile_cons_of_neg (by simp), List.append_nil]
  obtain rfl : xs = xs' := by
    have := congrArg (List.takeWhile (· ≠ sep)) h
    rwa [htake hxs, htake hxs'] at this
  exact ⟨rfl, (List.cons.inj (List.append_cancel_left h)).2⟩

theorem flatten_splitOnP (p : α → Bool) (xs : List α) :
    (xs.splitOnP p).flatten = xs.filter (!p ·) := by
  induction xs with
  | nil => rfl
  | cons x xs ih =>
    rw [List.splitOnP_cons_eq_if_modifyHead, List.filter_cons, ← ih]
    obtain ⟨piece, pieces, hsplit⟩ := List.exists_cons_of_ne_nil (List.splitOnP_ne_nil p xs)
    rw [hsplit]
    by_cases hx : p x = true
    · rw [if_pos hx, hx]
      rfl
    · rw [if_neg hx, Bool.eq_false_iff.mpr hx]
      rfl

theorem length_splitOnP (p : α → Bool) (xs : List α) :
    (xs.splitOnP p).length = xs.countP p + 1 := by
  induction xs with
  | nil => rfl
  | cons x xs ih =>
    rw [List.splitOnP_cons_eq_if_modifyHead, List.countP_cons]
    split
    · rw [List.length_cons, ih]
    · rw [List.length_modifyHead, ih]

theorem splitOnP_map (f : α → β) (p : β → Bool) (xs : List α) :
    (xs.map f).splitOnP p = (xs.splitOnP (p ∘ f)).map (List.map f) := by
  induction xs with
  | nil => rfl
  | cons x xs ih =>
    rw [List.map_cons, List.splitOnP_cons_eq_if_modifyHead, List.splitOnP_cons_eq_if_modifyHead, ih]
    obtain ⟨piece, pieces, hsplit⟩ := List.exists_cons_of_ne_nil (List.splitOnP_ne_nil (p ∘ f) xs)
    rw [hsplit, Function.comp_apply]
    split
    · rfl
    · rfl

/-! ## Positions -/

theorem drop_eq_cons {xs : Array α} {i : ℕ} {x : α} (h : xs[i]? = some x) :
    xs.toList.drop i = x :: xs.toList.drop (i + 1) := by
  obtain ⟨hi, hx⟩ := Array.getElem?_eq_some_iff.mp h
  rw [List.drop_eq_getElem_cons (by simpa using hi)]
  simp [hx]

theorem find?_range [BEq α] [LawfulBEq α] (xs : List α) (x : α) :
    (List.range xs.length).find? (xs[·]? == some x) = xs.idxOf? x := by
  cases h : xs.idxOf? x with
  | none =>
    rw [List.find?_eq_none]
    intro i _ hi
    exact List.idxOf?_eq_none_iff.mp h (List.mem_of_getElem? (beq_iff_eq.mp hi))
  | some i =>
    obtain ⟨hi, hx, hfirst⟩ := List.idxOf?_eq_some_iff.mp h
    rw [List.find?_range_eq_some]
    refine ⟨?_, List.mem_range.mpr hi, fun j hj ↦ ?_⟩
    · rw [List.getElem?_eq_getElem hi, hx]
      exact beq_self_eq_true _
    · simp [List.getElem?_eq_getElem (Nat.lt_trans hj hi), hfirst j hj]

theorem idxOf?_map_bind [BEq β] (f : α → β) (g : α → γ) (b : β) (xs : List α) :
    ((xs.map f).idxOf? b).bind ((xs.map g)[·]?) = (xs.find? (f · == b)).map g := by
  induction xs with
  | nil => rfl
  | cons x xs ih =>
    rw [List.map_cons, List.map_cons, List.idxOf?_cons, List.find?_cons]
    by_cases hx : (f x == b) = true
    · rw [if_pos hx, hx]
      rfl
    · have hother : (f x == b) = false := Bool.eq_false_iff.mpr hx
      rw [if_neg hx, hother, ← ih]
      cases (xs.map f).idxOf? b <;> rfl

theorem filterMap_range_getElem? (xs : List α) :
    (List.range xs.length).filterMap (xs[·]?) = xs := by
  induction xs with
  | nil => rfl
  | cons x xs ih =>
    rw [List.length_cons, List.range_succ_eq_map, List.filterMap_cons_some List.getElem?_cons_zero,
      List.filterMap_map]
    exact congrArg (x :: ·) ih

theorem length_filterMap_getElem? {xs : List α} {ys : List β} (h : xs.length = ys.length)
    (positions : List ℕ) :
    (positions.filterMap (xs[·]?)).length = (positions.filterMap (ys[·]?)).length := by
  have hsome (i : ℕ) : xs[i]?.isSome = ys[i]?.isSome := by
    rw [Bool.eq_iff_iff, isSome_getElem?, isSome_getElem?, h]
  rw [List.length_filterMap_eq_countP, List.length_filterMap_eq_countP]
  simp only [hsome]

theorem getElem?_filterMap_getElem? {xs : List α} {positions : List ℕ}
    (h : ∀ i ∈ positions, i < xs.length) (k : ℕ) :
    (positions.filterMap (xs[·]?))[k]? = positions[k]?.bind (xs[·]?) := by
  induction positions generalizing k with
  | nil => rfl
  | cons i positions ih =>
    obtain ⟨hi, hpositions⟩ := List.forall_mem_cons.mp h
    rw [List.filterMap_cons_some (List.getElem?_eq_getElem hi)]
    rcases k with _ | k
    · rw [List.getElem?_cons_zero, List.getElem?_cons_zero, Option.bind_some,
        List.getElem?_eq_getElem hi]
    · rw [List.getElem?_cons_succ, List.getElem?_cons_succ, ih hpositions]

/-- A mark stays, whatever is marked after it. -/
theorem getElem?_foldl_set {marks : List Bool} {i : ℕ} (hi : i < marks.length)
    (positions : List ℕ) :
    (positions.foldl (fun marks j ↦ marks.set j true) marks)[i]?.getD false
      = (marks[i]?.getD false || positions.contains i) := by
  induction positions generalizing marks with
  | nil => simp
  | cons j positions ih =>
    have hlt : i < (marks.set j true).length := by rwa [List.length_set]
    rw [List.foldl_cons, ih hlt, List.contains_cons]
    by_cases hij : j = i
    · subst hij
      rw [List.getElem?_set_self hi]
      simp
    · rw [List.getElem?_set_ne hij, beq_eq_false_iff_ne.mpr (Ne.symm hij), Bool.false_or]

/-- Kept positions are numbered by how many of them stand in front. -/
theorem zipIdx_filter_range (p : ℕ → Bool) (n : ℕ) :
    ((List.range n).filter p).zipIdx
      = ((List.range n).filter p).map fun i ↦ (i, Nat.count (p ·) i) := by
  induction n with
  | zero => rfl
  | succ n ih =>
    have hlength : ((List.range n).filter p).length = Nat.count (p ·) n := by
      rw [Nat.count, List.countP_eq_length_filter]
      simp only [Bool.decide_eq_true]
    rw [List.range_succ, List.filter_append, List.zipIdx_append, List.map_append, ih, hlength]
    congr 1
    by_cases hn : p n = true
    · rw [List.filter_cons_of_pos hn]
      simp
    · rw [List.filter_cons_of_neg hn]
      rfl

theorem count_lt_count_iff {p : ℕ → Bool} {i j : ℕ} (hi : p i = true) :
    Nat.count (p ·) i < Nat.count (p ·) j ↔ i < j :=
  ⟨Nat.lt_of_count_lt_count, Nat.count_strict_mono hi⟩

/-- An insertion behind the only element with a key. -/
theorem insertIdx_eq_flatMap [BEq α] [LawfulBEq α] (key : β → α) (new : β → β) {a : α}
    {xs : List β} (hnodup : (xs.map key).Nodup) {i : ℕ}
    (hindex : (xs.map key).idxOf? a = some i) (hi : i < xs.length) :
    xs.insertIdx (i + 1) (new xs[i])
      = xs.flatMap fun b ↦ if key b == a then [b, new b] else [b] := by
  induction xs generalizing i with
  | nil => exact absurd hi (Nat.not_lt_zero i)
  | cons x xs ih =>
    rw [List.map_cons, List.nodup_cons] at hnodup
    rw [List.map_cons, List.idxOf?_cons] at hindex
    rw [List.flatMap_cons, List.insertIdx_succ_cons]
    by_cases hx : (key x == a) = true
    · rw [if_pos hx] at hindex ⊢
      obtain rfl := Option.some.inj hindex
      have hother : ∀ b ∈ xs, (if key b == a then [b, new b] else [b]) = [b] := by
        intro b hb
        refine if_neg fun hba ↦ hnodup.1 ?_
        rw [beq_iff_eq.mp hx, ← beq_iff_eq.mp hba]
        exact List.mem_map_of_mem hb
      rw [List.flatMap_congr hother, List.flatMap_singleton']
      rfl
    · rw [if_neg hx] at hindex ⊢
      obtain ⟨j, hj, rfl⟩ := Option.map_eq_some_iff.mp hindex
      rw [List.getElem_cons_succ, ih hnodup.2 hj (Nat.lt_of_succ_lt_succ hi)]
      rfl

/-! ## Other orders -/

theorem exists_perm_eq_ofFn {positions : List ℕ} {n : ℕ} (h : positions.Perm (List.range n)) :
    ∃ place : Equiv.Perm (Fin n), positions = List.ofFn fun i ↦ (place i : ℕ) := by
  have hlength : positions.length = n := h.length_eq.trans List.length_range
  have hnodup : positions.Nodup := h.nodup_iff.mpr List.nodup_range
  have hlt (i : Fin n) : positions[i] < n :=
    List.mem_range.mp (h.mem_iff.mp (List.getElem_mem _))
  let place (i : Fin n) : Fin n := ⟨positions[i], hlt i⟩
  have hinjective : place.Injective := by
    intro i j hij
    exact Fin.ext (hnodup.getElem_inj_iff.mp (congrArg Fin.val hij))
  refine ⟨Equiv.ofBijective place (Finite.injective_iff_bijective.mp hinjective), ?_⟩
  apply List.ext_getElem
  · rw [hlength, List.length_ofFn]
  · intro i hi hi'
    rw [List.getElem_ofFn]
    rfl

theorem filterMap_ofFn_getElem? {n : ℕ} {xs : List α} {f : Fin n → α}
    (hf : ∀ i : Fin n, xs[(i : ℕ)]? = some (f i)) (place : Equiv.Perm (Fin n)) :
    (List.ofFn fun i ↦ (place i : ℕ)).filterMap (xs[·]?) = List.ofFn fun i ↦ f (place i) := by
  rw [List.ofFn_eq_map, List.ofFn_eq_map, List.filterMap_map]
  have hsome : (xs[·]?) ∘ (fun i ↦ (place i : ℕ)) = some ∘ fun i ↦ f (place i) := by
    funext i
    exact hf (place i)
  rw [hsome, List.filterMap_eq_map]

theorem exists_perm_of_map {f : α → β} {xs : List α} {zs : List β} (h : zs.Perm (xs.map f)) :
    ∃ ys : List α, ys.Perm xs ∧ zs = ys.map f := by
  have himages : List.Forall₂ (fun b a ↦ b = f a) (xs.map f) xs :=
    List.forall₂_map_left_iff.mpr (List.forall₂_same.mpr fun _ _ ↦ rfl)
  obtain ⟨ys, hzs, hys⟩ := List.perm_comp_forall₂ h himages
  have heq : List.Forall₂ (fun b b' ↦ b = b') zs (ys.map f) :=
    List.forall₂_map_right_iff.mpr hzs
  rw [List.forall₂_eq_eq_eq] at heq
  exact ⟨ys, hys, heq⟩

theorem perm_filter_append {xs : List α} {a b both : α → Bool}
    (h : ∀ x ∈ xs, both x = false ∧ a x = false ∧ b x = false ∨ both x = true ∧ b x = !a x) :
    (xs.filter both).Perm (xs.filter a ++ xs.filter b) := by
  have ha : xs.filter a = (xs.filter both).filter a := by
    rw [List.filter_filter]
    refine List.filter_congr fun x hx ↦ ?_
    rcases h x hx with ⟨hboth, hax, -⟩ | ⟨hboth, -⟩ <;> simp [*]
  have hb : xs.filter b = (xs.filter both).filter fun x ↦ !a x := by
    rw [List.filter_filter]
    refine List.filter_congr fun x hx ↦ ?_
    rcases h x hx with ⟨hboth, -, hbx⟩ | ⟨hboth, hbx⟩ <;> simp [*]
  rw [ha, hb]
  exact (List.filter_append_perm a _).symm

/-- In a list that is ordered by an asymmetric relation the place of a member is the number of
members that are related to it. -/
theorem mem_take_iff_of_pairwise {r : α → α → Bool}
    (hasymm : ∀ a b, r a b = true → r b a = false) {xs : List α} (h : xs.Pairwise (r · ·))
    (n : ℕ) (a : α) : a ∈ xs.take n ↔ a ∈ xs ∧ xs.countP (r · a) < n := by
  induction h generalizing n with
  | nil => simp
  | @cons x xs hx _ ih =>
    have hself : r a a = false := Bool.eq_false_iff.mpr fun h ↦ by simp [hasymm a a h] at h
    cases n with
    | zero => simp
    | succ n =>
      rw [List.take_succ_cons, List.mem_cons, List.mem_cons, ih, List.countP_cons]
      by_cases hax : a = x
      · -- Nothing is related to the first one.
        subst hax
        have hnone : xs.countP (r · a) = 0 := by
          rw [List.countP_eq_zero]
          intro y hy
          simp [hasymm a y (hx y hy)]
        simp [hnone, hself]
      · constructor
        · rintro (rfl | ⟨ha, hcount⟩)
          · exact absurd rfl hax
          · rw [if_pos (hx a ha)]
            exact ⟨.inr ha, Nat.succ_lt_succ hcount⟩
        · rintro ⟨rfl | ha, hcount⟩
          · exact absurd rfl hax
          · rw [if_pos (hx a ha)] at hcount
            exact .inr ⟨ha, Nat.lt_of_succ_lt_succ hcount⟩

theorem not_sublist_swap {a b : α} {xs : List α} (hxs : xs.Nodup) (h : [a, b].Sublist xs) :
    ¬[b, a].Sublist xs := by
  intro hswap
  obtain ⟨l, r, rfl, ha, hb⟩ := List.cons_sublist_iff.mp h
  obtain ⟨l', r', heq, hb', ha'⟩ := List.cons_sublist_iff.mp hswap
  have hdisjoint := (List.nodup_append'.mp hxs).2.2
  rw [List.singleton_sublist] at hb ha'
  rcases List.append_eq_append_iff.mp heq with ⟨m, -, rfl⟩ | ⟨m, rfl, -⟩
  · exact hdisjoint ha (List.mem_append_right _ ha')
  · exact hdisjoint (List.mem_append_left _ hb') hb

/-! ## Lists put together -/

/-- Where there is at most one copy of each element, none has to be dropped. -/
theorem flatMap_copies (copies : α → List β) (f : α → γ) (xs : List α)
    (h : ∀ x ∈ xs, (copies x).length ≤ 1) :
    (xs.flatMap fun x ↦ (copies x).map fun _ ↦ f x)
      = (xs.filter fun x ↦ !(copies x).isEmpty).map f := by
  induction xs with
  | nil => rfl
  | cons x xs ih =>
    obtain ⟨hx, hxs⟩ := List.forall_mem_cons.mp h
    rw [List.flatMap_cons, ih hxs, List.filter_cons]
    match copies x, hx with
    | [], _ => rfl
    | [copy], _ => rfl

end CorpusQuery

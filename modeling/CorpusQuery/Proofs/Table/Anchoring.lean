import CorpusQuery.Proofs.Table.Arranging

/-!
# Derived columns behind their anchors

Anchoring lists the columns that stay, each followed by what is derived from it. If the columns have
different names, then every column is listed once: it stays and is listed for itself, or it moves
and is listed for its anchor, which stays. An arrangement by a complete list has the columns in the
order of the list, so what anchoring does to a table can be read off the list.

The list does not depend on the order of the columns that move. For a table that is anchored already
the columns that stay are listed in the same order as before, and with them the whole list, which by
then is the order of the columns.

## Main statements

* `Table.listed_perm`: each column is listed once.
* `Table.columns_arrange_of_perm`: a complete list is the order of the columns.
* `Table.exists_arrange_eq_permuted`: columns are permuted, and cells with them.
* `Table.anchorColumns_places_derived`: what anchoring moves, and where to.
-/

namespace CorpusQuery.Table

variable {t : Table}

/-! ## What is listed -/

/-- The columns in the order of anchoring. -/
def listed (t : Table) : List String :=
  (t.columns.filter (!t.anchored.contains ·)).flatMap t.withDerived

/-- A column is derived from another column of the table. -/
def Moves (t : Table) (c : String) : Prop := ∃ a ∈ anchors, a.1 ∈ t.columns ∧ c ∈ a.2

theorem stays_iff {c : String} : (!t.anchored.contains c) = true ↔ ¬t.Moves c := by
  rw [Bool.not_eq_true', ← Bool.not_eq_true, List.contains_iff_mem, mem_anchored, Moves]

theorem mem_staying_iff {c : String} :
    c ∈ t.columns.filter (!t.anchored.contains ·) ↔ c ∈ t.columns ∧ ¬t.Moves c := by
  rw [List.mem_filter, stays_iff]

theorem not_moves_anchor {a : String × List String} (ha : a ∈ anchors) : ¬t.Moves a.1 := by
  have hanchors : ∀ a ∈ anchors, ∀ b ∈ anchors, a.1 ∉ b.2 := by decide
  rintro ⟨b, hb, -, hab⟩
  exact hanchors a ha b hb hab

theorem withDerived_anchor {a : String × List String} (ha : a ∈ anchors) :
    t.withDerived a.1 = a.1 :: a.2.filter t.hasColumn := by
  rw [withDerived]
  have hfind : anchors.find? (·.1 == a.1) = some a := by
    revert a
    decide
  rw [hfind]

theorem withDerived_of_ne {c : String} (hc : ∀ a ∈ anchors, a.1 ≠ c) : t.withDerived c = [c] := by
  have hfind : anchors.find? (·.1 == c) = none := by
    rw [List.find?_eq_none]
    intro a ha hac
    exact hc a ha (beq_iff_eq.mp hac)
  rw [withDerived, hfind]

theorem exists_withDerived_eq {c : String} (hc : c ∈ t.columns) :
    ∃ derived : List String, t.withDerived c = c :: derived ∧
      ∀ z ∈ derived, z ∈ t.columns ∧ t.Moves z := by
  by_cases hanchor : ∃ a ∈ anchors, a.1 = c
  · obtain ⟨a, ha, rfl⟩ := hanchor
    refine ⟨_, withDerived_anchor ha, fun z hz ↦ ?_⟩
    rw [List.mem_filter, hasColumn_iff] at hz
    exact ⟨hz.2, a, ha, hc, hz.1⟩
  · exact ⟨[], withDerived_of_ne fun a ha hac ↦ hanchor ⟨a, ha, hac⟩, fun z hz ↦ by simp at hz⟩

theorem mem_listed_iff {c : String} : c ∈ t.listed ↔ c ∈ t.columns := by
  rw [listed, List.mem_flatMap]
  constructor
  · rintro ⟨d, hd, hc⟩
    obtain ⟨hcolumn, -⟩ := mem_staying_iff.mp hd
    obtain ⟨derived, heq, hderived⟩ := exists_withDerived_eq hcolumn
    rw [heq] at hc
    rcases List.mem_cons.mp hc with rfl | hc
    · exact hcolumn
    · exact (hderived c hc).1
  · intro hc
    -- A column that moves is listed for its anchor, any other one for itself.
    by_cases hmoves : t.Moves c
    · obtain ⟨a, ha, hanchor, hca⟩ := hmoves
      refine ⟨a.1, mem_staying_iff.mpr ⟨hanchor, not_moves_anchor ha⟩, ?_⟩
      rw [withDerived_anchor ha]
      exact List.mem_cons_of_mem _ (List.mem_filter.mpr ⟨hca, hasColumn_iff.mpr hc⟩)
    · obtain ⟨derived, heq, -⟩ := exists_withDerived_eq hc
      refine ⟨c, mem_staying_iff.mpr ⟨hc, hmoves⟩, ?_⟩
      rw [heq]
      exact List.mem_cons_self

/-- **Each column is listed once.** -/
theorem listed_perm (hnodup : t.columns.Nodup) : t.listed.Perm t.columns :=
  (List.perm_ext_iff_of_nodup (nodup_flatMap_withDerived hnodup) hnodup).mpr fun _ ↦ mem_listed_iff

theorem filter_listed :
    t.listed.filter (!t.anchored.contains ·) = t.columns.filter (!t.anchored.contains ·) := by
  have hone : ∀ c ∈ t.columns.filter (!t.anchored.contains ·),
      (t.withDerived c).filter (!t.anchored.contains ·) = [c] := by
    intro c hc
    obtain ⟨hcolumn, hstays⟩ := mem_staying_iff.mp hc
    obtain ⟨derived, heq, hderived⟩ := exists_withDerived_eq hcolumn
    have hnone : derived.filter (!t.anchored.contains ·) = [] := by
      rw [List.filter_eq_nil_iff]
      exact fun z hz ↦ mt stays_iff.mp (not_not_intro (hderived z hz).2)
    rw [heq, List.filter_cons, if_pos (stays_iff.mpr hstays), hnone]
  rw [listed, List.filter_flatMap, List.flatMap_congr hone, List.flatMap_singleton']

theorem infix_listed {a : String × List String} (ha : a ∈ anchors) (hcolumn : a.1 ∈ t.columns) :
    (a.1 :: a.2.filter t.hasColumn) <:+: t.listed := by
  rw [← withDerived_anchor ha]
  exact List.infix_flatMap_of_mem (mem_staying_iff.mpr ⟨hcolumn, not_moves_anchor ha⟩) t.withDerived

/-! ## Complete lists -/

theorem arrangement_of_perm {names : List String} (hnodup : t.columns.Nodup)
    (hperm : names.Perm t.columns) : t.arrangement names = names.filterMap t.columnIndex? := by
  have hall : ∀ i < t.columns.length, i ∈ names.filterMap t.columnIndex? := by
    intro i hi
    have hindex := columnIndex?_getElem? hnodup hi
    rw [List.getElem?_eq_getElem hi, Option.bind_some] at hindex
    exact List.mem_filterMap.mpr ⟨_, hperm.mem_iff.mpr (List.getElem_mem hi), hindex⟩
  have hrest : (List.range t.columns.length).filter
      (!(names.filterMap t.columnIndex?).contains ·) = [] := by
    rw [List.filter_eq_nil_iff]
    intro i hi
    rw [List.contains_iff_mem.mpr (hall i (List.mem_range.mp hi))]
    exact Bool.false_ne_true
  rw [arrangement, hrest, List.append_nil]

/-- **Complete lists.** They are the order of the columns. -/
theorem columns_arrange_of_perm {names : List String} (hnodup : t.columns.Nodup)
    (hperm : names.Perm t.columns) : (t.arrange names).columns = names := by
  have hlisted : names.filter (· ∈ t.columns) = names :=
    List.filter_eq_self.mpr fun c hc ↦ decide_eq_true (hperm.mem_iff.mp hc)
  have hrest : t.columns.filter (· ∉ names) = [] :=
    List.filter_eq_nil_iff.mpr fun c hc hnew ↦ of_decide_eq_true hnew (hperm.mem_iff.mpr hc)
  rw [columns_arrange hnodup, hlisted, hrest, List.append_nil]

theorem arrange_columns (ht : t.Rectangular) (hnodup : t.columns.Nodup) :
    t.arrange t.columns = t := by
  have hpositions : t.arrangement t.columns = List.range t.columns.length := by
    rw [arrangement_of_perm hnodup (List.Perm.refl _)]
    conv_lhs => rw [← filterMap_range_getElem? t.columns]
    rw [List.filterMap_filterMap, List.filterMap_congr fun i hi ↦
      columnIndex?_getElem? hnodup (List.mem_range.mp hi), List.filterMap_some]
  have hrow : ∀ row ∈ t.rows, (List.range t.columns.length).filterMap (row[·]?) = row := by
    intro row hrow
    rw [← ht row hrow, filterMap_range_getElem?]
  rw [arrange, hpositions, filterMap_range_getElem?, List.map_congr_left hrow, List.map_id']

/-! ## Permuted tables -/

/-- The table with its columns at other places, and the cells of each row with them. -/
def permuted (t : Table) (place : Equiv.Perm (Fin t.columns.length)) : Table where
  columns := List.ofFn fun i ↦ t.columns[place i]
  rows := t.rows.map fun row ↦ List.ofFn fun i ↦ cellAt (place i) row

/-- **Permuted columns.** An arrangement by a list without repetitions permutes the columns, and the
cells of each row alike. -/
theorem exists_arrange_eq_permuted (ht : t.Rectangular) {names : List String}
    (hnames : names.Nodup) :
    ∃ place : Equiv.Perm (Fin t.columns.length), t.arrange names = t.permuted place := by
  obtain ⟨place, hplace⟩ := exists_perm_eq_ofFn (perm_arrangement t hnames)
  refine ⟨place, ?_⟩
  have hcolumns : (List.ofFn fun i ↦ (place i : ℕ)).filterMap (t.columns[·]?)
      = List.ofFn fun i ↦ t.columns[place i] :=
    filterMap_ofFn_getElem? (fun i ↦ List.getElem?_eq_getElem i.isLt) place
  have hrow : ∀ row ∈ t.rows, (List.ofFn fun i ↦ (place i : ℕ)).filterMap (row[·]?)
      = List.ofFn fun i ↦ cellAt (place i) row := by
    intro row hrow
    refine filterMap_ofFn_getElem? (f := fun i ↦ cellAt i row) (fun i ↦ ?_) place
    have hi : (i : ℕ) < row.length := by
      rw [ht row hrow]
      exact i.isLt
    rw [cellAt, List.getElem?_eq_getElem hi, Option.getD_some]
  rw [arrange, permuted, hplace, hcolumns, List.map_congr_left hrow]

/-! ## Anchoring twice -/

theorem anchorColumns_eq (t : Table) : t.anchorColumns = t.arrange t.listed := rfl

theorem columns_anchorColumns (hnodup : t.columns.Nodup) : t.anchorColumns.columns = t.listed :=
  columns_arrange_of_perm hnodup (listed_perm hnodup)

/-- What is listed depends on the order of the columns that stay, and on which other columns there
are. -/
theorem listed_congr {t' : Table} (hperm : t'.columns.Perm t.columns)
    (hstaying : t'.columns.filter (!t.anchored.contains ·)
      = t.columns.filter (!t.anchored.contains ·)) : t'.listed = t.listed := by
  have hhas : t'.hasColumn = t.hasColumn := by
    funext c
    rw [Bool.eq_iff_iff, hasColumn_iff, hasColumn_iff, hperm.mem_iff]
  have hanchored : t'.anchored = t.anchored := by rw [anchored, anchored, hhas]
  have hderived : t'.withDerived = t.withDerived := by
    funext c
    rw [withDerived, withDerived, hhas]
  rw [listed, hanchored, hstaying, hderived, listed]

theorem anchorColumns_anchorColumns (ht : t.Rectangular) (hnodup : t.columns.Nodup) :
    t.anchorColumns.anchorColumns = t.anchorColumns := by
  have hcolumns := columns_anchorColumns hnodup
  have hlisted : t.anchorColumns.listed = t.anchorColumns.columns := by
    rw [hcolumns]
    refine listed_congr ?_ ?_
    · rw [hcolumns]
      exact listed_perm hnodup
    · rw [hcolumns, filter_listed]
  rw [anchorColumns_eq t.anchorColumns, hlisted]
  exact arrange_columns (ht.arrange _) (nodup_columns_anchorColumns_iff.mpr hnodup)

/-! ## What anchoring does -/

/-- **Anchoring.** In a table with different column names it permutes the columns, and the cells of
each row alike. Behind each of the three anchors that the table has come the columns that are
derived from it, as far as the table has them, in their order. All other columns, among them derived
columns without their anchors, keep their order. Anchoring a second time changes nothing. -/
theorem anchorColumns_places_derived (ht : t.Rectangular) (hnodup : t.columns.Nodup) :
    let anchors := [("lemma", ["amblemma", "ambform"]),
      ("frequency", ["initgramfreq", "fingramfreq", "bigramfreq"]), ("len", ["hood"])]
    (∃ place : Equiv.Perm (Fin t.columns.length), t.anchorColumns = t.permuted place) ∧
      (∀ a ∈ anchors, a.1 ∈ t.columns →
        (a.1 :: a.2.filter (· ∈ t.columns)) <:+: t.anchorColumns.columns) ∧
      (t.anchorColumns.columns.filter fun c ↦ ¬∃ a ∈ anchors, a.1 ∈ t.columns ∧ c ∈ a.2)
        = (t.columns.filter fun c ↦ ¬∃ a ∈ anchors, a.1 ∈ t.columns ∧ c ∈ a.2) ∧
      t.anchorColumns.anchorColumns = t.anchorColumns := by
  intro anchors
  have hhas : (fun c ↦ decide (c ∈ t.columns)) = t.hasColumn := by
    funext c
    rw [Bool.eq_iff_iff, decide_eq_true_iff, hasColumn_iff]
  have hstays : (fun c ↦ decide ¬∃ a ∈ anchors, a.1 ∈ t.columns ∧ c ∈ a.2)
      = (!t.anchored.contains ·) := by
    funext c
    rw [Bool.eq_iff_iff, decide_eq_true_iff, stays_iff]
    rfl
  refine ⟨exists_arrange_eq_permuted ht (nodup_flatMap_withDerived hnodup), ?_, ?_,
    anchorColumns_anchorColumns ht hnodup⟩
  · intro a ha hcolumn
    rw [columns_anchorColumns hnodup, hhas]
    exact infix_listed ha hcolumn
  · rw [hstays, columns_anchorColumns hnodup, filter_listed]

/-- Derived columns in front of their anchors, between other columns and without an anchor. -/
def derivedFirst : Table where
  columns := ["hood", "bigramfreq", "lemma", "form", "initgramfreq", "amblemma", "frequency"]
  rows := [[.int 2, .int 20, .text "sana", .text "sanoja", .int 31, .int 1, .int 50],
    [.int 7, .int 11, .text "talo", .text "talo", .null, .int 3, .int 90]]

/-- There is no column of lengths, so the neighbourhood stays in front. -/
theorem anchorColumns_places_derived_derivedFirst :
    derivedFirst.Rectangular ∧ derivedFirst.columns.Nodup ∧
      (∃ place : Equiv.Perm (Fin 7), derivedFirst.anchorColumns = derivedFirst.permuted place) ∧
      ["frequency", "initgramfreq", "bigramfreq"] <:+: derivedFirst.anchorColumns.columns ∧
      derivedFirst.anchorColumns.columns.filter (["hood", "lemma", "form", "frequency"].contains ·)
        = ["hood", "lemma", "form", "frequency"] := by
  have hrectangular : derivedFirst.Rectangular := by decide
  have hnodup : derivedFirst.columns.Nodup := by decide
  obtain ⟨hplace, hderived, -, -⟩ := anchorColumns_places_derived hrectangular hnodup
  have hfrequency := hderived ("frequency", ["initgramfreq", "fingramfreq", "bigramfreq"])
    (by decide) (by decide)
  exact ⟨hrectangular, hnodup, hplace, hfrequency, by decide⟩

end CorpusQuery.Table

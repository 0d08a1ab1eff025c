import CorpusQuery.Proofs.Table.Finishing

/-!
# Where the columns of a table go

An arrangement lists the positions of some columns and then those that are left, so it has every
position whatever the list is, and a column that is arranged may move but not vanish. A position
comes more than once only if a name is listed twice. Names that are looked up mean first columns, so
this is what becomes of two columns of one name: the first of them comes twice, and the other one is
left for the end.

Derived columns are listed behind their anchors and nowhere else. As long as the columns of a table
have different names, each of these is listed once, and the arrangement is a permutation.

## Main statements

* `Table.columns_subperm_arrange`: no column is lost.
* `Table.perm_columns_anchorColumns`: columns with different names are permuted.
-/

namespace CorpusQuery.Table

variable {t : Table}

/-! ## Looking up -/

theorem columnIndex?_eq_some {name : String} {i : ℕ} (h : t.columnIndex? name = some i) :
    t.columns[i]? = some name := by
  obtain ⟨hlt, hname, -⟩ := List.idxOf?_eq_some_iff.mp h
  rw [List.getElem?_eq_getElem hlt, hname]

theorem hasColumn_iff {name : String} : t.hasColumn name = true ↔ name ∈ t.columns := by
  rw [hasColumn, columnIndex?, List.isSome_idxOf?]

theorem exists_columnIndex?_of_mem {name : String} (h : name ∈ t.columns) :
    ∃ i, t.columnIndex? name = some i :=
  Option.isSome_iff_exists.mp (hasColumn_iff.mpr h)

theorem columnIndex?_eq_none_iff {name : String} :
    t.columnIndex? name = none ↔ name ∉ t.columns :=
  List.idxOf?_eq_none_iff

theorem columnIndex?_inj {name name' : String} {i : ℕ} (h : t.columnIndex? name = some i)
    (h' : t.columnIndex? name' = some i) : name = name' :=
  Option.some.inj ((columnIndex?_eq_some h).symm.trans (columnIndex?_eq_some h'))

/-! ## Positions -/

theorem mem_arrangement (t : Table) (names : List String) {i : ℕ} :
    i ∈ t.arrangement names ↔ i < t.columns.length := by
  rw [arrangement, List.mem_append, List.mem_filter, List.mem_range, List.contains_eq_mem,
    Bool.not_eq_true', decide_eq_false_iff_not]
  constructor
  · rintro (hlisted | ⟨hi, -⟩)
    · obtain ⟨name, -, hindex⟩ := List.mem_filterMap.mp hlisted
      exact (List.idxOf?_eq_some_iff.mp hindex).1
    · exact hi
  · intro hi
    by_cases hlisted : i ∈ names.filterMap t.columnIndex?
    · exact .inl hlisted
    · exact .inr ⟨hi, hlisted⟩

theorem range_subperm_arrangement (t : Table) (names : List String) :
    (List.range t.columns.length).Subperm (t.arrangement names) :=
  List.subperm_of_subset List.nodup_range fun _ hi ↦
    (mem_arrangement t names).mpr (List.mem_range.mp hi)

theorem perm_arrangement (t : Table) {names : List String} (hnames : names.Nodup) :
    (t.arrangement names).Perm (List.range t.columns.length) := by
  have hlisted : (names.filterMap t.columnIndex?).Nodup :=
    hnames.filterMap fun _ _ _ hi hi' ↦ columnIndex?_inj hi hi'
  have hnodup : (t.arrangement names).Nodup := by
    rw [arrangement, List.nodup_append']
    refine ⟨hlisted, List.nodup_range.filter _, fun i hi hrest ↦ ?_⟩
    simpa [hi] using (List.mem_filter.mp hrest).2
  refine (List.perm_ext_iff_of_nodup hnodup List.nodup_range).mpr fun i ↦ ?_
  rw [mem_arrangement, List.mem_range]

/-! ## Arranged columns -/

/-- **No column is lost.** Arranged columns are those of the table and copies of these. -/
theorem columns_subperm_arrange (t : Table) (names : List String) :
    t.columns.Subperm (t.arrange names).columns := by
  obtain ⟨positions, hperm, hsublist⟩ := range_subperm_arrangement t names
  refine ⟨positions.filterMap (t.columns[·]?), ?_, hsublist.filterMap _⟩
  have hcolumns := hperm.filterMap (t.columns[·]?)
  rwa [filterMap_range_getElem?] at hcolumns

theorem arrange_columns_subset (t : Table) (names : List String) :
    (t.arrange names).columns ⊆ t.columns := by
  intro c hc
  obtain ⟨i, -, hi⟩ := List.mem_filterMap.mp hc
  exact List.mem_of_getElem? hi

theorem perm_columns_arrange (t : Table) {names : List String} (hnames : names.Nodup) :
    (t.arrange names).columns.Perm t.columns := by
  have hperm := (perm_arrangement t hnames).filterMap (t.columns[·]?)
  rwa [filterMap_range_getElem?] at hperm

/-! ## Anchors -/

theorem mem_anchored {c : String} :
    c ∈ t.anchored ↔ ∃ a ∈ anchors, a.1 ∈ t.columns ∧ c ∈ a.2 := by
  simp only [anchored, List.mem_flatMap, List.mem_filter, hasColumn_iff, and_assoc]

theorem eq_or_derived_of_mem_withDerived {c z : String} (h : z ∈ t.withDerived c) :
    z = c ∨ ∃ a ∈ anchors, a.1 = c ∧ z ∈ a.2 := by
  rw [withDerived] at h
  split at h
  case h_1 anchor derived hfind =>
    refine (List.mem_cons.mp h).imp_right fun hz ↦ ?_
    have hanchor := List.find?_some hfind
    exact ⟨_, List.mem_of_find?_eq_some hfind, beq_iff_eq.mp hanchor, List.mem_of_mem_filter hz⟩
  case h_2 => exact .inl (List.mem_singleton.mp h)

theorem nodup_withDerived (t : Table) (c : String) : (t.withDerived c).Nodup := by
  have hanchors : ∀ a ∈ anchors, (a.1 :: a.2).Nodup := by decide
  rw [withDerived]
  split
  case h_1 anchor derived hfind =>
    have hnodup := hanchors _ (List.mem_of_find?_eq_some hfind)
    have hanchor := List.find?_some hfind
    rw [beq_iff_eq.mp hanchor] at hnodup
    exact hnodup.sublist (List.filter_sublist.cons_cons c)
  case h_2 => exact List.nodup_singleton c

theorem nodup_flatMap_withDerived (hnodup : t.columns.Nodup) :
    ((t.columns.filter (!t.anchored.contains ·)).flatMap t.withDerived).Nodup := by
  have hone : ∀ a ∈ anchors, ∀ b ∈ anchors, ∀ z ∈ a.2, z ∈ b.2 → a = b := by decide
  -- What is derived from a column of the table moves.
  have hmoves : ∀ a ∈ anchors, a.1 ∈ t.columns →
      ∀ z ∈ a.2, z ∉ t.columns.filter (!t.anchored.contains ·) := by
    intro a ha hcolumn z hz hstays
    have hanchored : z ∈ t.anchored := mem_anchored.mpr ⟨a, ha, hcolumn, hz⟩
    simpa [hanchored] using (List.mem_filter.mp hstays).2
  rw [List.nodup_flatMap]
  refine ⟨fun c _ ↦ nodup_withDerived t c, (hnodup.filter _).imp_of_mem ?_⟩
  intro c d hc hd hne z hzc hzd
  rcases eq_or_derived_of_mem_withDerived hzc with rfl | ⟨a, ha, rfl, hza⟩
  · rcases eq_or_derived_of_mem_withDerived hzd with rfl | ⟨b, hb, rfl, hzb⟩
    · exact hne rfl
    · exact hmoves b hb (List.mem_of_mem_filter hd) z hzb hc
  · rcases eq_or_derived_of_mem_withDerived hzd with rfl | ⟨b, hb, rfl, hzb⟩
    · exact hmoves a ha (List.mem_of_mem_filter hc) z hza hd
    · exact hne (congrArg Prod.fst (hone a ha b hb z hza hzb))

/-- **Anchoring.** Columns with different names are permuted. -/
theorem perm_columns_anchorColumns (hnodup : t.columns.Nodup) :
    t.anchorColumns.columns.Perm t.columns :=
  perm_columns_arrange t (nodup_flatMap_withDerived hnodup)

theorem nodup_columns_anchorColumns_iff :
    t.anchorColumns.columns.Nodup ↔ t.columns.Nodup := by
  constructor
  · intro h
    obtain ⟨columns, hperm, hsublist⟩ := columns_subperm_arrange t
      ((t.columns.filter (!t.anchored.contains ·)).flatMap t.withDerived)
    exact hperm.nodup_iff.mp (h.sublist hsublist)
  · intro h
    exact (perm_columns_anchorColumns h).nodup_iff.mpr h

end CorpusQuery.Table

import CorpusQuery.Proofs.Table.Columns
import CorpusQuery.Proofs.Table.Identity

/-!
# Tables with listed columns in front

Columns are arranged by a list of names, whatever names these are. A name that no column has is
passed over, and a column that is not listed waits for the end. A column that is listed comes once
for each time that its name is on the list, so an arrangement is a permutation of the columns
exactly if no column is listed twice. Even where it is none, a row has under each name the cell that
it had there before: the positions that columns are taken from are those that cells are taken from.

## Main statements

* `Table.columns_arrange`: the columns of an arranged table.
* `Table.arrange_listed_first`: columns and cells, and when they are permuted.
* `Table.arrange_repeats_listed`: a column that is listed twice is there twice.
-/

namespace CorpusQuery.Table

variable {t : Table}

/-! ## Columns -/

theorem columnIndex?_getElem? (hnodup : t.columns.Nodup) {i : ℕ} (hi : i < t.columns.length) :
    t.columns[i]?.bind t.columnIndex? = some i := by
  rw [List.getElem?_eq_getElem hi, Option.bind_some, columnIndex?, List.idxOf?_eq_some_iff]
  refine ⟨hi, rfl, fun j hj hsame ↦ ?_⟩
  exact absurd (hnodup.getElem_inj_iff.mp hsame) (Nat.ne_of_lt hj)

theorem columnIndex?_of_getElem? (hnodup : t.columns.Nodup) {i : ℕ} {c : String}
    (h : t.columns[i]? = some c) : t.columnIndex? c = some i := by
  obtain ⟨hi, -⟩ := List.getElem?_eq_some_iff.mp h
  have hindex := columnIndex?_getElem? hnodup hi
  rwa [h, Option.bind_some] at hindex

theorem mem_listed_positions_iff (hnodup : t.columns.Nodup) (names : List String) {i : ℕ}
    {c : String} (h : t.columns[i]? = some c) : i ∈ names.filterMap t.columnIndex? ↔ c ∈ names := by
  rw [List.mem_filterMap]
  constructor
  · rintro ⟨name, hname, hindex⟩
    have hsame := columnIndex?_eq_some hindex
    rw [h] at hsame
    rwa [Option.some.inj hsame]
  · intro hc
    exact ⟨c, hc, columnIndex?_of_getElem? hnodup h⟩

/-- **Arranged columns.** The columns that are listed, as often as they are, and then the others. -/
theorem columns_arrange (hnodup : t.columns.Nodup) (names : List String) :
    (t.arrange names).columns
      = names.filter (· ∈ t.columns) ++ t.columns.filter (· ∉ names) := by
  have hlisted : (names.filterMap t.columnIndex?).filterMap (t.columns[·]?)
      = names.filter (· ∈ t.columns) := by
    rw [List.filterMap_filterMap, ← List.filterMap_eq_filter]
    refine List.filterMap_congr fun name _ ↦ ?_
    rw [Option.guard]
    by_cases hname : name ∈ t.columns
    · obtain ⟨i, hi⟩ := exists_columnIndex?_of_mem hname
      rw [if_pos (decide_eq_true hname), hi, Option.bind_some, columnIndex?_eq_some hi]
    · rw [if_neg (by rwa [decide_eq_true_iff]), columnIndex?_eq_none_iff.mpr hname,
        Option.bind_none]
  have hrest : ((List.range t.columns.length).filter
      (!(names.filterMap t.columnIndex?).contains ·)).filterMap (t.columns[·]?)
        = t.columns.filter (· ∉ names) := by
    conv_rhs => rw [← filterMap_range_getElem? t.columns]
    rw [List.filterMap_filter, List.filter_filterMap]
    refine List.filterMap_congr fun i hi ↦ ?_
    have hcolumn := List.getElem?_eq_getElem (List.mem_range.mp hi)
    have hmem := mem_listed_positions_iff hnodup names hcolumn
    rw [hcolumn, Option.filter_some]
    simp only [List.contains_eq_mem, hmem, decide_not]
  change (t.arrangement names).filterMap (t.columns[·]?) = _
  rw [arrangement, List.filterMap_append, hlisted, hrest]

/-- **Permutations.** Columns are permuted if none of them is listed twice. -/
theorem perm_columns_arrange_iff (hnodup : t.columns.Nodup) (names : List String) :
    (t.arrange names).columns.Perm t.columns ↔ (names.filter (· ∈ t.columns)).Nodup := by
  rw [columns_arrange hnodup]
  constructor
  · intro hperm
    exact (List.nodup_append'.mp (hperm.nodup_iff.mpr hnodup)).1
  · intro hlisted
    have hall : (names.filter (· ∈ t.columns) ++ t.columns.filter (· ∉ names)).Nodup := by
      refine List.nodup_append'.mpr ⟨hlisted, hnodup.filter _, fun c hc hrest ↦ ?_⟩
      exact of_decide_eq_true (List.mem_filter.mp hrest).2 (List.mem_filter.mp hc).1
    refine (List.perm_ext_iff_of_nodup hall hnodup).mpr fun c ↦ ?_
    simp only [List.mem_append, List.mem_filter, decide_eq_true_iff]
    by_cases hc : c ∈ names
    · simp [hc]
    · simp [hc]

/-! ## Cells -/

theorem getElem?_rows_arrange (ht : t.Rectangular) (hnodup : t.columns.Nodup) (names : List String)
    {i : ℕ} {c : String} (hc : (t.arrange names).columns[i]? = some c) (k : ℕ) :
    (t.arrange names).rows[k]?.bind (·[i]?) = t.cell? k c := by
  have hbound (n : ℕ) (hn : n = t.columns.length) : ∀ j ∈ t.arrangement names, j < n := by
    intro j hj
    rw [hn]
    exact (mem_arrangement t names).mp hj
  -- The position in the table that the column was taken from.
  have hcolumn : ((t.arrangement names).filterMap (t.columns[·]?))[i]? = some c := hc
  rw [getElem?_filterMap_getElem? (hbound _ rfl)] at hcolumn
  obtain ⟨j, hj, hname⟩ := Option.bind_eq_some_iff.mp hcolumn
  have hindex : t.columns.idxOf? c = some j := columnIndex?_of_getElem? hnodup hname
  rw [cell?_eq_ofCells, arrange, List.getElem?_map, Option.bind_map]
  refine Option.bind_congr fun row hrow ↦ ?_
  have hlength := ht row (List.mem_of_getElem? hrow)
  rw [Function.comp_apply, getElem?_filterMap_getElem? (hbound _ hlength), hj, Row.ofCells, hindex]

/-! ## Arranged tables -/

/-- **Arranging.** Let the columns of a table have different names. Arranged by any list, known and
unknown names, once or repeatedly, it has first the columns that are listed, each as often as it is
listed, and behind them the columns that are not listed, in their order. Every row stays where it
is, is as long as the columns are, and holds under each name the cell that it held there. The
columns are a permutation of those that were there exactly if no column is listed twice. -/
theorem arrange_listed_first (ht : t.Rectangular) (hnodup : t.columns.Nodup) (names : List String) :
    let t' := t.arrange names
    t'.columns = names.filter (· ∈ t.columns) ++ t.columns.filter (· ∉ names) ∧
      t'.Rectangular ∧ t'.rows.length = t.rows.length ∧
      (∀ (k i : ℕ) (c : String), t'.columns[i]? = some c →
        t'.rows[k]?.bind (·[i]?) = t.cell? k c) ∧
      (t'.columns.Perm t.columns ↔ (names.filter (· ∈ t.columns)).Nodup) :=
  ⟨columns_arrange hnodup names, ht.arrange names, List.length_map _,
    fun k _ _ hc ↦ getElem?_rows_arrange ht hnodup names hc k,
    perm_columns_arrange_iff hnodup names⟩

/-- Two words with three columns. -/
def plainWords : Table where
  columns := ["form", "frequency", "lemma"]
  rows := [[.text "sanoja", .int 50, .text "sana"], [.text "talo", .null, .text "talo"]]

/-- An unknown name makes no difference, wherever it stands and however often. -/
theorem arrange_listed_first_plainWords :
    plainWords.Rectangular ∧ plainWords.columns.Nodup ∧
      (plainWords.arrange ["hood", "lemma", "hood", "form"]).columns
        = ["lemma", "form", "frequency"] ∧
      (plainWords.arrange ["hood", "lemma", "hood", "form"]).rows[1]?.bind (·[2]?)
        = some .null := by
  have hrectangular : plainWords.Rectangular := by decide
  have hnodup : plainWords.columns.Nodup := by decide
  obtain ⟨hcolumns, -, -, hcells, -⟩ :=
    arrange_listed_first hrectangular hnodup ["hood", "lemma", "hood", "form"]
  have hcell := hcells 1 2 "frequency" (by decide)
  exact ⟨hrectangular, hnodup, hcolumns, hcell⟩

/-- A column that is listed twice is there twice, and the columns are permuted no more. -/
theorem arrange_repeats_listed :
    plainWords.Rectangular ∧ plainWords.columns.Nodup ∧
      (plainWords.arrange ["lemma", "lemma"]).columns = ["lemma", "lemma", "form", "frequency"] ∧
      (plainWords.arrange ["lemma", "lemma"]).rows[0]?
        = some [.text "sana", .text "sana", .text "sanoja", .int 50] ∧
      ¬(plainWords.arrange ["lemma", "lemma"]).columns.Perm plainWords.columns := by
  decide

end CorpusQuery.Table

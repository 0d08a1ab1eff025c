import CorpusQuery.Proofs.Lists
import CorpusQuery.RowExpr.Eval

/-!
# Rows by position

Rows are kept by their positions, so what is kept is said of positions: which ones they are, in
which order, and at which position of the result a row is found that stood at a given position
before. It is the number of kept positions in front of it. So keeping rows twice is keeping them
once, and whether a row is kept the second time is asked of that number.

## Main statements

* `Table.rows_keepRows`: the rows that are kept.
* `Table.keepRows_keepRows`: keeping rows twice.
-/

namespace CorpusQuery.Table

variable {t : Table} {p : ℕ → Bool} {rows : List (List Value)}

/-! ## Rows and their cells -/

/-- The row at a position; there is none behind the last one. -/
def rowAt (rows : List (List Value)) (i : ℕ) : List Value := rows[i]?.getD []

theorem zipIdx_eq_map_rowAt (rows : List (List Value)) :
    rows.zipIdx = (List.range rows.length).map fun i ↦ (rowAt rows i, i) := by
  refine List.ext_getElem (by simp) fun i hi hi' ↦ ?_
  have hlt : i < rows.length := by simpa using hi
  simp [rowAt, hlt]

theorem map_rowAt_range (rows : List (List Value)) :
    (List.range rows.length).map (rowAt rows) = rows := by
  have hfst := rows.zipIdx_map_fst 0
  rwa [zipIdx_eq_map_rowAt, List.map_map] at hfst

theorem countP_eq_countP_range (q : List Value → Bool) (rows : List (List Value)) :
    rows.countP q = (List.range rows.length).countP fun i ↦ q (rowAt rows i) := by
  conv_lhs => rw [← map_rowAt_range rows, List.countP_map]
  rfl

theorem rowAt_eq_getElem {i : ℕ} (hi : i < rows.length) : rowAt rows i = rows[i] := by
  rw [rowAt, List.getElem?_eq_getElem hi, Option.getD_some]

/-- The cell of a row under the name of a column. Without such a column there is no value. -/
def cellUnder (t : Table) (name : String) (row : List Value) : Value :=
  (Row.ofCells t.columns row name).getD .null

theorem cellUnder_eq_cellAt {name : String} {i : ℕ} (h : t.columnIndex? name = some i)
    (row : List Value) : t.cellUnder name row = cellAt i row := by
  rw [cellUnder, Row.ofCells]
  exact congrArg (fun index ↦ (Option.bind index (row[·]?)).getD .null) h

/-! ## Rows that are kept -/

theorem keepRows_congr (t : Table) {p p' : ℕ → Bool}
    (h : ∀ i < t.rows.length, p i = p' i) :
    t.keepRows p = t.keepRows p' := by
  rw [keepRows, keepRows]
  congr 2
  refine List.filter_congr fun x hx ↦ ?_
  obtain ⟨-, hlt, -⟩ := List.mem_zipIdx hx
  exact h x.2 (by omega)

theorem mem_rows_keepRows {row : List Value} :
    row ∈ (t.keepRows p).rows ↔ ∃ i, t.rows[i]? = some row ∧ p i = true := by
  simp only [keepRows, List.mem_map, List.mem_filter, Prod.exists, List.mem_zipIdx_iff_getElem?]
  constructor
  · rintro ⟨_, i, ⟨hrow, hp⟩, rfl⟩
    exact ⟨i, hrow, hp⟩
  · rintro ⟨i, hrow, hp⟩
    exact ⟨row, i, ⟨hrow, hp⟩, rfl⟩

theorem rows_keepRows (t : Table) (p : ℕ → Bool) :
    (t.keepRows p).rows = ((List.range t.rows.length).filter p).map (rowAt t.rows) := by
  rw [keepRows, zipIdx_eq_map_rowAt, List.filter_map, List.map_map]
  rfl

/-- The first row is kept by its own position and the others by theirs, which are one greater. -/
theorem rows_keepRows_cons (columns : List String) (row : List Value) (rows : List (List Value))
    (p : ℕ → Bool) : (keepRows ⟨columns, row :: rows⟩ p).rows
      = if p 0 then row :: (keepRows ⟨columns, rows⟩ fun i ↦ p (i + 1)).rows
        else (keepRows ⟨columns, rows⟩ fun i ↦ p (i + 1)).rows := by
  have hrest : (((List.range rows.length).map Nat.succ).filter p).map (rowAt (row :: rows))
      = ((List.range rows.length).filter fun i ↦ p (i + 1)).map (rowAt rows) := by
    rw [List.filter_map, List.map_map]
    rfl
  rw [rows_keepRows, rows_keepRows, List.length_cons, List.range_succ_eq_map]
  by_cases hfirst : p 0 = true
  · rw [List.filter_cons_of_pos hfirst, if_pos hfirst, List.map_cons, hrest]
    rfl
  · rw [List.filter_cons_of_neg hfirst, if_neg hfirst, hrest]

theorem length_keepRows_eq_iff :
    (t.keepRows p).rows.length = t.rows.length ↔ ∀ i < t.rows.length, p i = true := by
  rw [rows_keepRows, List.length_map]
  conv_lhs => rhs; rw [← @List.length_range t.rows.length]
  rw [List.length_filter_eq_length_iff]
  simp only [List.mem_range]

theorem keepRows_eq_self (h : ∀ i < t.rows.length, p i = true) :
    t.keepRows p = t := by
  rw [keepRows, List.filter_eq_self.mpr, List.zipIdx_map_fst]
  intro x hx
  obtain ⟨-, hlt, -⟩ := List.mem_zipIdx hx
  exact h x.2 (by omega)

theorem countP_keepRows (t : Table) (p : ℕ → Bool) (q : List Value → Bool) :
    (t.keepRows p).rows.countP q
      = ((List.range t.rows.length).filter p).countP fun i ↦ q (rowAt t.rows i) := by
  rw [rows_keepRows, List.countP_map]
  rfl

/-! ## Where kept rows are -/

theorem range_length_keepRows (t : Table) (p : ℕ → Bool) :
    List.range (t.keepRows p).rows.length
      = ((List.range t.rows.length).filter p).map (Nat.count (p ·)) := by
  rw [rows_keepRows, List.length_map, List.range_eq_range', ← List.zipIdx_map_snd,
    zipIdx_filter_range, List.map_map]
  rfl

theorem rowAt_keepRows {i : ℕ} (hi : i < t.rows.length) (hp : p i = true) :
    rowAt (t.keepRows p).rows (Nat.count (p ·) i) = rowAt t.rows i := by
  have hmem : (i, Nat.count (p ·) i) ∈ ((List.range t.rows.length).filter p).zipIdx := by
    rw [zipIdx_filter_range]
    exact List.mem_map_of_mem (List.mem_filter.mpr ⟨List.mem_range.mpr hi, hp⟩)
  rw [rowAt, rows_keepRows, List.getElem?_map, List.mem_zipIdx_iff_getElem?.mp hmem]
  rfl

/-- **Keeping rows twice.** A row is kept the second time by its position among the rows that were
kept the first time. -/
theorem keepRows_keepRows (t : Table) (p q : ℕ → Bool) :
    (t.keepRows p).keepRows q = t.keepRows fun i ↦ p i && q (Nat.count (p ·) i) := by
  have hrows : ((t.keepRows p).keepRows q).rows
      = (t.keepRows fun i ↦ p i && q (Nat.count (p ·) i)).rows := by
    have hfilter : ((List.range t.rows.length).filter p).filter (fun i ↦ q (Nat.count (p ·) i))
        = (List.range t.rows.length).filter fun i ↦ p i && q (Nat.count (p ·) i) := by
      rw [List.filter_filter]
      simp only [Bool.and_comm]
    rw [rows_keepRows t, ← hfilter, keepRows]
    dsimp only
    rw [rows_keepRows, List.zipIdx_map, zipIdx_filter_range, List.map_map, List.filter_map,
      List.map_map]
    rfl
  rw [keepRows, keepRows] at hrows ⊢
  exact congrArg (Table.mk t.columns) hrows

end CorpusQuery.Table

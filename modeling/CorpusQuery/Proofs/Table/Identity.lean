import CorpusQuery.Proofs.Table.Finishing
import CorpusQuery.RowExpr.Eval
import CorpusQuery.Table.Identity

/-!
# Finishing keeps what identifies a row

Columns move when a table is finished, and columns of relative counts come in between them. A cell
is still found under the name of its column. A name that occurs twice means its first column, and
this one is the first before and after: only first columns are listed in an arrangement, and the
columns that are not listed stay in their order. So a row of the finished table has the lemma, the
form, the part of speech and the features that it had before.
-/

namespace CorpusQuery.Table

/-! ## Cells under a name -/

theorem cell?_eq_ofCells (t : Table) (k : Nat) (name : String) :
    t.cell? k name = t.rows[k]?.bind fun row ↦ Row.ofCells t.columns row name := by
  simp only [cell?, columnIndex?, Row.ofCells, bind]
  cases t.columns.idxOf? name with
  | none => cases t.rows[k]? <;> rfl
  | some i => rfl

theorem ofCells_cons (column : String) (columns : List String) (v : Value) (row : List Value)
    (name : String) :
    Row.ofCells (column :: columns) (v :: row) name
      = if column == name then some v else Row.ofCells columns row name := by
  simp only [Row.ofCells, List.idxOf?_cons]
  cases column == name with
  | true => rfl
  | false =>
    cases columns.idxOf? name with
    | none => rfl
    | some i => rfl

/-- Columns taken from a list of positions show the cell at the first position where the name
stands. -/
theorem ofCells_filterMap {columns : List String} {row : List Value}
    (hlength : row.length = columns.length) (positions : List Nat) (name : String) :
    Row.ofCells (positions.filterMap (columns[·]?)) (positions.filterMap (row[·]?)) name
      = (positions.find? (columns[·]? == some name)).bind (row[·]?) := by
  induction positions with
  | nil => rfl
  | cons i positions ih =>
    rcases Nat.lt_or_ge i columns.length with hi | hi
    · have hrow : i < row.length := hlength ▸ hi
      rw [List.filterMap_cons_some (List.getElem?_eq_getElem hi),
        List.filterMap_cons_some (List.getElem?_eq_getElem hrow), ofCells_cons, ih, List.find?_cons,
        List.getElem?_eq_getElem hi]
      by_cases hname : columns[i] = name
      · simp [hname, hrow]
      · have hne : (columns[i] == name) = false := beq_eq_false_iff_ne.mpr hname
        simp [hne]
    · have hcolumn : columns[i]? = none := List.getElem?_eq_none hi
      rw [List.filterMap_cons_none hcolumn,
        List.filterMap_cons_none (List.getElem?_eq_none (hlength ▸ hi)), ih, List.find?_cons,
        hcolumn]
      rfl

/-! ## Arranging -/

/-- **Arranging.** The first position in an arrangement where a name stands is the position that the
name means. -/
theorem find?_arrangement (t : Table) (names : List String) (name : String) :
    (t.arrangement names).find? (t.columns[·]? == some name) = t.columns.idxOf? name := by
  have hlisted : ∀ i ∈ names.filterMap t.columnIndex?, t.columns[i]? = some name →
      name ∈ names ∧ t.columns.idxOf? name = some i := by
    intro i hi hname
    obtain ⟨n, hn, hindex⟩ := List.mem_filterMap.mp hi
    obtain ⟨hlt, heq, -⟩ := List.idxOf?_eq_some_iff.mp hindex
    rw [List.getElem?_eq_getElem hlt, heq] at hname
    obtain rfl := Option.some.inj hname
    exact ⟨hn, hindex⟩
  rw [arrangement, List.find?_append]
  cases h : (names.filterMap t.columnIndex?).find? (t.columns[·]? == some name) with
  | some i =>
    -- A listed position of the name is the one that it means.
    have hfound : (t.columns[i]? == some name) = true := by simpa using List.find?_some h
    have hname := beq_iff_eq.mp hfound
    rw [Option.some_or]
    exact ((hlisted i (List.mem_of_find?_eq_some h) hname).2).symm
  | none =>
    -- Without one the name is not listed, and all its positions are left in their order.
    rw [Option.none_or, List.find?_filter, ← find?_range]
    refine congrArg (List.find? · _) (funext fun i ↦ ?_)
    by_cases hname : t.columns[i]? = some name
    · have hnot : i ∉ names.filterMap t.columnIndex? := fun hi ↦
        List.find?_eq_none.mp h i hi (beq_iff_eq.mpr hname)
      simp [hname, hnot]
    · simp [hname]

theorem cell?_arrange {t : Table} (ht : t.Rectangular) (names : List String) (k : Nat)
    (name : String) : (t.arrange names).cell? k name = t.cell? k name := by
  rw [cell?_eq_ofCells, cell?_eq_ofCells]
  simp only [arrange, List.getElem?_map, Option.bind_map]
  cases hrow : t.rows[k]? with
  | none => rfl
  | some row =>
    have hlength := ht row (List.mem_of_getElem? hrow)
    exact (ofCells_filterMap hlength _ name).trans
      (congrArg (Option.bind · (row[·]?)) (find?_arrangement t names name))

/-! ## Inserting -/

theorem ofCells_insertIdx {columns : List String} {row : List Value}
    (hlength : row.length = columns.length) {column name : String} (hne : column ≠ name)
    (v : Value) (i : Nat) :
    Row.ofCells (columns.insertIdx i column) (row.insertIdx i v) name
      = Row.ofCells columns row name := by
  induction i generalizing columns row with
  | zero =>
    rw [List.insertIdx_zero, List.insertIdx_zero, ofCells_cons,
      if_neg (by rw [beq_iff_eq]; exact hne)]
  | succ i ih =>
    cases columns with
    | nil =>
      cases row with
      | nil => rfl
      | cons => cases hlength
    | cons c columns =>
      cases row with
      | nil => cases hlength
      | cons w row =>
        rw [List.insertIdx_succ_cons, List.insertIdx_succ_cons, ofCells_cons, ofCells_cons,
          ih (Nat.succ.inj hlength)]

theorem cell?_insertRelative {t : Table} (ht : t.Rectangular) (totals : Totals)
    {relative name : String} (hne : relative ≠ name) (absolute : String) (kind : TotalKind)
    (k : Nat) :
    (insertRelative totals t relative absolute kind).cell? k name = t.cell? k name := by
  rw [insertRelative.eq_def]
  split
  case h_2 => rfl
  case h_1 =>
    rw [cell?_eq_ofCells, cell?_eq_ofCells]
    simp only [insertColumn, insertCells_map, List.getElem?_map, Option.bind_map]
    cases hrow : t.rows[k]? with
    | none => rfl
    | some row => exact ofCells_insertIdx (ht row (List.mem_of_getElem? hrow)) hne _ _

theorem cell?_insertRelatives {t : Table} (ht : t.Rectangular) (totals : Totals) {name : String}
    (hname : name ∉ relativeColumns.map (·.1)) (k : Nat) :
    (t.insertRelatives totals).cell? k name = t.cell? k name := by
  rw [insertRelatives]
  generalize relativeColumns = relatives at hname
  induction relatives generalizing t with
  | nil => rfl
  | cons r relatives ih =>
    obtain ⟨hne, hrest⟩ := not_or.mp (mt List.mem_cons.mpr hname)
    rw [List.foldl_cons, ih (ht.insertRelative totals r.1 r.2.1 r.2.2) hrest]
    exact cell?_insertRelative ht totals (Ne.symm hne) _ _ k

/-! ## Finishing -/

theorem cell?_finish {t : Table} (ht : t.Rectangular) {steps : List FinishStep}
    (hlocal : ∀ s ∈ steps, s.Local) {name : String} (hname : name ∉ relativeColumns.map (·.1))
    (k : Nat) : (t.finish steps).cell? k name = t.cell? k name := by
  rw [finish]
  induction steps generalizing t with
  | nil => rfl
  | cons s steps ih =>
    obtain ⟨hs, hsteps⟩ := List.forall_mem_cons.mp hlocal
    rw [List.foldl_cons, ih (ht.apply s) hsteps]
    cases s with
    | distinct | cap => exact absurd hs id
    | anchor => exact cell?_arrange ht _ k name
    | relative totals => exact cell?_insertRelatives ht totals hname k

theorem ofCells_finishRow {columns : List String} {row : List Value}
    (hrow : row.length = columns.length) {steps : List FinishStep} (hlocal : ∀ s ∈ steps, s.Local)
    {name : String} (hname : name ∉ relativeColumns.map (·.1)) (rows : List (List Value)) :
    Row.ofCells (finish ⟨columns, rows⟩ steps).columns (finishRow columns steps row) name
      = Row.ofCells columns row name := by
  have hrectangular : Rectangular ⟨columns, [row]⟩ := by
    intro other hother
    rwa [List.mem_singleton.mp hother]
  have hcell := cell?_finish hrectangular hlocal hname 0
  rw [cell?_eq_ofCells, cell?_eq_ofCells, rows_finish hlocal] at hcell
  rw [columns_finish hlocal columns rows [row]]
  exact hcell

/-- **Finishing.** Steps that look at one row at a time keep what identifies each row. -/
theorem identity_finish {t : Table} (ht : t.Rectangular) {steps : List FinishStep}
    (hlocal : ∀ s ∈ steps, s.Local) (k : Nat) : (t.finish steps).identity k = t.identity k := by
  have hkey : ∀ name ∈ rowKey, name ∉ relativeColumns.map (·.1) := by decide
  have hcell : ∀ name ∈ rowKey, (t.finish steps).cellText k name = t.cellText k name := by
    intro name hname
    rw [cellText, cellText, cell?_finish ht hlocal (hkey name hname)]
  rw [identity, identity, hcell "lemma" (by decide), hcell "form" (by decide),
    hcell "pos" (by decide), hcell "feats" (by decide)]

/-! ## Sequences -/

/-- What identifies the rows, from top to bottom. -/
def sequence (t : Table) : List RowIdentity := (List.range t.rows.length).map t.identity

/-- The text of a row under a name; a missing one is empty. -/
def rowText (columns : List String) (row : List Value) (name : String) : String :=
  ((Row.ofCells columns row name).bind (·.asText?)).getD ""

/-- What identifies a row on its own. -/
def rowIdentity (columns : List String) (row : List Value) : RowIdentity :=
  ⟨rowText columns row "lemma", rowText columns row "form", rowText columns row "pos",
    rowText columns row "feats"⟩

theorem sequence_eq (t : Table) : t.sequence = t.rows.map (rowIdentity t.columns) := by
  refine List.ext_getElem (by simp [sequence]) fun k hk hk' ↦ ?_
  have hlt : k < t.rows.length := by simpa using hk'
  have htext (name : String) : t.cellText k name = rowText t.columns t.rows[k] name := by
    rw [cellText, cell?_eq_ofCells, List.getElem?_eq_getElem hlt, Option.bind_some]
    rfl
  simp [sequence, identity, rowIdentity, htext]

theorem sequence_finish {t : Table} (ht : t.Rectangular) {steps : List FinishStep}
    (hlocal : ∀ s ∈ steps, s.Local) : (t.finish steps).sequence = t.sequence := by
  have hlength : (t.finish steps).rows.length = t.rows.length := by
    rw [rows_finish hlocal t.columns t.rows, List.length_map]
  rw [sequence, sequence, hlength]
  exact List.map_congr_left fun k _ ↦ identity_finish ht hlocal k

end CorpusQuery.Table

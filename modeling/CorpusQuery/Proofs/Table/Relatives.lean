import CorpusQuery.Proofs.Table.Anchoring
import CorpusQuery.Proofs.Table.Processing

/-!
# Relative columns behind absolute ones

Relative columns are inserted one after the other, and each insertion moves the columns behind it.
What five of them come to does not depend on where the columns are: every column gives way to itself
and the relative column that is measured on it, if there is one and the table lacks it. A table with
columns put in place of columns is an `Expansion`, and two expansions in turn are one.

A step is such an expansion because the names of the columns are different, so that there is one
place to insert at. The steps add up to one because no relative column is an absolute one, and no
column has two relative ones: a later step finds the columns of an earlier one as it left them.

## Main statements

* `Table.insertRelatives_eq_expand`: all relative columns at once.
* `Table.insertRelatives_places_relatives`: where they stand, what they hold and what is kept.
-/

namespace CorpusQuery.Table

/-! ## Columns in place of columns -/

/-- What columns and their cells give way to. Which columns come does not depend on the cells. -/
structure Expansion where
  /-- The columns that come in place of a column. -/
  names : String → List String
  /-- The cells, with the names of their columns, that come in place of a cell. -/
  cells : String × Value → List (String × Value)
  map_fst_cells : ∀ b, (cells b).map Prod.fst = names b.1

/-- A table with its columns replaced. -/
def expand (t : Table) (e : Expansion) : Table where
  columns := t.columns.flatMap e.names
  rows := t.rows.map fun row ↦ ((t.columns.zip row).flatMap e.cells).map Prod.snd

/-- The columns whose names satisfy `p`. -/
def restrict (t : Table) (p : String → Bool) : Table where
  columns := t.columns.filter p
  rows := t.rows.map fun row ↦ ((t.columns.zip row).filter (p ·.1)).map Prod.snd

namespace Expansion

/-- One expansion and then another one. -/
def comp (e e' : Expansion) : Expansion where
  names c := (e'.names c).flatMap e.names
  cells b := (e'.cells b).flatMap e.cells
  map_fst_cells b := by
    rw [← e'.map_fst_cells, List.map_flatMap, List.flatMap_map]
    exact List.flatMap_congr fun c _ ↦ e.map_fst_cells c

theorem cells_comp (e e' : Expansion) (b : String × Value) :
    (e.comp e').cells b = (e'.cells b).flatMap e.cells := rfl

variable (e : Expansion) {columns : List String} {row : List Value}

theorem zip_flatMap (h : row.length = columns.length) :
    (columns.flatMap e.names).zip (((columns.zip row).flatMap e.cells).map Prod.snd)
      = (columns.zip row).flatMap e.cells := by
  refine (List.zip_of_prod ?_ rfl).symm
  rw [List.map_flatMap, List.flatMap_congr fun b _ ↦ e.map_fst_cells b,
    ← List.flatMap_map Prod.fst e.names, List.map_fst_zip h.ge]

end Expansion

variable {t : Table} {e e' : Expansion}

theorem expand_congr (h : ∀ b, b.1 ∈ t.columns → e.cells b = e'.cells b) :
    t.expand e = t.expand e' := by
  have hnames : ∀ c ∈ t.columns, e.names c = e'.names c := by
    intro c hc
    rw [← e.map_fst_cells (c, .null), ← e'.map_fst_cells (c, .null), h (c, .null) hc]
  have hrow (row : List Value) :
      (t.columns.zip row).flatMap e.cells = (t.columns.zip row).flatMap e'.cells :=
    List.flatMap_congr fun b hb ↦ h b (List.of_mem_zip hb).1
  rw [expand, expand, List.flatMap_congr hnames]
  simp only [hrow]

/-- **Two expansions** in turn are one. -/
theorem expand_expand (ht : t.Rectangular) : (t.expand e').expand e = t.expand (e.comp e') := by
  have hrow : ∀ row ∈ t.rows,
      (((t.columns.flatMap e'.names).zip
        (((t.columns.zip row).flatMap e'.cells).map Prod.snd)).flatMap e.cells).map Prod.snd
          = ((t.columns.zip row).flatMap (e.comp e').cells).map Prod.snd := by
    intro row hrow
    rw [e'.zip_flatMap (ht row hrow), List.flatMap_assoc, Expansion.comp]
  rw [expand, expand, expand, List.map_map, List.flatMap_assoc, Expansion.comp]
  exact congrArg _ (List.map_congr_left hrow)

theorem restrict_expand (ht : t.Rectangular) {p : String → Bool}
    (h : ∀ b, b.1 ∈ t.columns → (e.cells b).filter (p ·.1) = [b]) :
    (t.expand e).restrict p = t := by
  have hnames : ∀ c ∈ t.columns, (e.names c).filter p = [c] := by
    intro c hc
    rw [← e.map_fst_cells (c, .null), List.filter_map]
    exact congrArg (List.map Prod.fst) (h (c, .null) hc)
  have hrow : ∀ row ∈ t.rows,
      ((((t.columns.flatMap e.names).zip
        (((t.columns.zip row).flatMap e.cells).map Prod.snd)).filter (p ·.1)).map Prod.snd)
          = row := by
    intro row hrow
    have hcells : ∀ b ∈ t.columns.zip row, (e.cells b).filter (p ·.1) = [b] :=
      fun b hb ↦ h b (List.of_mem_zip hb).1
    rw [e.zip_flatMap (ht row hrow), List.filter_flatMap, List.flatMap_congr hcells,
      List.flatMap_singleton', List.map_snd_zip (ht row hrow).le]
  rw [expand, restrict]
  dsimp only
  rw [List.filter_flatMap, List.flatMap_congr hnames, List.flatMap_singleton', List.map_map]
  exact congrArg _ ((List.map_congr_left hrow).trans (List.map_id' _))

theorem expand_eq_self (ht : t.Rectangular) (h : ∀ b, b.1 ∈ t.columns → e.cells b = [b]) :
    t.expand e = t := by
  have hnames : ∀ c ∈ t.columns, e.names c = [c] := by
    intro c hc
    rw [← e.map_fst_cells (c, .null), h (c, .null) hc, List.map_singleton]
  have hrow : ∀ row ∈ t.rows, ((t.columns.zip row).flatMap e.cells).map Prod.snd = row := by
    intro row hrow
    rw [List.flatMap_congr fun b hb ↦ h b (List.of_mem_zip hb).1, List.flatMap_singleton',
      List.map_snd_zip (ht row hrow).le]
  rw [expand, List.flatMap_congr hnames, List.flatMap_singleton', List.map_congr_left hrow,
    List.map_id']

/-! ## One relative column -/

/-- The relative columns that are measured on a column and not there yet. -/
def relativesOf (pairs : List (String × String × TotalKind)) (known : List String) (c : String) :
    List (String × String × TotalKind) :=
  pairs.filter fun p ↦ p.2.1 == c && !known.contains p.1

/-- Every column with its relative ones behind it, as far as they are not there yet. -/
def relativesBehind (totals : Totals) (pairs : List (String × String × TotalKind))
    (known : List String) : Expansion where
  names c := c :: (relativesOf pairs known c).map (·.1)
  cells b := b :: (relativesOf pairs known b.1).map fun p ↦ (p.1, relativeCell totals p.2.2 b.2)
  map_fst_cells b := by
    rw [List.map_cons, List.map_map]
    rfl

theorem names_relativesBehind (totals : Totals) (pairs : List (String × String × TotalKind))
    (known : List String) (c : String) : (relativesBehind totals pairs known).names c
      = c :: (relativesOf pairs known c).map (·.1) := rfl

theorem cells_relativesBehind (totals : Totals) (pairs : List (String × String × TotalKind))
    (known : List String) (b : String × Value) : (relativesBehind totals pairs known).cells b
      = b :: (relativesOf pairs known b.1).map fun p ↦
        (p.1, relativeCell totals p.2.2 b.2) := rfl

section Pairs

variable {pairs : List (String × String × TotalKind)} {p : String × String × TotalKind}
  {known : List String} {c : String}

theorem measured_iff :
    (p.2.1 == c && !known.contains p.1) = true ↔ p.2.1 = c ∧ p.1 ∉ known := by
  rw [Bool.and_eq_true, beq_iff_eq, Bool.not_eq_true', ← Bool.not_eq_true, List.contains_iff_mem]

theorem mem_relativesOf : p ∈ relativesOf pairs known c ↔ p ∈ pairs ∧ p.2.1 = c ∧ p.1 ∉ known := by
  rw [relativesOf, List.mem_filter, measured_iff]

theorem relativesOf_eq_nil (h : ∀ p ∈ pairs, p.2.1 = c → p.1 ∈ known) :
    relativesOf pairs known c = [] := by
  rw [List.eq_nil_iff_forall_not_mem]
  intro p hp
  obtain ⟨hpair, habsolute, hnew⟩ := mem_relativesOf.mp hp
  exact hnew (h p hpair habsolute)

theorem relativesOf_cons_of_pos (h : p.2.1 = c) (hnew : p.1 ∉ known) :
    relativesOf (p :: pairs) known c = p :: relativesOf pairs known c :=
  List.filter_cons_of_pos (measured_iff.mpr ⟨h, hnew⟩)

theorem relativesOf_cons_of_neg (h : p.2.1 = c → p.1 ∈ known) :
    relativesOf (p :: pairs) known c = relativesOf pairs known c := by
  refine List.filter_cons_of_neg ?_
  rw [measured_iff]
  exact fun ⟨hc, hnew⟩ ↦ hnew (h hc)

end Pairs

section Insertion

variable {p : String × String × TotalKind} {i : ℕ}

theorem relativesOf_singleton {known : List String} (hnew : p.1 ∉ known) (c : String) :
    relativesOf [p] known c = if c == p.2.1 then [p] else [] := by
  by_cases hc : p.2.1 = c
  · rw [relativesOf_cons_of_pos hc hnew, if_pos (beq_iff_eq.mpr hc.symm)]
    rfl
  · rw [relativesOf_cons_of_neg fun h ↦ absurd h hc, if_neg fun h ↦ hc (beq_iff_eq.mp h).symm]
    rfl

theorem insertIdx_columns (ht : t.Tidy) (totals : Totals) (hnew : p.1 ∉ t.columns)
    (hindex : t.columnIndex? p.2.1 = some i) (hi : i < t.columns.length) :
    t.columns.insertIdx (i + 1) p.1
      = t.columns.flatMap (relativesBehind totals [p] t.columns).names := by
  have hnames : t.columns.map id = t.columns := List.map_id _
  have hinsert := insertIdx_eq_flatMap id (fun _ ↦ p.1) (by rw [hnames]; exact ht.nodup)
    (by rw [hnames]; exact hindex) hi
  rw [hinsert]
  refine List.flatMap_congr fun c _ ↦ ?_
  rw [names_relativesBehind, relativesOf_singleton hnew, id]
  split <;> rfl

theorem insertIdx_row (ht : t.Tidy) (totals : Totals) (hnew : p.1 ∉ t.columns)
    (hindex : t.columnIndex? p.2.1 = some i) (hi : i < t.columns.length) {row : List Value}
    (hlength : row.length = t.columns.length) :
    row.insertIdx (i + 1) (relativeCell totals p.2.2 (cellAt i row))
      = ((t.columns.zip row).flatMap (relativesBehind totals [p] t.columns).cells).map
        Prod.snd := by
  have hnames : (t.columns.zip row).map Prod.fst = t.columns := List.map_fst_zip hlength.ge
  have hzip : i < (t.columns.zip row).length := by rwa [List.length_zip, hlength, Nat.min_self]
  have hcell : cellAt i row = (t.columns.zip row)[i].2 := by
    rw [List.getElem_zip, cellAt, List.getElem?_eq_getElem (hlength ▸ hi), Option.getD_some]
  have hinsert := insertIdx_eq_flatMap Prod.fst
    (fun b : String × Value ↦ (p.1, relativeCell totals p.2.2 b.2))
    (by rw [hnames]; exact ht.nodup) (by rw [hnames]; exact hindex) hzip
  have hcells : ∀ b ∈ t.columns.zip row, (relativesBehind totals [p] t.columns).cells b
      = if b.1 == p.2.1 then [b, (p.1, relativeCell totals p.2.2 b.2)] else [b] := by
    intro b _
    rw [cells_relativesBehind, relativesOf_singleton hnew]
    split <;> rfl
  rw [List.flatMap_congr hcells, ← hinsert, List.map_insertIdx, List.map_snd_zip hlength.le,
    hcell]

theorem insertRelative_eq_expand (ht : t.Tidy) (totals : Totals)
    (p : String × String × TotalKind) :
    insertRelative totals t p.1 p.2.1 p.2.2 = t.expand (relativesBehind totals [p] t.columns) := by
  rw [insertRelative.eq_def]
  split
  case h_1 i hnew hindex =>
    have habsent : p.1 ∉ t.columns := mt hasColumn_iff.mpr (Bool.eq_false_iff.mp hnew)
    obtain ⟨hi, -, -⟩ := List.idxOf?_eq_some_iff.mp hindex
    have hrow : ∀ row ∈ t.rows, _ := fun row hrow ↦
      insertIdx_row ht totals habsent hindex hi (ht.rectangular row hrow)
    rw [insertColumn, insertCells_map, Nat.min_eq_left hi,
      insertIdx_columns ht totals habsent hindex hi, List.map_congr_left hrow]
    rfl
  case h_2 hnone =>
    refine (expand_eq_self ht.rectangular fun b hb ↦ ?_).symm
    have hpresent : ∀ q ∈ [p], q.2.1 = b.1 → q.1 ∈ t.columns := by
      intro q hq habsolute
      obtain rfl := List.mem_singleton.mp hq
      by_contra hnew
      obtain ⟨i, hi⟩ := exists_columnIndex?_of_mem (habsolute ▸ hb : q.2.1 ∈ t.columns)
      exact hnone i (Bool.eq_false_iff.mpr (mt hasColumn_iff.mp hnew)) hi
    rw [cells_relativesBehind, relativesOf_eq_nil hpresent, List.map_nil]

end Insertion

/-! ## All relative columns -/

/-- Insertions that leave each other alone: another column comes in, behind another one, and not
behind the one that came in before. -/
def Apart (p q : String × String × TotalKind) : Prop :=
  p.1 ≠ q.1 ∧ p.2.1 ≠ q.2.1 ∧ p.1 ≠ q.2.1

theorem relativesBehind_congr {pairs : List (String × String × TotalKind)}
    {known known' : List String} (totals : Totals)
    (h : ∀ c, relativesOf pairs known c = relativesOf pairs known' c) :
    relativesBehind totals pairs known = relativesBehind totals pairs known' := by
  simp only [relativesBehind, h]

/-- The columns behind a column and those behind what came in there. -/
theorem cells_comp_relativesBehind {q : String × String × TotalKind}
    {pairs : List (String × String × TotalKind)} (hq : ∀ p ∈ pairs, Apart q p) (totals : Totals)
    (known : List String) (b : String × Value) :
    ((relativesBehind totals pairs known).comp (relativesBehind totals [q] known)).cells b
      = (relativesBehind totals (q :: pairs) known).cells b := by
  rw [Expansion.cells_comp, cells_relativesBehind, cells_relativesBehind, List.flatMap_cons,
    cells_relativesBehind]
  by_cases hb : q.2.1 = b.1 ∧ q.1 ∉ known
  · have hnone : relativesOf pairs known b.1 = [] :=
      relativesOf_eq_nil fun p hp hpb ↦ absurd (hb.1.trans hpb.symm) (hq p hp).2.1
    have hnone' : relativesOf pairs known q.1 = [] :=
      relativesOf_eq_nil fun p hp hpq ↦ absurd hpq.symm (hq p hp).2.2
    rw [relativesOf_cons_of_pos hb.1 hb.2, relativesOf_cons_of_pos hb.1 hb.2, hnone,
      relativesOf_eq_nil fun _ h ↦ absurd h List.not_mem_nil, List.map_singleton,
      List.flatMap_singleton, cells_relativesBehind, hnone']
    rfl
  · have hpresent : q.2.1 = b.1 → q.1 ∈ known := fun h ↦ by_contra fun hnew ↦ hb ⟨h, hnew⟩
    rw [relativesOf_cons_of_neg hpresent, relativesOf_cons_of_neg hpresent,
      relativesOf_eq_nil fun _ h ↦ absurd h List.not_mem_nil, List.map_nil, List.flatMap_nil,
      List.append_nil]

/-- **Insertions in turn** are one expansion of the table there was. -/
theorem foldl_insertRelative_eq_expand {pairs : List (String × String × TotalKind)} (ht : t.Tidy)
    (totals : Totals) (h : pairs.Pairwise Apart) :
    pairs.foldl (fun t p ↦ insertRelative totals t p.1 p.2.1 p.2.2) t
      = t.expand (relativesBehind totals pairs t.columns) := by
  induction pairs generalizing t with
  | nil => exact (expand_eq_self ht.rectangular fun b _ ↦ rfl).symm
  | cons q pairs ih =>
    obtain ⟨hq, hpairs⟩ := List.pairwise_cons.mp h
    -- The later steps find the same relative columns missing.
    have hknown (c : String) :
        relativesOf pairs (insertRelative totals t q.1 q.2.1 q.2.2).columns c
          = relativesOf pairs t.columns c := by
      refine List.filter_congr fun p hp ↦ ?_
      rcases insertRelative_eq_self_or totals q.1 q.2.1 q.2.2 t with hself | ⟨-, hperm⟩
      · rw [hself]
      · have hne : p.1 ≠ q.1 := (hq p hp).1.symm
        rw [hperm.contains_eq, List.contains_cons, beq_eq_false_iff_ne.mpr hne, Bool.false_or]
    calc pairs.foldl (fun t p ↦ insertRelative totals t p.1 p.2.1 p.2.2)
          (insertRelative totals t q.1 q.2.1 q.2.2)
        = (insertRelative totals t q.1 q.2.1 q.2.2).expand
            (relativesBehind totals pairs t.columns) := by
          rw [ih (ht.insertRelative totals q.1 q.2.1 q.2.2) hpairs,
            relativesBehind_congr totals hknown]
      _ = (t.expand (relativesBehind totals [q] t.columns)).expand
            (relativesBehind totals pairs t.columns) := by
          rw [insertRelative_eq_expand ht]
      _ = t.expand (relativesBehind totals (q :: pairs) t.columns) := by
          rw [expand_expand ht.rectangular]
          exact expand_congr fun b _ ↦ cells_comp_relativesBehind hq totals t.columns b

theorem pairwise_relativeColumns : relativeColumns.Pairwise Apart := by
  unfold Apart
  decide

/-- **All relative columns** come in at once. -/
theorem insertRelatives_eq_expand (ht : t.Tidy) (totals : Totals) :
    t.insertRelatives totals = t.expand (relativesBehind totals relativeColumns t.columns) :=
  foldl_insertRelative_eq_expand ht totals pairwise_relativeColumns

/-! ## What the insertions do -/

theorem ofCells_of_mem_zip {columns : List String} {row : List Value} (hnodup : columns.Nodup)
    {c : String} {v : Value} (h : (c, v) ∈ columns.zip row) :
    Row.ofCells columns row c = some v := by
  induction columns generalizing row with
  | nil => exact absurd h List.not_mem_nil
  | cons column columns ih =>
    rcases row with _ | ⟨w, row⟩
    · exact absurd h List.not_mem_nil
    · obtain ⟨hcolumn, hnodup⟩ := List.nodup_cons.mp hnodup
      rw [ofCells_cons]
      rcases List.mem_cons.mp h with heq | hmem
      · obtain ⟨rfl, rfl⟩ := Prod.mk.inj heq
        rw [if_pos (beq_self_eq_true _)]
      · have hne : ¬(column == c) = true := by
          rw [beq_iff_eq]
          rintro rfl
          exact hcolumn (List.of_mem_zip hmem).1
        rw [if_neg hne, ih hnodup hmem]

theorem mem_zip_of_ofCells {columns : List String} {row : List Value} {c : String} {v : Value}
    (h : Row.ofCells columns row c = some v) : (c, v) ∈ columns.zip row := by
  obtain ⟨i, hindex, hi⟩ := Option.bind_eq_some_iff.mp h
  obtain ⟨hlt, hname, -⟩ := List.idxOf?_eq_some_iff.mp hindex
  obtain ⟨hlt', hcell⟩ := List.getElem?_eq_some_iff.mp hi
  have hzip : i < (columns.zip row).length := by
    rw [List.length_zip]
    exact Nat.lt_min.mpr ⟨hlt, hlt'⟩
  rw [← hname, ← hcell, ← List.getElem_zip (h := hzip)]
  exact List.getElem_mem hzip

theorem cell?_expand (ht : t.Rectangular) (hnodup : (t.expand e).columns.Nodup) {k : ℕ}
    {c c' : String} {v w : Value} (hcell : t.cell? k c = some v) (h : (c', w) ∈ e.cells (c, v)) :
    (t.expand e).cell? k c' = some w := by
  rw [cell?_eq_ofCells] at hcell ⊢
  obtain ⟨row, hrow, hv⟩ := Option.bind_eq_some_iff.mp hcell
  have hzip := e.zip_flatMap (ht row (List.mem_of_getElem? hrow))
  have hmem : (c', w) ∈ (t.columns.zip row).flatMap e.cells :=
    List.mem_flatMap.mpr ⟨_, mem_zip_of_ofCells hv, h⟩
  rw [← hzip] at hmem
  rw [expand, List.getElem?_map, hrow, Option.map_some, Option.bind_some]
  exact ofCells_of_mem_zip hnodup hmem

theorem relativesOf_relativeColumns {p : String × String × TotalKind} (hp : p ∈ relativeColumns)
    {known : List String} (hnew : p.1 ∉ known) : relativesOf relativeColumns known p.2.1 = [p] := by
  have hone : relativeColumns.filter (·.2.1 == p.2.1) = [p] := by
    clear hnew
    revert p
    decide
  have hsplit : relativesOf relativeColumns known p.2.1
      = (relativeColumns.filter (·.2.1 == p.2.1)).filter (!known.contains ·.1) := by
    rw [List.filter_filter, relativesOf]
    simp only [Bool.and_comm]
  rw [hsplit, hone]
  refine List.filter_cons_of_pos ?_
  rwa [Bool.not_eq_true', ← Bool.not_eq_true, List.contains_iff_mem]

theorem mem_columns_insertRelatives (ht : t.Tidy) (totals : Totals) {c : String} :
    c ∈ (t.insertRelatives totals).columns
      ↔ c ∈ t.columns ∨ ∃ p ∈ relativeColumns, p.1 = c ∧ p.2.1 ∈ t.columns := by
  rw [insertRelatives_eq_expand ht, expand, List.mem_flatMap]
  simp only [names_relativesBehind, List.mem_cons, List.mem_map, mem_relativesOf]
  constructor
  · rintro ⟨d, hd, rfl | ⟨p, ⟨hp, rfl, -⟩, rfl⟩⟩
    · exact .inl hd
    · exact .inr ⟨p, hp, rfl, hd⟩
  · rintro (hc | ⟨p, hp, rfl, habsolute⟩)
    · exact ⟨c, hc, .inl rfl⟩
    · by_cases hpresent : p.1 ∈ t.columns
      · exact ⟨p.1, hpresent, .inl rfl⟩
      · exact ⟨p.2.1, habsolute, .inr ⟨p, ⟨hp, rfl, hpresent⟩, rfl⟩⟩

theorem insertRelatives_insertRelatives (ht : t.Tidy) (totals : Totals) :
    (t.insertRelatives totals).insertRelatives totals = t.insertRelatives totals := by
  have htidy := (tidy_and_drawnFrom_insertRelatives ht totals).1
  rw [insertRelatives_eq_expand htidy]
  refine expand_eq_self htidy.rectangular fun b hb ↦ ?_
  have hdistinct : ∀ p ∈ relativeColumns, ∀ q ∈ relativeColumns, q.1 ≠ p.2.1 := by decide
  have hpresent : ∀ p ∈ relativeColumns,
      p.2.1 = b.1 → p.1 ∈ (t.insertRelatives totals).columns := by
    intro p hp habsolute
    rw [← habsolute] at hb
    rcases (mem_columns_insertRelatives ht totals).mp hb with hc | ⟨q, hq, hqp, -⟩
    · exact (mem_columns_insertRelatives ht totals).mpr (.inr ⟨p, hp, rfl, hc⟩)
    · exact absurd hqp (hdistinct p hp q hq)
  rw [cells_relativesBehind, relativesOf_eq_nil hpresent, List.map_nil]

theorem restrict_insertRelatives (ht : t.Tidy) (totals : Totals) {p : String → Bool}
    (hp : ∀ c, p c = true ↔ c ∈ t.columns) : (t.insertRelatives totals).restrict p = t := by
  rw [insertRelatives_eq_expand ht]
  refine restrict_expand ht.rectangular fun b hb ↦ ?_
  have hnew : ((relativesOf relativeColumns t.columns b.1).map fun q ↦
      (q.1, relativeCell totals q.2.2 b.2)).filter (p ·.1) = [] := by
    rw [List.filter_eq_nil_iff]
    intro c hc hknown
    obtain ⟨q, hq, rfl⟩ := List.mem_map.mp hc
    exact (mem_relativesOf.mp hq).2.2 ((hp q.1).mp hknown)
  rw [cells_relativesBehind, List.filter_cons, if_pos ((hp b.1).mpr hb), hnew]

/-- **Relative columns.** Let the columns of a table have different names. Each relative column that
the table lacks, and whose absolute column it has, comes to stand right behind that column, and
holds the relative counts of its cells: none where a cell is no number. No other columns come in,
and names stay different. Without the columns that came in the table is what it was, cell by cell,
and so is a table that was anchored before. A second time nothing comes in. -/
theorem insertRelatives_places_relatives (ht : t.Rectangular) (hnodup : t.columns.Nodup)
    (totals : Totals) :
    let pairs := [("relfrequency", "frequency", TotalKind.frequency),
      ("rellemmafreq", "lemmafreq", .lemmaFrequency),
      ("relinitgramfreq", "initgramfreq", .initGram),
      ("relfingramfreq", "fingramfreq", .finGram), ("relbigramfreq", "bigramfreq", .bigram)]
    let t' := t.insertRelatives totals
    (∀ p ∈ pairs, p.2.1 ∈ t.columns → p.1 ∉ t.columns →
        [p.2.1, p.1] <:+: t'.columns ∧ ∀ k < t.rows.length, ∃ v, t.cell? k p.2.1 = some v ∧
          t'.cell? k p.1 = some (match v.toNumber? with
            | some x => .real (totals.toRelative p.2.2 x)
            | none => .null)) ∧
      t'.columns.Nodup ∧
      (∀ c, c ∈ t'.columns ↔ c ∈ t.columns ∨ ∃ p ∈ pairs, p.1 = c ∧ p.2.1 ∈ t.columns) ∧
      t'.restrict (· ∈ t.columns) = t ∧
      t'.insertRelatives totals = t' ∧
      (t.anchorColumns.insertRelatives totals).restrict (· ∈ t.columns) = t.anchorColumns := by
  intro pairs t'
  have htidy : t.Tidy := ⟨ht, hnodup⟩
  have htidy' : t'.Tidy := (tidy_and_drawnFrom_insertRelatives htidy totals).1
  have hexpand : t' = t.expand (relativesBehind totals relativeColumns t.columns) :=
    insertRelatives_eq_expand htidy totals
  refine ⟨fun p hp habsolute hnew ↦ ⟨?_, fun k hk ↦ ?_⟩, htidy'.nodup,
    fun c ↦ mem_columns_insertRelatives htidy totals,
    restrict_insertRelatives htidy totals fun c ↦ decide_eq_true_iff,
    insertRelatives_insertRelatives htidy totals,
    restrict_insertRelatives htidy.anchorColumns totals fun c ↦ ?_⟩
  · have hbehind := List.infix_flatMap_of_mem habsolute
      (relativesBehind totals relativeColumns t.columns).names
    rw [names_relativesBehind, relativesOf_relativeColumns hp hnew] at hbehind
    rwa [hexpand]
  · obtain ⟨v, hv⟩ := ht.exists_cell? ⟨k, hk⟩ habsolute
    refine ⟨v, hv, ?_⟩
    rw [hexpand] at htidy' ⊢
    refine cell?_expand ht htidy'.nodup hv (List.mem_cons_of_mem _ ?_)
    rw [relativesOf_relativeColumns hp hnew]
    exact List.mem_singleton_self _
  · rw [decide_eq_true_iff]
    exact (perm_columns_anchorColumns hnodup).mem_iff.symm

/-- One relative column is missing, one is there, and one could not be computed. -/
def partlyRelative : Table where
  columns := ["bigramfreq", "form", "relfrequency", "lemmafreq", "frequency"]
  rows := [[.int 20, .text "sanoja", .real 7.5, .text "a", .int 50],
    [.null, .text "talo", .null, .text "12", .int 90]]

theorem insertRelatives_places_relatives_partlyRelative :
    partlyRelative.Rectangular ∧ partlyRelative.columns.Nodup ∧
      (partlyRelative.insertRelatives {}).columns
        = ["bigramfreq", "relbigramfreq", "form", "relfrequency", "lemmafreq", "rellemmafreq",
          "frequency"] ∧
      ["bigramfreq", "relbigramfreq"] <:+: (partlyRelative.insertRelatives {}).columns ∧
      (partlyRelative.insertRelatives {}).cell? 1 "relbigramfreq" = some .null ∧
      (partlyRelative.insertRelatives {}).restrict (· ∈ partlyRelative.columns)
        = partlyRelative := by
  have hrectangular : partlyRelative.Rectangular := by decide
  have hnodup : partlyRelative.columns.Nodup := by decide
  obtain ⟨hplaced, -, -, hrestrict, -⟩ := insertRelatives_places_relatives hrectangular hnodup {}
  obtain ⟨hbehind, hcells⟩ :=
    hplaced ("relbigramfreq", "bigramfreq", .bigram) (by decide) (by decide) (by decide)
  obtain ⟨v, hv, hcell⟩ := hcells 1 (by decide)
  obtain rfl : v = .null := (Option.some.inj hv).symm
  exact ⟨hrectangular, hnodup, by decide, hbehind, hcell, hrestrict⟩

end CorpusQuery.Table

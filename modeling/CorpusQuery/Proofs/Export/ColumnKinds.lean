import CorpusQuery.Proofs.Export.Opening
import CorpusQuery.Proofs.Text.Trimming
import Mathlib.Data.List.Perm.Basic
import Mathlib.Data.List.TakeWhile
import Mathlib.Order.Nat

/-!
# The kind of a column

Kinds form a chain: a blank cell says nothing, whole numbers are among the real ones, and everything
can be kept as text. Merging two kinds takes the wider one, so the kind of a column is the widest
among its cells. It does not matter in which order the cells come or which of them are merged first.

A cell is read by the widest kind and not by its own. This is safe because kinds of cells widen too:
whatever reads as a whole number reads as a real one, with the same sign and digits. So no cell that
the kind was found from falls back to text in a column of numbers. Cells of white space only count
as blank, but in a column of texts they keep their text: only an empty cell is missing there.

## Main statements

* `Kind.width_merge`: merging takes the wider of two kinds.
* `Kind.column_kind_sound`: the kind of a column, and how its cells are read.
-/

namespace CorpusQuery

/-! ## Whole numbers are real numbers -/

namespace Number

theorem isDigits_iff {cs : List Char} :
    isDigits cs = true ↔ cs ≠ [] ∧ ∀ c ∈ cs, c.isDigit = true := by
  rw [isDigits, Bool.and_eq_true, Bool.not_eq_true', List.isEmpty_eq_false_iff, List.all_eq_true]

theorem readScaled?_of_isDigits {cs : List Char} (h : isDigits cs = true) :
    readScaled? cs = some (ofDigits cs, 0) := by
  obtain ⟨hne, hdigits⟩ := isDigits_iff.mp h
  have hwhole : cs.takeWhile Char.isDigit = cs := List.takeWhile_eq_self_iff.mpr hdigits
  have hrest : cs.dropWhile Char.isDigit = [] := List.dropWhile_eq_nil_iff.mpr hdigits
  have hnonempty : cs.isEmpty = false := List.isEmpty_eq_false_iff.mpr hne
  rw [readScaled?, hwhole, hrest]
  simp [hnonempty, readExponent?]

/-- **Whole numbers.** A text that reads as a whole number reads as a decimal. -/
theorem isSome_readFloat?_of_readInt64? {cs : List Char} (h : (readInt64? cs).isSome = true) :
    (readFloat? cs).isSome = true := by
  have hdigits : isDigits (splitSign cs).2 = true := by
    rw [readInt64?, readInt?] at h
    dsimp only at h
    split at h
    · assumption
    · cases h
  rw [readFloat?]
  dsimp only
  rw [Option.isSome_map]
  split
  · rfl
  · split
    · rfl
    · rw [readScaled?_of_isDigits hdigits]
      rfl

end Number

namespace Kind

/-! ## The chain of kinds -/

/-- The place of a kind in the chain. -/
def width : Kind → ℕ
  | .null => 0
  | .int => 1
  | .real => 2
  | .text => 3

theorem width_injective : Function.Injective width := by
  intro k k' h
  cases k <;> cases k' <;> simp [width] at h ⊢

/-- **Merging** takes the wider kind. -/
theorem width_merge (k k' : Kind) : (k.merge k').width = max k.width k'.width := by
  cases k <;> cases k' <;> rfl

instance : Std.Commutative merge :=
  ⟨fun k k' ↦ width_injective (by rw [width_merge, width_merge, max_comm])⟩

instance : Std.Associative merge :=
  ⟨fun k k' k'' ↦ width_injective (by simp only [width_merge, max_assoc])⟩

theorem merge_null (k : Kind) : k.merge .null = k := by
  cases k <;> rfl

/-! ## The widest kind -/

variable {cell : String} {cells : List String}

theorem foldl_merge_eq (k : Kind) (ks : List Kind) :
    ks.foldl merge k = k.merge (ks.foldl merge .null) := by
  calc ks.foldl merge k
      = ks.foldl merge (k.merge .null) := by rw [merge_null]
    _ = k.merge (ks.foldl merge .null) := List.foldl_assoc

theorem ofCells_cons (cell : String) (cells : List String) :
    ofCells (cell :: cells) = (ofCell cell).merge (ofCells cells) :=
  foldl_merge_eq (ofCell cell) (cells.map ofCell)

theorem ofCells_append (xs ys : List String) :
    ofCells (xs ++ ys) = (ofCells xs).merge (ofCells ys) := by
  rw [ofCells, List.map_append, List.foldl_append, foldl_merge_eq]
  rfl

theorem ofCells_flatten (parts : List (List String)) :
    ofCells parts.flatten = (parts.map ofCells).foldl merge .null := by
  induction parts with
  | nil => rfl
  | cons part parts ih =>
    rw [List.flatten_cons, ofCells_append, ih, List.map_cons, List.foldl_cons]
    exact (foldl_merge_eq (ofCells part) _).symm

theorem ofCells_eq_of_perm {xs ys : List String} (h : xs.Perm ys) : ofCells xs = ofCells ys :=
  (h.map ofCell).foldl_op_eq

theorem width_ofCell_le (h : cell ∈ cells) : (ofCell cell).width ≤ (ofCells cells).width := by
  induction cells with
  | nil => cases h
  | cons other cells ih =>
    rw [ofCells_cons, width_merge]
    rcases List.mem_cons.mp h with rfl | h
    · exact le_max_left _ _
    · exact (ih h).trans (le_max_right _ _)

theorem exists_ofCell_eq (h : ofCells cells ≠ .null) :
    ∃ cell ∈ cells, ofCell cell = ofCells cells := by
  induction cells with
  | nil => exact absurd rfl h
  | cons other cells ih =>
    rw [ofCells_cons] at h ⊢
    rcases le_total (ofCells cells).width (ofCell other).width with hle | hle
    · refine ⟨other, List.mem_cons_self, width_injective ?_⟩
      rw [width_merge, max_eq_left hle]
    · have hrest : (ofCell other).merge (ofCells cells) = ofCells cells :=
        width_injective (by rw [width_merge, max_eq_right hle])
      rw [hrest] at h ⊢
      obtain ⟨cell, hcell, heq⟩ := ih h
      exact ⟨cell, List.mem_cons_of_mem _ hcell, heq⟩

/-! ## Single cells -/

/-- A cell of white space only. -/
def IsBlank (cell : String) : Prop := ∀ c ∈ cell.toList, Text.isBlank c = true

theorem isBlank_iff : IsBlank cell ↔ Text.trimChars cell.toList = [] :=
  Text.trimChars_eq_nil_iff.symm

/-- **The kind of a cell.** -/
theorem ofCell_cases (cell : String) :
    (IsBlank cell ∧ ofCell cell = .null) ∨
    (¬IsBlank cell ∧ (∃ n, Number.readInt64? (Text.trimChars cell.toList) = some n) ∧
      ofCell cell = .int) ∨
    (¬IsBlank cell ∧ (∃ x, (Value.text cell).toNumber? = some x) ∧ ofCell cell = .real) ∨
    (¬IsBlank cell ∧ (Value.text cell).toNumber? = none ∧ ofCell cell = .text) := by
  rw [isBlank_iff, ofCell, Value.toNumber?]
  generalize Text.trimChars cell.toList = cs
  cases cs with
  | nil => exact .inl ⟨rfl, rfl⟩
  | cons c cs =>
    refine .inr ?_
    rw [List.isEmpty_cons, if_neg Bool.false_ne_true]
    cases hwhole : Number.readInt64? (c :: cs) with
    | some n => exact .inl ⟨List.cons_ne_nil _ _, ⟨n, rfl⟩, rfl⟩
    | none =>
      refine .inr ?_
      cases hreal : Number.readFloat? (c :: cs) with
      | some x => exact .inl ⟨List.cons_ne_nil _ _, ⟨x, rfl⟩, rfl⟩
      | none => exact .inr ⟨List.cons_ne_nil _ _, rfl, rfl⟩

theorem ofCell_eq_null_iff : ofCell cell = .null ↔ IsBlank cell := by
  rcases ofCell_cases cell with ⟨h, hk⟩ | ⟨h, -, hk⟩ | ⟨h, -, hk⟩ | ⟨h, -, hk⟩ <;> simp [h, hk]

theorem ofCell_eq_text_iff :
    ofCell cell = .text ↔ ¬IsBlank cell ∧ (Value.text cell).toNumber? = none := by
  rcases ofCell_cases cell with ⟨h, hk⟩ | ⟨h, ⟨n, hn⟩, hk⟩ | ⟨h, ⟨x, hx⟩, hk⟩ | ⟨h, hnone, hk⟩
  · simp [h, hk]
  · have hsome : (Value.text cell).toNumber?.isSome = true :=
      Number.isSome_readFloat?_of_readInt64? (Option.isSome_of_eq_some hn)
    rw [Option.isSome_iff_ne_none] at hsome
    simp [hk, hsome]
  · simp [hk, hx]
  · simp [h, hk, hnone]

/-! ## The kind of all cells -/

theorem ofCells_eq_text_iff : ofCells cells = .text ↔
    ∃ cell ∈ cells, ¬IsBlank cell ∧ (Value.text cell).toNumber? = none := by
  simp only [← ofCell_eq_text_iff]
  constructor
  · intro h
    have hne : ofCells cells ≠ .null := by
      rw [h]
      nofun
    obtain ⟨cell, hcell, heq⟩ := exists_ofCell_eq hne
    exact ⟨cell, hcell, heq.trans h⟩
  · rintro ⟨cell, hcell, htext⟩
    have hle := width_ofCell_le hcell
    rw [htext] at hle
    have hwidest (k : Kind) : k.width ≤ width .text := by cases k <;> decide
    exact width_injective (le_antisymm (hwidest _) hle)

theorem ofCells_eq_null_iff : ofCells cells = .null ↔ ∀ cell ∈ cells, IsBlank cell := by
  simp only [← ofCell_eq_null_iff]
  constructor
  · intro h cell hcell
    have hle := width_ofCell_le hcell
    rw [h] at hle
    exact width_injective (Nat.le_zero.mp hle)
  · intro h
    by_contra hne
    obtain ⟨cell, hcell, heq⟩ := exists_ofCell_eq hne
    exact hne (heq.symm.trans (h cell hcell))

/-! ## Reading by the widest kind -/

theorem readNumber_of_not_isBlank (h : ¬IsBlank cell) (read? : List Char → Option Value) :
    readNumber read? cell = (read? (Text.trimChars cell.toList)).getD (.text cell) := by
  rw [isBlank_iff] at h
  rw [readNumber]
  split
  · next hnil => exact absurd hnil h
  · rfl

theorem readCell_of_not_isBlank (k : Kind) (h : ¬IsBlank cell) : k.readCell cell = k.read cell := by
  refine if_neg fun hempty ↦ h ?_
  rw [String.isEmpty_iff.mp hempty]
  exact nofun

theorem readCell_of_isBlank {k : Kind} (hk : k.isNumeric = true) (h : IsBlank cell) :
    k.readCell cell = .null := by
  have hread (read? : List Char → Option Value) : readNumber read? cell = .null := by
    rw [readNumber, isBlank_iff.mp h]
  rw [readCell]
  split
  · rfl
  · cases k with
    | int | real => exact hread _
    | text | null => cases hk

theorem readCell_int (h : (ofCell cell).width ≤ width .int) :
    (IsBlank cell ∧ readCell .int cell = .null) ∨
      ∃ n, Number.readInt64? (Text.trimChars cell.toList) = some n ∧
        readCell .int cell = .int n := by
  rcases ofCell_cases cell with ⟨hblank, -⟩ | ⟨hblank, ⟨n, hn⟩, -⟩ | ⟨-, -, hk⟩ | ⟨-, -, hk⟩
  · exact .inl ⟨hblank, readCell_of_isBlank rfl hblank⟩
  · refine .inr ⟨n, hn, ?_⟩
    rw [readCell_of_not_isBlank .int hblank, read, readNumber_of_not_isBlank hblank, hn]
    rfl
  · rw [hk] at h
    simp [width] at h
  · rw [hk] at h
    simp [width] at h

theorem readCell_real (h : (ofCell cell).width ≤ width .real) :
    (IsBlank cell ∧ readCell .real cell = .null) ∨
      ∃ x, (Value.text cell).toNumber? = some x ∧ readCell .real cell = .real x := by
  have hread {x : Float} (hblank : ¬IsBlank cell) (hx : (Value.text cell).toNumber? = some x) :
      readCell .real cell = .real x := by
    rw [Value.toNumber?] at hx
    rw [readCell_of_not_isBlank .real hblank, read, readNumber_of_not_isBlank hblank, hx]
    rfl
  rcases ofCell_cases cell with
    ⟨hblank, -⟩ | ⟨hblank, ⟨n, hn⟩, -⟩ | ⟨hblank, ⟨x, hx⟩, -⟩ | ⟨-, -, hk⟩
  · exact .inl ⟨hblank, readCell_of_isBlank rfl hblank⟩
  · obtain ⟨x, hx⟩ := Option.isSome_iff_exists.mp
      (Number.isSome_readFloat?_of_readInt64? (Option.isSome_of_eq_some hn))
    exact .inr ⟨x, hx, hread hblank hx⟩
  · exact .inr ⟨x, hx, hread hblank hx⟩
  · rw [hk] at h
    simp [width] at h

/-- A cell that is no number is read as it is written, whatever the other cells of its column
are. -/
theorem readCell_of_ofCell_text (k : Kind) (h : ofCell cell = .text) :
    k.readCell cell = .text cell := by
  obtain ⟨hblank, hreal⟩ := ofCell_eq_text_iff.mp h
  rw [Value.toNumber?] at hreal
  have hwhole : Number.readInt64? (Text.trimChars cell.toList) = none := by
    by_contra hsome
    have := Number.isSome_readFloat?_of_readInt64? (Option.isSome_iff_ne_none.mpr hsome)
    rw [hreal] at this
    cases this
  rw [readCell_of_not_isBlank k hblank]
  cases k with
  | int =>
    rw [read, readNumber_of_not_isBlank hblank, hwhole]
    rfl
  | real =>
    rw [read, readNumber_of_not_isBlank hblank, hreal]
    rfl
  | text | null => rfl

/-- **The kind of a column.** The kind of a list of cells is the same for every order of the cells
and however they are split before their parts are merged. It is textual exactly if some cell is
neither blank nor a number, and there is none exactly if all cells are blank. Read by this kind,
with text standing for none, each of the cells is a whole number or missing in a column of whole
numbers, a number or missing in one of real numbers, and otherwise its own text unless it is empty.
The columns of an export are of the kinds of their cells in the sampled records. -/
theorem column_kind_sound :
    (∀ cells : List String,
      (∀ cells', cells'.Perm cells → ofCells cells' = ofCells cells) ∧
      (∀ parts : List (List String), parts.flatten = cells →
        (parts.map ofCells).foldl merge .null = ofCells cells) ∧
      (ofCells cells = .text ↔
        ∃ cell ∈ cells, ¬IsBlank cell ∧ (Value.text cell).toNumber? = none) ∧
      (ofCells cells = .null ↔ ∀ cell ∈ cells, IsBlank cell) ∧
      ∀ cell ∈ cells,
        (ofCells cells = .int →
          (IsBlank cell ∧ (Export.settleKind (ofCells cells)).readCell cell = .null) ∨
          ∃ n, Number.readInt64? (Text.trimChars cell.toList) = some n ∧
            (Export.settleKind (ofCells cells)).readCell cell = .int n) ∧
        (ofCells cells = .real →
          (IsBlank cell ∧ (Export.settleKind (ofCells cells)).readCell cell = .null) ∨
          ∃ x, (Value.text cell).toNumber? = some x ∧
            (Export.settleKind (ofCells cells)).readCell cell = .real x) ∧
        (ofCells cells = .text ∨ ofCells cells = .null →
          (Export.settleKind (ofCells cells)).readCell cell
            = if cell = "" then .null else .text cell)) ∧
    ∀ path format content e, Export.open? path format content = .ok e →
      ∃ bytes first, ∃ sampled : List (List String), content = some bytes ∧
        Export.firstRecord (RawRecord.ofBytes format.delimiter bytes) = .ok first ∧
        Export.sample format first (RawRecord.ofBytes format.delimiter bytes)
          = sampled.map .ok ∧
        ∀ c ∈ e.columns,
          c.kind = Export.settleKind (ofCells (sampled.filterMap (·[c.ordinal]?))) := by
  refine ⟨fun cells ↦ ⟨fun cells' h ↦ ofCells_eq_of_perm h, ?_, ofCells_eq_text_iff,
    ofCells_eq_null_iff, fun cell hcell ↦ ?_⟩,
    fun path format content e h ↦ Export.exists_kinds_of_open? h⟩
  · rintro parts rfl
    exact (ofCells_flatten parts).symm
  · have hle := width_ofCell_le hcell
    refine ⟨fun hint ↦ ?_, fun hreal ↦ ?_, fun htext ↦ ?_⟩
    · rw [hint] at hle ⊢
      exact readCell_int hle
    · rw [hreal] at hle ⊢
      exact readCell_real hle
    · have hsettled : Export.settleKind (ofCells cells) = .text := by
        rcases htext with h | h <;> rw [h] <;> rfl
      rw [hsettled, readCell]
      simp only [String.isEmpty_iff]
      rfl

/-- The records of a file with a column of shares: one of them looks whole and one is blank. -/
def sharesRecords : List (List String) := [["on", "12"], ["ja", " "], ["ei", "3.5"]]

def sharesExport : Export where
  path := "export.csv"
  format := {}
  records := RawRecord.ofBytes 44 "form,share\non,12\nja, \nei,3.5\n".toUTF8.data.toList
  columns := [⟨"form", .text, 0⟩, ⟨"share", .real, 1⟩]

theorem column_kind_sound_shares :
    Export.open? "export.csv" {} (some "form,share\non,12\nja, \nei,3.5\n".toUTF8.data.toList)
        = .ok sharesExport ∧
      (∀ c ∈ sharesExport.columns,
        c.kind = Export.settleKind (ofCells (sharesRecords.filterMap (·[c.ordinal]?)))) ∧
      ofCells ["3.5", "12", " "] = ofCells ["12", " ", "3.5"] ∧
      [ofCells ["12", " "], ofCells ["3.5"]].foldl merge .null = ofCells ["12", " ", "3.5"] ∧
      readCell .real " " = .null ∧ ∃ x, readCell .real "12" = .real x := by
  obtain ⟨hcells, hexport⟩ := column_kind_sound
  obtain ⟨horder, hparts, -, -, hread⟩ := hcells ["12", " ", "3.5"]
  have hkind : ofCells ["12", " ", "3.5"] = .real := by decide
  have hblank : readCell .real " " = .null := by
    have hcases := (hread " " (by simp)).2.1 hkind
    rw [hkind] at hcases
    rcases hcases with ⟨-, hnull⟩ | ⟨x, hx, -⟩
    · exact hnull
    · cases hx
  have hwhole : ∃ x, readCell .real "12" = .real x := by
    have hcases := (hread "12" (by simp)).2.1 hkind
    rw [hkind] at hcases
    rcases hcases with ⟨hwhite, -⟩ | ⟨x, -, hx⟩
    · exact absurd (hwhite '1' (by simp)) (by decide)
    · exact ⟨x, hx⟩
  have hopen : Export.open? "export.csv" {}
      (some "form,share\non,12\nja, \nei,3.5\n".toUTF8.data.toList) = .ok sharesExport := rfl
  obtain ⟨bytes, first, sampled, hbytes, hfirst, hsampled, hkinds⟩ := hexport _ _ _ _ hopen
  obtain rfl := Option.some.inj hbytes
  have hrecords : sharesRecords.map (Except.ok : List String → Except RecordError (List String))
      = sampled.map .ok := by
    obtain rfl : ["form", "share"] = first := Except.ok.inj hfirst
    exact hsampled
  rw [← List.map_injective_iff.mpr (fun _ _ ↦ Except.ok.inj) hrecords] at hkinds
  exact ⟨hopen, hkinds, horder _ (by decide), hparts [["12", " "], ["3.5"]] rfl, hblank, hwhole⟩

end Kind

end CorpusQuery

import CorpusQuery.Export.Totals
import CorpusQuery.Proofs.Query.Admission
import Mathlib.Data.List.Basic

/-!
# Opening an export

The first record of a file fixes how many cells there are: every column of the export stands where a
cell of that record stood, and every record that can be read has a cell for each column. The kind of
a column is what the cells of that column say in the sampled records, and it does not depend on the
other columns.

## Main statements

* `Export.exists_of_open?`: what an export is made of.
* `Export.exists_kinds_of_open?`: the kinds of its columns.
* `Export.exists_recordCell?`: a record that can be read has a cell for every name.
-/

namespace CorpusQuery

namespace Export

/-! ## Records that can be read -/

theorem length_of_decodeCells {mark : Mark} {i : ℕ} {cells : List (List UInt8)}
    {texts : List String} (h : RawRecord.decodeCells mark i cells = .ok texts) :
    texts.length = cells.length := by
  induction cells generalizing i texts with
  | nil =>
    obtain rfl := Except.ok.inj h
    rfl
  | cons cell cells ih =>
    rw [RawRecord.decodeCells] at h
    split at h
    · cases h
    · next s _ =>
      cases hrest : RawRecord.decodeCells mark (i + 1) cells with
      | error fault =>
        rw [hrest] at h
        cases h
      | ok rest =>
        rw [hrest] at h
        obtain rfl := Except.ok.inj h
        rw [List.length_cons, List.length_cons, ih hrest]

theorem length_of_decode {r : RawRecord} {width : ℕ} {mark : Mark} {texts : List String}
    (h : r.decode width mark = .ok texts) : texts.length = width := by
  rw [RawRecord.decode] at h
  split at h
  · next hwidth => rw [length_of_decodeCells h, beq_iff_eq.mp hwidth]
  · cases h

theorem length_of_firstRecord {records : List RawRecord} {first : List String}
    (h : firstRecord records = .ok first) : first.length = width records := by
  cases records with
  | nil =>
    obtain rfl := Except.ok.inj h
    rfl
  | cons r records => exact length_of_decode h

theorem length_of_mem_dataRecords {format : DelimitedFormat} {records : List RawRecord}
    {cells : List String} (h : .ok cells ∈ dataRecords format records) :
    cells.length = width records := by
  have hmap {rs : List RawRecord}
      (hmem : .ok cells ∈ rs.map fun r ↦ r.decode (width records) r.mark) :
      cells.length = width records := by
    obtain ⟨r, -, hr⟩ := List.mem_map.mp hmem
    exact length_of_decode hr
  unfold dataRecords at h
  by_cases hheader : format.hasHeader = true
  · rw [if_pos hheader] at h
    rcases records with _ | ⟨header, _ | ⟨first, rest⟩⟩
    · cases h
    · cases h
    · rcases List.mem_cons.mp h with h | h
      · exact length_of_decode h.symm
      · exact hmap h
  · rw [if_neg hheader] at h
    exact hmap h

/-! ## Columns -/

theorem length_mergeKinds (kinds : List Kind) (cells : List String) :
    (mergeKinds kinds cells).length = kinds.length := by
  induction kinds, cells using mergeKinds.induct with
  | case1 k ks cell cells ih => rw [mergeKinds, List.length_cons, List.length_cons, ih]
  | case2 ks cells hempty =>
    rw [mergeKinds]
    exact hempty

theorem length_foldl_mergeKinds (kinds : List Kind) (sampled : List (List String)) :
    (sampled.foldl mergeKinds kinds).length = kinds.length := by
  induction sampled generalizing kinds with
  | nil => rfl
  | cons cells sampled ih => rw [List.foldl_cons, ih, length_mergeKinds]

/-- What the records say of a column is what its cells say. -/
theorem getElem?_foldl_mergeKinds (kinds : List Kind) (sampled : List (List String)) (i : ℕ) :
    (sampled.foldl mergeKinds kinds)[i]? = kinds[i]?.map fun k ↦
      ((sampled.filterMap (·[i]?)).map Kind.ofCell).foldl Kind.merge k := by
  have hstep (kinds : List Kind) (cells : List String) : (mergeKinds kinds cells)[i]?
      = kinds[i]?.map fun k ↦ (cells[i]?.toList.map Kind.ofCell).foldl Kind.merge k := by
    induction kinds, cells using mergeKinds.induct generalizing i with
    | case1 k ks cell cells ih =>
      rw [mergeKinds]
      cases i with
      | zero => rfl
      | succ i => exact ih i
    | case2 ks cells hempty =>
      rw [mergeKinds]
      · cases ks with
        | nil => rfl
        | cons k ks =>
          cases cells with
          | nil => simp
          | cons cell cells => exact absurd rfl (hempty k ks cell cells rfl)
      · exact hempty
  induction sampled generalizing kinds with
  | nil => simp
  | cons cells sampled ih =>
    rw [List.foldl_cons, ih, hstep, Option.map_map]
    refine congrArg (fun f ↦ kinds[i]?.map f) (funext fun k ↦ ?_)
    have hcells : (cells :: sampled).filterMap (·[i]?)
        = cells[i]?.toList ++ sampled.filterMap (·[i]?) := by
      rw [List.filterMap_cons]
      cases cells[i]? <;> rfl
    rw [Function.comp_apply, hcells, List.map_append, List.foldl_append]

/-- The columns for these names and kinds. -/
def columnsFor (names : List String) (kinds : List Kind) : List ExportColumn :=
  (names.zip kinds).zipIdx.map fun ((name, kind), ordinal) ↦
    { name, kind := settleKind kind, ordinal }

theorem mem_columnsFor {names : List String} {kinds : List Kind} {c : ExportColumn} :
    c ∈ columnsFor names kinds ↔ ∃ kind, names[c.ordinal]? = some c.name ∧
      kinds[c.ordinal]? = some kind ∧ c.kind = settleKind kind := by
  rw [columnsFor, List.mem_map]
  constructor
  · rintro ⟨⟨⟨name, kind⟩, i⟩, hmem, rfl⟩
    obtain ⟨hname, hkind⟩ := List.getElem?_zip_eq_some.mp (List.mem_zipIdx_iff_getElem?.mp hmem)
    exact ⟨kind, hname, hkind, rfl⟩
  · rintro ⟨kind, hname, hkind, hsettled⟩
    refine ⟨((c.name, kind), c.ordinal), ?_,
      congrArg (ExportColumn.mk c.name · c.ordinal) hsettled.symm⟩
    exact List.mem_zipIdx_iff_getElem?.mpr (List.getElem?_zip_eq_some.mpr ⟨hname, hkind⟩)

/-- **What an export is made of.** -/
theorem exists_of_open? {path : String} {format : DelimitedFormat} {content : Option (List UInt8)}
    {e : Export} (h : open? path format content = .ok e) :
    ∃ bytes first, ∃ sampled : List (List String), content = some bytes ∧
      firstRecord (RawRecord.ofBytes format.delimiter bytes) = .ok first ∧
      sample format first (RawRecord.ofBytes format.delimiter bytes) = sampled.map .ok ∧
      e = ⟨path, format, RawRecord.ofBytes format.delimiter bytes,
        columnsFor (columnNames format first)
          (sampled.foldl mergeKinds ((columnNames format first).map fun _ ↦ .null))⟩ := by
  cases content with
  | none => cases h
  | some bytes =>
    rw [open?] at h
    obtain ⟨first, hfirst, h⟩ := exists_of_bind_eq_ok h
    split at h
    · cases h
    obtain ⟨sampled, hsampled, h⟩ := exists_of_bind_eq_ok h
    exact ⟨bytes, first, sampled, rfl, mapError_eq_ok.mp hfirst,
      mapM_id_eq_ok_iff.mp (mapError_eq_ok.mp hsampled), (Except.ok.inj h).symm⟩

section

variable {path : String} {format : DelimitedFormat} {content : Option (List UInt8)} {e : Export}

theorem columnNamesOf_of_open? (h : open? path format content = .ok e) :
    ∃ bytes first, content = some bytes ∧
      firstRecord (RawRecord.ofBytes format.delimiter bytes) = .ok first ∧
      e.columnNamesOf = columnNames format first := by
  obtain ⟨bytes, first, sampled, hbytes, hfirst, -, rfl⟩ := exists_of_open? h
  refine ⟨bytes, first, hbytes, hfirst, ?_⟩
  -- There are as many kinds as names, so every name gets a column.
  have hlength : (sampled.foldl mergeKinds ((columnNames format first).map fun _ ↦ .null)).length
      = (columnNames format first).length := by
    rw [length_foldl_mergeKinds, List.length_map]
  rw [columnNamesOf, columnsFor, List.map_map]
  refine Eq.trans ?_ (List.map_fst_zip (Nat.le_of_eq hlength.symm))
  conv_rhs => rw [← List.zipIdx_map_fst 0 (List.zip _ _), List.map_map]
  rfl

/-- **The kinds of columns.** -/
theorem exists_kinds_of_open? (h : open? path format content = .ok e) :
    ∃ bytes first, ∃ sampled : List (List String), content = some bytes ∧
      firstRecord (RawRecord.ofBytes format.delimiter bytes) = .ok first ∧
      sample format first (RawRecord.ofBytes format.delimiter bytes) = sampled.map .ok ∧
      ∀ c ∈ e.columns, c.kind = settleKind (.ofCells (sampled.filterMap (·[c.ordinal]?))) := by
  obtain ⟨bytes, first, sampled, hbytes, hfirst, hsampled, rfl⟩ := exists_of_open? h
  refine ⟨bytes, first, sampled, hbytes, hfirst, hsampled, fun c hc ↦ ?_⟩
  obtain ⟨kind, hname, hkind, hsettled⟩ := mem_columnsFor.mp hc
  rw [getElem?_foldl_mergeKinds, List.getElem?_map, hname] at hkind
  rw [hsettled, ← Option.some.inj hkind]
  rfl

theorem exists_recordCell? (h : open? path format content = .ok e) {cells : List String}
    (hcells : .ok cells ∈ dataRecords e.format e.records) {name : String}
    (hname : name ∈ e.columnNamesOf) : ∃ text, e.recordCell? cells name = some text := by
  obtain ⟨bytes, first, sampled, -, hfirst, -, rfl⟩ := exists_of_open? h
  obtain ⟨c, hc⟩ : ∃ c, column? _ name = some c := by
    obtain ⟨c, hc, rfl⟩ := List.mem_map.mp hname
    exact Option.isSome_iff_exists.mp
      (List.find?_isSome.mpr ⟨c, hc, beq_self_eq_true c.name⟩)
  obtain ⟨kind, hnames, -⟩ := mem_columnsFor.mp (List.mem_of_find?_eq_some hc)
  have hordinal : c.ordinal < cells.length := by
    have hlt := (List.getElem?_eq_some_iff.mp hnames).1
    have hnamesLength : (columnNames format first).length = first.length := by
      rw [columnNames]
      split <;> simp
    rw [length_of_mem_dataRecords hcells, ← length_of_firstRecord hfirst]
    omega
  refine ⟨cells[c.ordinal], ?_⟩
  rw [recordCell?, hc, Option.bind_some, List.getElem?_eq_getElem hordinal]

end

theorem hasHeader_of_form_mem {format : DelimitedFormat} {first : List String}
    (h : "form" ∈ columnNames format first) : format.hasHeader = true := by
  rw [columnNames] at h
  split at h
  · assumption
  · obtain ⟨i, -, hname⟩ := List.mem_map.mp h
    have hfirst := congrArg (·.toList.head?) hname
    simp at hfirst

end Export

end CorpusQuery

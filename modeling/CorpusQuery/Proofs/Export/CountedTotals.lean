import CorpusQuery.Proofs.Export.Opening
import CorpusQuery.Proofs.Lists
import CorpusQuery.Proofs.Query.FlatScan
import Mathlib.Data.List.DropRight

/-!
# What the totals of an export count

An export repeats the frequency of a lemma in every row of that lemma, so only the first row with a
number counts, and likewise for the beginnings, the ends and the wholes of word forms. Rows without
a number are passed over before their key is looked at.

Beginnings, ends and forms are their own keys. A lemma and its part of speech are joined to one text
with a unit separator between them, so two lemmas have one key if the separator is part of a cell,
and then only the first of them counts.

## Main statements

* `Export.filter_firstOfEach`: every key keeps its first record.
* `Export.firstOfEach_eq_iff`: when a coarser key keeps the same records.
* `Export.sum_foldl_addRecord`: a sum over records is a sum over the first of each key.
* `Export.totals_count_first_of_each_key`: the five totals.
* `Export.joined_lemmas_counted_once`: two lemmas of which one is not counted.
-/

namespace CorpusQuery.Export

/-! ## The first record with each key -/

section FirstOfEach

variable {κ : Type} [DecidableEq κ] {key : List String → κ}

/-- The first record with each key, in the order of the records. -/
def firstOfEach (key : List String → κ) (records : List (List String)) : List (List String) :=
  records.eraseDupsBy fun s r ↦ key s == key r

theorem firstOfEach_cons (r : List String) (records : List (List String)) :
    firstOfEach key (r :: records)
      = r :: firstOfEach key (records.filter fun s ↦ key s ≠ key r) := by
  rw [firstOfEach, List.eraseDupsBy_cons]
  refine congrArg (r :: firstOfEach key ·) (List.filter_congr fun s _ ↦ ?_)
  simp

/-- The recursion of `firstOfEach`: a record, and then the records with other keys. -/
theorem firstOfEach_induction (key : List String → κ) {P : List (List String) → Prop}
    (nil : P [])
    (cons : ∀ r records, P (records.filter fun s ↦ key s ≠ key r) → P (r :: records)) :
    ∀ records, P records
  | [] => nil
  | r :: records => cons r records (firstOfEach_induction key nil cons _)
termination_by records => records.length
decreasing_by exact Nat.lt_succ_of_le (List.length_filter_le _ _)

theorem firstOfEach_sublist (records : List (List String)) :
    (firstOfEach key records).Sublist records := by
  induction records using firstOfEach_induction key with
  | nil => exact List.Sublist.refl _
  | cons r records ih =>
    rw [firstOfEach_cons]
    exact (ih.trans List.filter_sublist).cons_cons r

/-- **One of each.** Every key keeps its first record. -/
theorem filter_firstOfEach (k : κ) (records : List (List String)) :
    (firstOfEach key records).filter (key · = k) = (records.find? (key · = k)).toList := by
  induction records using firstOfEach_induction key with
  | nil => rfl
  | cons r records ih =>
    rw [firstOfEach_cons]
    by_cases hr : key r = k
    · have hnone : (firstOfEach key (records.filter fun s ↦ key s ≠ key r)).filter (key · = k)
          = [] := by
        refine List.filter_eq_nil_iff.mpr fun s hs ↦ ?_
        have hne := List.of_mem_filter ((firstOfEach_sublist _).subset hs)
        simpa [hr] using hne
      rw [List.filter_cons_of_pos (by simpa), hnone, List.find?_cons_of_pos (by simpa)]
      rfl
    · have hfind : (records.filter fun s ↦ key s ≠ key r).find? (key · = k)
          = records.find? (key · = k) := by
        rw [List.find?_filter]
        refine congrArg (List.find? · records) (funext fun s ↦ ?_)
        by_cases hs : key s = k
        · simp [hs, Ne.symm hr]
        · simp [hs]
      rw [List.filter_cons_of_neg (by simpa), ih, hfind, List.find?_cons_of_neg (by simpa)]

theorem eq_of_mem_firstOfEach {records : List (List String)} {r s : List String}
    (hr : r ∈ firstOfEach key records) (hs : s ∈ firstOfEach key records) (h : key r = key s) :
    r = s := by
  have hfilter {t : List String} (ht : t ∈ firstOfEach key records) (hkey : key t = key s) :
      t ∈ (records.find? (key · = key s)).toList := by
    rw [← filter_firstOfEach]
    exact List.mem_filter.mpr ⟨ht, by simpa using hkey⟩
  exact Option.some.inj
    ((Option.mem_toList.mp (hfilter hr h)).symm.trans (Option.mem_toList.mp (hfilter hs rfl)))

theorem exists_mem_firstOfEach (key : List String → κ) {records : List (List String)}
    {r : List String} (hr : r ∈ records) : ∃ s ∈ firstOfEach key records, key s = key r := by
  obtain ⟨s, hs⟩ := Option.isSome_iff_exists.mp
    (List.find?_isSome (p := fun s ↦ decide (key s = key r)).mpr ⟨r, hr, by simp⟩)
  have hmem : s ∈ (firstOfEach key records).filter (key · = key r) := by
    rw [filter_firstOfEach, hs]
    exact List.mem_cons_self
  exact ⟨s, List.mem_of_mem_filter hmem, by simpa using List.of_mem_filter hmem⟩

variable {κ' : Type} [DecidableEq κ'] {key' : List String → κ'}

theorem firstOfEach_congr {records : List (List String)}
    (h : ∀ r ∈ records, ∀ s ∈ records, key r = key s ↔ key' r = key' s) :
    firstOfEach key records = firstOfEach key' records := by
  induction records using firstOfEach_induction key with
  | nil => rfl
  | cons r records ih =>
    have hfilter : (records.filter fun s ↦ key s ≠ key r)
        = records.filter fun s ↦ key' s ≠ key' r := by
      refine List.filter_congr fun s hs ↦ ?_
      rw [decide_eq_decide, ne_eq, ne_eq, h s (List.mem_cons_of_mem r hs) r List.mem_cons_self]
    rw [firstOfEach_cons, firstOfEach_cons, ← hfilter, ih fun s hs t ht ↦
      h s (List.mem_cons_of_mem r (List.mem_of_mem_filter hs)) t
        (List.mem_cons_of_mem r (List.mem_of_mem_filter ht))]

theorem firstOfEach_comp {f : κ → κ'} (hf : ∀ a b, f a = f b → a = b)
    (records : List (List String)) :
    firstOfEach (fun r ↦ f (key r)) records = firstOfEach key records :=
  firstOfEach_congr fun r _ s _ ↦ ⟨hf (key r) (key s), congrArg f⟩

/-- **A coarser key** keeps the same records exactly if no two records have a key in common that
the finer one tells apart. -/
theorem firstOfEach_eq_iff (hcoarse : ∀ r s, key' r = key' s → key r = key s)
    (records : List (List String)) :
    firstOfEach key records = firstOfEach key' records ↔
      ∀ r ∈ records, ∀ s ∈ records, key r = key s → key' r = key' s := by
  refine ⟨fun heq r hr s hs hkey ↦ ?_, fun h ↦ firstOfEach_congr fun r hr s hs ↦
    ⟨h r hr s hs, hcoarse r s⟩⟩
  -- The records that the finer key keeps for the two are one record of the coarser key.
  obtain ⟨r', hr', hkeyr⟩ := exists_mem_firstOfEach key' hr
  obtain ⟨s', hs', hkeys⟩ := exists_mem_firstOfEach key' hs
  rw [← heq] at hr' hs'
  have hsame : key r' = key s' :=
    (hcoarse r' r hkeyr).trans (hkey.trans (hcoarse s' s hkeys).symm)
  rw [← hkeyr, eq_of_mem_firstOfEach hr' hs' hsame, hkeys]

end FirstOfEach

/-! ## Sums over records -/

variable {e : Export}

/-- The text of a record in a column, empty without such a column. -/
def textIn (e : Export) (column : String) (cells : List String) : String :=
  (e.recordCell? cells column).getD ""

/-- The number of a record in a column. -/
def numberIn (e : Export) (column : String) (cells : List String) : Option Float :=
  (e.recordCell? cells column).bind cellNumber?

/-- The records with a number in a column. -/
def measured (e : Export) (column : String) : List (List String) :=
  e.dataCells.filter fun cells ↦ (e.numberIn column cells).isSome

/-- The sum of the numbers in a column, in the order of the records. -/
def sumOver (e : Export) (column : String) (records : List (List String)) : Float :=
  (records.filterMap (e.numberIn column)).foldl (· + ·) 0.0

/-- Adds the number of a record to a sum. -/
def addRecord (e : Export) (column : String) (once : CountedOnce) (s : KeyedSum)
    (cells : List String) : KeyedSum :=
  match e.numberIn column cells with
  | some x => s.add (e.totalKey? cells once) x
  | none => s

theorem totalOf_eq (e : Export) (kind : TotalKind) (records : List (List String)) :
    e.totalOf kind records = (records.foldl
      (e.addRecord (totalColumn kind).1 (totalColumn kind).2) {}).sum := rfl

section Sums

variable {column : String} {once : CountedOnce} {records : List (List String)}

theorem addRecord_of_none {cells : List String} (hx : e.numberIn column cells = none)
    (s : KeyedSum) : e.addRecord column once s cells = s := by
  rw [addRecord, hx]

theorem addRecord_of_some {cells : List String} {x : Float}
    (hx : e.numberIn column cells = some x) (s : KeyedSum) :
    e.addRecord column once s cells = s.add (e.totalKey? cells once) x := by
  rw [addRecord, hx]

theorem sum_foldl_addRecord_of_none (hkey : ∀ cells ∈ records, e.totalKey? cells once = none)
    (s : KeyedSum) :
    (records.foldl (e.addRecord column once) s).sum
      = (records.filterMap (e.numberIn column)).foldl (· + ·) s.sum := by
  induction records generalizing s with
  | nil => rfl
  | cons cells records ih =>
    rw [List.foldl_cons, ih fun r hr ↦ hkey r (List.mem_cons_of_mem cells hr)]
    cases hx : e.numberIn column cells with
    | none => rw [addRecord_of_none hx, List.filterMap_cons_none hx]
    | some x =>
      rw [addRecord_of_some hx, hkey cells List.mem_cons_self, List.filterMap_cons_some hx]
      rfl

/-- **Counting once.** With keys the first number of every key counts that is not used up. -/
theorem sum_foldl_addRecord {key : List String → String}
    (hkey : ∀ cells ∈ records, e.totalKey? cells once = some (key cells)) (s : KeyedSum) :
    (records.foldl (e.addRecord column once) s).sum
      = ((firstOfEach key (records.filter fun cells ↦
          (e.numberIn column cells).isSome ∧ key cells ∉ s.seen)).filterMap
            (e.numberIn column)).foldl (· + ·) s.sum := by
  induction records generalizing s with
  | nil => rfl
  | cons cells records ih =>
    have ih := ih fun r hr ↦ hkey r (List.mem_cons_of_mem cells hr)
    cases hx : e.numberIn column cells with
    | none =>
      rw [List.foldl_cons, addRecord_of_none hx, ih, List.filter_cons_of_neg (by simp [hx])]
    | some x =>
      rw [List.foldl_cons, addRecord_of_some hx, hkey cells List.mem_cons_self]
      by_cases hseen : key cells ∈ s.seen
      · have hadd : s.add (some (key cells)) x = s := if_pos (List.contains_iff_mem.mpr hseen)
        rw [hadd, ih, List.filter_cons_of_neg (by simp [hseen])]
      · have hadd : s.add (some (key cells)) x = ⟨s.sum + x, key cells :: s.seen⟩ :=
          if_neg (List.contains_iff_mem.not.mpr hseen)
        -- The key is used up from here on, so the records behind are those with other keys.
        have hrest : (records.filter fun r ↦
              (e.numberIn column r).isSome ∧ key r ∉ key cells :: s.seen)
            = (records.filter fun r ↦ (e.numberIn column r).isSome ∧ key r ∉ s.seen).filter
              fun r ↦ key r ≠ key cells := by
          rw [List.filter_filter]
          refine List.filter_congr fun r _ ↦ ?_
          rw [← Bool.decide_and, decide_eq_decide, List.mem_cons, not_or]
          exact and_left_comm
        rw [hadd, ih, hrest, List.filter_cons_of_pos (by simp [hx, hseen]), firstOfEach_cons,
          List.filterMap_cons_some hx, List.foldl_cons]

theorem totalOf_of_none {kind : TotalKind}
    (hkey : ∀ cells ∈ records, e.totalKey? cells (totalColumn kind).2 = none) :
    e.totalOf kind records = e.sumOver (totalColumn kind).1 records := by
  rw [totalOf_eq, sum_foldl_addRecord_of_none hkey]
  rfl

theorem totalOf_of_some {kind : TotalKind} {key : List String → String}
    (hkey : ∀ cells ∈ e.dataCells, e.totalKey? cells (totalColumn kind).2 = some (key cells)) :
    e.totalOf kind e.dataCells = e.sumOver (totalColumn kind).1
      (firstOfEach key (e.measured (totalColumn kind).1)) := by
  rw [totalOf_eq, sum_foldl_addRecord hkey]
  have hall : (e.dataCells.filter fun cells ↦
      (e.numberIn (totalColumn kind).1 cells).isSome ∧ key cells ∉ ({} : KeyedSum).seen)
        = e.measured (totalColumn kind).1 :=
    List.filter_congr fun cells _ ↦ by simp
  rw [hall]
  rfl

end Sums

/-! ## Keys of records -/

/-- The lemma of a record and its part of speech. -/
def lemmaPair (e : Export) (cells : List String) : String × String :=
  (e.textIn "lemma" cells, e.textIn "pos" cells)

/-- The lemma of a record and its part of speech as one text. -/
def joinedLemma (e : Export) (cells : List String) : String :=
  "\u001f".intercalate [e.textIn "lemma" cells, e.textIn "pos" cells]

theorem joinedLemma_eq_of_lemmaPair_eq (e : Export) (r s : List String)
    (h : e.lemmaPair r = e.lemmaPair s) : e.joinedLemma r = e.joinedLemma s := by
  obtain ⟨hlemma, hpos⟩ := Prod.mk.inj h
  rw [joinedLemma, joinedLemma, hlemma, hpos]

theorem lemmaPair_eq_of_joinedLemma_eq {r s : List String}
    (hr : '\u001f' ∉ (e.textIn "lemma" r).toList) (hs : '\u001f' ∉ (e.textIn "lemma" s).toList)
    (h : e.joinedLemma r = e.joinedLemma s) : e.lemmaPair r = e.lemmaPair s := by
  have hchars {t : List String} : (e.joinedLemma t).toList
      = (e.textIn "lemma" t).toList ++ '\u001f' :: (e.textIn "pos" t).toList := by
    have happend : e.joinedLemma t = e.textIn "lemma" t ++ "\u001f" ++ e.textIn "pos" t := rfl
    rw [happend, String.toList_append, String.toList_append, List.append_assoc]
    rfl
  have hlists := congrArg String.toList h
  rw [hchars, hchars] at hlists
  obtain ⟨hlemma, hpos⟩ := append_cons_inj hr hs hlists
  exact Prod.ext (String.toList_inj.mp hlemma) (String.toList_inj.mp hpos)

theorem Readable.exists_totals (h : e.Readable) :
    ∃ t, e.totals = .ok t ∧ ∀ kind, t.get kind = e.totalOf kind e.dataCells := by
  refine ⟨TotalKind.all.foldl (fun t kind ↦ t.set kind (e.totalOf kind e.dataCells)) {}, ?_,
    fun kind ↦ ?_⟩
  · rw [totals, mapM_id_eq_ok_iff.mpr h.dataRecords_eq]
    rfl
  · cases kind <;> rfl

theorem totalOf_of_notMem {kind : TotalKind} (h : (totalColumn kind).1 ∉ e.columnNamesOf)
    (records : List (List String)) : e.totalOf kind records = 0.0 := by
  have hcolumn : e.column? (totalColumn kind).1 = none :=
    List.find?_eq_none.mpr fun c hc heq ↦ h (List.mem_map.mpr ⟨c, hc, beq_iff_eq.mp heq⟩)
  rw [totalOf_eq, List.foldl_fixed' fun cells ↦ addRecord_of_none ?_ _]
  rw [numberIn, recordCell?, hcolumn]
  rfl

theorem totalOf_of_cut {kind : TotalKind} (cut : List Char → List Char)
    (hcell : ∀ cells ∈ e.dataCells, e.recordCell? cells "form" = some (e.textIn "form" cells))
    (hkey : ∀ cells, e.totalKey? cells (totalColumn kind).2
      = (e.recordCell? cells "form").map fun form ↦ .ofList (cut form.toList)) :
    e.totalOf kind e.dataCells = e.sumOver (totalColumn kind).1
      (firstOfEach (fun cells ↦ cut (e.textIn "form" cells).toList)
        (e.measured (totalColumn kind).1)) := by
  rw [← firstOfEach_comp (fun _ _ ↦ String.ofList_inj.mp)]
  refine totalOf_of_some fun cells hcells ↦ ?_
  rw [hkey, hcell cells hcells]
  rfl

/-! ## The five totals -/

theorem filter_firstOfEach_measured {κ : Type} [DecidableEq κ] (key : List String → κ)
    (column : String) (k : κ) :
    (firstOfEach key (e.measured column)).filter (key · = k)
      = (e.dataCells.find? fun cells ↦
          (e.numberIn column cells).isSome ∧ key cells = k).toList := by
  rw [filter_firstOfEach, measured, List.find?_filter]
  simp

variable {path : String} {format : DelimitedFormat} {content : Option (List UInt8)}

/-- **Keys count once.** The totals of an export that can be read. Of forms, their beginnings and
their ends every one counts once, with the number of the first record that has a number. The keys of
lemmas are joined texts. They stand for the lemma and its part of speech as long as no lemma has the
separator in it, and in general as long as no two lemmas that are counted have one joined text. -/
theorem totals_count_first_of_each_key (h : open? path format content = .ok e)
    (hform : "form" ∈ e.columnNamesOf) (hreadable : e.Readable) :
    (∃ t, e.totals = .ok t ∧
      t.frequency = e.sumOver "frequency" e.dataCells ∧
      t.initGram = e.sumOver "initgramfreq"
        (firstOfEach (fun cells ↦ (e.textIn "form" cells).toList.take 3)
          (e.measured "initgramfreq")) ∧
      t.finGram = e.sumOver "fingramfreq"
        (firstOfEach (fun cells ↦ (e.textIn "form" cells).toList.rtake 3)
          (e.measured "fingramfreq")) ∧
      t.bigram = e.sumOver "bigramfreq"
        (firstOfEach (e.textIn "form") (e.measured "bigramfreq")) ∧
      t.lemmaFrequency = e.sumOver "lemmafreq"
        (firstOfEach e.joinedLemma (e.measured "lemmafreq")) ∧
      ((∀ cells ∈ e.measured "lemmafreq", '\u001f' ∉ (e.textIn "lemma" cells).toList) →
        t.lemmaFrequency = e.sumOver "lemmafreq"
          (firstOfEach e.lemmaPair (e.measured "lemmafreq"))) ∧
      ∀ kind, (totalColumn kind).1 ∉ e.columnNamesOf → t.get kind = 0.0) ∧
    (firstOfEach e.joinedLemma (e.measured "lemmafreq")
        = firstOfEach e.lemmaPair (e.measured "lemmafreq") ↔
      ∀ r ∈ e.measured "lemmafreq", ∀ s ∈ e.measured "lemmafreq",
        e.joinedLemma r = e.joinedLemma s → e.lemmaPair r = e.lemmaPair s) ∧
    ∀ {κ : Type} [DecidableEq κ] (key : List String → κ) (column : String),
      (firstOfEach key (e.measured column)).Sublist e.dataCells ∧
        ∀ k, (firstOfEach key (e.measured column)).filter (key · = k)
          = (e.dataCells.find? fun cells ↦
              (e.numberIn column cells).isSome ∧ key cells = k).toList := by
  obtain ⟨t, ht, hget⟩ := hreadable.exists_totals
  have hcell (cells : List String) (hcells : cells ∈ e.dataCells) :
      e.recordCell? cells "form" = some (e.textIn "form" cells) := by
    obtain ⟨text, htext⟩ := exists_recordCell? h (mem_dataRecords_of_mem_dataCells hcells) hform
    rw [textIn, htext, Option.getD_some]
  have hlemma : t.lemmaFrequency = e.sumOver "lemmafreq"
      (firstOfEach e.joinedLemma (e.measured "lemmafreq")) :=
    (hget .lemmaFrequency).trans (totalOf_of_some fun _ _ ↦ rfl)
  have hjoined := firstOfEach_eq_iff e.joinedLemma_eq_of_lemmaPair_eq (e.measured "lemmafreq")
  refine ⟨⟨t, ht, (hget .frequency).trans (totalOf_of_none fun _ _ ↦ rfl), ?_, ?_, ?_, hlemma,
    fun hplain ↦ ?_, fun kind hkind ↦ ?_⟩, hjoined, fun key column ↦
      ⟨(firstOfEach_sublist _).trans List.filter_sublist, filter_firstOfEach_measured key column⟩⟩
  · exact (hget .initGram).trans (totalOf_of_cut (·.take 3) hcell fun _ ↦ rfl)
  · exact (hget .finGram).trans (totalOf_of_cut (·.rtake 3) hcell fun _ ↦ rfl)
  · exact (hget .bigram).trans (totalOf_of_some fun _ _ ↦ rfl)
  · rw [hlemma, hjoined.mpr fun r hr s hs ↦
      lemmaPair_eq_of_joinedLemma_eq (hplain r hr) (hplain s hs)]
  · exact (hget kind).trans (totalOf_of_notMem hkind e.dataCells)

/-- A file in which two of three rows share a lemma, and two the end of their form. -/
def carsFile : List UInt8 :=
  ("lemma,form,pos,frequency,lemmafreq,fingramfreq\nauto,auto,NOUN,50,60,70\n" ++
    "auto,autossa,NOUN,10,60,9\ntalli,tallissa,NOUN,5,5,9\n").toUTF8.data.toList

/-- The export in that file. -/
def carsExport : Export where
  path := "export.csv"
  format := {}
  records := RawRecord.ofBytes 44 carsFile
  columns := [⟨"lemma", .text, 0⟩, ⟨"form", .text, 1⟩, ⟨"pos", .text, 2⟩, ⟨"frequency", .int, 3⟩,
    ⟨"lemmafreq", .int, 4⟩, ⟨"fingramfreq", .int, 5⟩]

theorem totals_count_first_of_each_key_cars :
    open? "export.csv" {} (some carsFile) = .ok carsExport ∧
      ∃ t, carsExport.totals = .ok t ∧ t.frequency = 65.0 ∧ t.lemmaFrequency = 65.0 ∧
        t.finGram = 79.0 ∧ t.bigram = 0.0 := by
  have hopen : open? "export.csv" {} (some carsFile) = .ok carsExport := rfl
  have hreadable : carsExport.Readable := readable_of_dataRecords_eq
    [["auto", "auto", "NOUN", "50", "60", "70"], ["auto", "autossa", "NOUN", "10", "60", "9"],
      ["talli", "tallissa", "NOUN", "5", "5", "9"]] (by decide)
  obtain ⟨⟨t, ht, hfrequency, -, hfinGram, -, -, hlemma, habsent⟩, -⟩ :=
    totals_count_first_of_each_key hopen (by decide) hreadable
  exact ⟨hopen, t, ht, hfrequency, hlemma (by decide), hfinGram, habsent .bigram (by decide)⟩

/-- A file with two lemmas that are one text with their parts of speech. -/
def collidingFile : List UInt8 :=
  "form,lemma,pos,lemmafreq\na,x\u001fy,z,1\nb,x,y\u001fz,2\n".toUTF8.data.toList

/-- The export in that file. -/
def collidingExport : Export where
  path := "export.csv"
  format := {}
  records := RawRecord.ofBytes 44 collidingFile
  columns := [⟨"form", .text, 0⟩, ⟨"lemma", .text, 1⟩, ⟨"pos", .text, 2⟩, ⟨"lemmafreq", .int, 3⟩]

/-- **Joined keys.** Two lemmas, each with a number, of which only the first counts. -/
theorem joined_lemmas_counted_once :
    open? "export.csv" {} (some collidingFile) = .ok collidingExport ∧
      "form" ∈ collidingExport.columnNamesOf ∧ collidingExport.Readable ∧
      ∃ t, collidingExport.totals = .ok t ∧ t.lemmaFrequency = 1.0 ∧
        collidingExport.sumOver "lemmafreq" (firstOfEach collidingExport.lemmaPair
          (collidingExport.measured "lemmafreq")) = 3.0 ∧
        t.lemmaFrequency ≠ collidingExport.sumOver "lemmafreq"
          (firstOfEach collidingExport.lemmaPair (collidingExport.measured "lemmafreq")) := by
  refine ⟨rfl, by decide, ?_, _, rfl, rfl, rfl, by decide⟩
  exact readable_of_dataRecords_eq
    [["a", "x\u001fy", "z", "1"], ["b", "x", "y\u001fz", "2"]] (by decide)

end CorpusQuery.Export

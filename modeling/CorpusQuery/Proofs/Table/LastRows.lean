import CorpusQuery.Proofs.Table.Columns
import CorpusQuery.Proofs.Table.Distinct
import CorpusQuery.Proofs.Table.Finishing
import CorpusQuery.Proofs.Table.Rows

/-!
# The last row of every key

Rows are compared by the columns of a key that a table has. A row stays if no row below it has the
same key, which means equal content as long as the two zeros do not stand in one column. The rows
that stay can be found in one pass from the last row to the first that remembers the keys it has
come across: a row is marked if its key is new by then. What such a pass remembers is a part of the
keys below a row, but a key is found among these exactly if it is found among all of them, since
being the same key is transitive. This is the invariant of the pass, and the marks are read off it
from the first row on.

A key with content that is not a number is the same as no key, not even as itself. Its rows all
stay, and each counts as a key of its own.

## Main statements

* `Table.distinctLast_eq_keepRows_marks`: the pass from the last row finds what stays.
* `Table.distinctLast_keeps_last`: which rows stay, and how many.
-/

namespace CorpusQuery

theorem classCount_map {α β : Type} {r : β → β → Bool} (hsymm : ∀ a b, r a b = r b a)
    (htrans : ∀ a b c, r a b = true → r b c = true → r a c = true) (f : α → β) (xs : List α) :
    classCount r (xs.map f) = classCount (fun a b ↦ r (f a) (f b)) xs := by
  induction xs with
  | nil => rfl
  | cons x xs ih =>
    rw [List.map_cons, classCount_cons hsymm htrans, ih,
      classCount_cons (fun a b ↦ hsymm (f a) (f b)) (fun a b c ↦ htrans (f a) (f b) (f c)),
      List.any_map]
    rfl

namespace Table

variable {t : Table} {positions : List ℕ} {rows : List (List Value)}

/-! ## Keys -/

/-- Whether two rows have the same key in all of the named columns. -/
def agreeOn (t : Table) (names : List String) (row other : List Value) : Bool :=
  names.all fun c ↦ (t.cellUnder c row).sameKey (t.cellUnder c other)

/-- Whether two rows have equal content in all of the named columns. -/
def equalOn (t : Table) (names : List String) (row other : List Value) : Bool :=
  names.all fun c ↦ (t.cellUnder c row).same (t.cellUnder c other)

/-- One of the named columns has both zeros. -/
def MixesZeros (t : Table) (names : List String) : Prop :=
  ∃ c ∈ names, ∃ row ∈ t.rows, ∃ other ∈ t.rows,
    t.cellUnder c row = .real 0 ∧ t.cellUnder c other = .real (-0)

instance (t : Table) (names : List String) : Decidable (t.MixesZeros names) :=
  inferInstanceAs (Decidable (∃ c ∈ names, ∃ row ∈ t.rows, ∃ other ∈ t.rows, _ ∧ _))

theorem sameKey_keyAt (t : Table) (keys : List String) (row other : List Value) :
    sameKey (keyAt (keys.filterMap t.columnIndex?) row)
        (keyAt (keys.filterMap t.columnIndex?) other)
      = t.agreeOn (keys.filter (· ∈ t.columns)) row other := by
  induction keys with
  | nil => rfl
  | cons c keys ih =>
    rw [List.filterMap_cons, List.filter_cons]
    by_cases hc : c ∈ t.columns
    · obtain ⟨i, hi⟩ := exists_columnIndex?_of_mem hc
      rw [hi, if_pos (decide_eq_true hc), agreeOn, List.all_cons, cellUnder_eq_cellAt hi,
        cellUnder_eq_cellAt hi, ← agreeOn, ← ih]
      rfl
    · rw [columnIndex?_eq_none_iff.mpr hc, if_neg (by rwa [decide_eq_true_iff]), ih]

theorem filterMap_columnIndex?_eq_nil_iff {keys : List String} :
    keys.filterMap t.columnIndex? = [] ↔ keys.filter (· ∈ t.columns) = [] := by
  rw [List.filterMap_eq_nil_iff, List.filter_eq_nil_iff]
  refine forall₂_congr fun c _ ↦ ?_
  rw [decide_eq_true_iff, columnIndex?_eq_none_iff]

theorem distinctLast_of_ne_nil {keys : List String} (h : keys.filter (· ∈ t.columns) ≠ []) :
    t.distinctLast keys = { t with rows := lastOfEach (keys.filterMap t.columnIndex?) t.rows } := by
  rw [distinctLast]
  split
  case h_1 hnil => exact absurd (filterMap_columnIndex?_eq_nil_iff.mp hnil) h
  case h_2 => rfl

theorem agreeOn_comm (t : Table) (names : List String) (row other : List Value) :
    t.agreeOn names row other = t.agreeOn names other row := by
  rw [agreeOn, agreeOn]
  simp only [Value.sameKey_comm (t.cellUnder _ row)]

theorem agreeOn_trans {names : List String} {row other third : List Value}
    (h : t.agreeOn names row other = true) (h' : t.agreeOn names other third = true) :
    t.agreeOn names row third = true := by
  rw [agreeOn, List.all_eq_true] at h h' ⊢
  exact fun c hc ↦ Value.sameKey_trans (h c hc) (h' c hc)

/-- Where no column has both zeros, keys are the same if their content is equal. -/
theorem agreeOn_eq_equalOn {names : List String} (h : ¬t.MixesZeros names) {row other : List Value}
    (hrow : row ∈ t.rows) (hother : other ∈ t.rows) :
    t.agreeOn names row other = t.equalOn names row other := by
  rw [agreeOn, equalOn, Bool.eq_iff_iff, List.all_eq_true, List.all_eq_true]
  refine forall₂_congr fun c hc ↦ ?_
  rw [Value.same_iff_sameKey_or_zeros, eq_comm, or_iff_left]
  rintro (⟨hzero, hnegative⟩ | ⟨hnegative, hzero⟩)
  · exact h ⟨c, hc, row, hrow, other, hother, hzero, hnegative⟩
  · exact h ⟨c, hc, other, hother, row, hrow, hzero, hnegative⟩

/-- A key is the same as itself unless it has content that is not a number. -/
theorem agreeOn_self_iff {names : List String} {row : List Value} :
    t.agreeOn names row row = true
      ↔ ∀ c ∈ names, ∀ x, t.cellUnder c row = .real x → x.isNaN = false := by
  rw [agreeOn, List.all_eq_true]
  simp only [Value.sameKey_iff, true_and]

theorem any_sameKey_of_sameKey {key key' : List Value} (h : sameKey key key' = true)
    (hany : (rows.any fun row ↦ sameKey key' (keyAt positions row)) = true) :
    (rows.any fun row ↦ sameKey key (keyAt positions row)) = true := by
  obtain ⟨row, hrow, hsame⟩ := List.any_eq_true.mp hany
  exact List.any_eq_true.mpr ⟨row, hrow, sameKey_trans h hsame⟩

/-! ## A pass from the last row -/

section Scan

variable {found : List Value → List Value → Bool}

/-- A pass from the last row to the first: the keys that it remembers, and whether the key of each
row was new. A key is new if none that is remembered is found for it. -/
def scanKeys (found : List Value → List Value → Bool) (positions : List ℕ) :
    List (List Value) → List (List Value) × List Bool
  | [] => ([], [])
  | row :: rows =>
    let key := keyAt positions row
    let (seen, marks) := scanKeys found positions rows
    if seen.any (found key) then (seen, false :: marks) else (key :: seen, true :: marks)

/-- The keys of these rows are found exactly where they are the same. -/
def FindsEqual (found : List Value → List Value → Bool) (positions : List ℕ)
    (rows : List (List Value)) : Prop :=
  ∀ row ∈ rows, ∀ other ∈ rows,
    found (keyAt positions row) (keyAt positions other)
      = sameKey (keyAt positions row) (keyAt positions other)

/-- **The invariant.** Among the keys that are remembered a key is found exactly if it is the key of
one of the rows. -/
theorem any_fst_scanKeys {all : List (List Value)} (hfound : FindsEqual found positions all)
    (hrows : rows ⊆ all) {row : List Value} (hrow : row ∈ all) :
    (scanKeys found positions rows).1.any (found (keyAt positions row))
      = rows.any fun other ↦ sameKey (keyAt positions row) (keyAt positions other) := by
  induction rows generalizing row with
  | nil => rfl
  | cons first rows ih =>
    obtain ⟨hfirst, hrest⟩ := List.cons_subset.mp hrows
    rw [scanKeys, List.any_cons]
    dsimp only
    rw [ih hrest hfirst]
    by_cases hseen : (rows.any fun other ↦
        sameKey (keyAt positions first) (keyAt positions other)) = true
    · -- Whatever has the key of the first row has the key of a later one as well.
      rw [if_pos hseen, ih hrest hrow, Bool.eq_iff_iff, Bool.or_eq_true, iff_or_self]
      exact fun h ↦ any_sameKey_of_sameKey h hseen
    · rw [if_neg hseen, List.any_cons, ih hrest hrow, hfound row hrow first hfirst]

theorem snd_scanKeys_cons {row : List Value}
    (hfound : FindsEqual found positions (row :: rows)) :
    (scanKeys found positions (row :: rows)).2
      = (!rows.any fun other ↦ sameKey (keyAt positions row) (keyAt positions other))
        :: (scanKeys found positions rows).2 := by
  rw [scanKeys]
  dsimp only
  rw [any_fst_scanKeys hfound (List.subset_cons_self _ _) List.mem_cons_self]
  split
  case isTrue h => rw [h, Bool.not_true]
  case isFalse h => rw [Bool.eq_false_iff.mpr h, Bool.not_false]

theorem FindsEqual.tail {row : List Value} (h : FindsEqual found positions (row :: rows)) :
    FindsEqual found positions rows :=
  fun a ha b hb ↦ h a (List.mem_cons_of_mem _ ha) b (List.mem_cons_of_mem _ hb)

theorem getElem?_snd_scanKeys (hfound : FindsEqual found positions rows) (i : ℕ) :
    i < rows.length → (scanKeys found positions rows).2[i]?
      = some (!(rows.drop (i + 1)).any fun other ↦
        sameKey (keyAt positions (rowAt rows i)) (keyAt positions other)) := by
  induction rows generalizing i with
  | nil => exact fun hi ↦ absurd hi (Nat.not_lt_zero i)
  | cons row rows ih =>
    intro hi
    rw [snd_scanKeys_cons hfound]
    rcases i with _ | i
    · rfl
    · rw [List.getElem?_cons_succ, ih hfound.tail i (Nat.lt_of_succ_lt_succ hi)]
      rfl

/-- **Marked rows.** They are the last ones of their keys. -/
theorem lastOfEach_eq_marked (hfound : FindsEqual found positions rows) (columns : List String) :
    lastOfEach positions rows = (keepRows ⟨columns, rows⟩ fun i ↦
      (scanKeys found positions rows).2[i]?.getD false).rows := by
  induction rows with
  | nil => rfl
  | cons row rows ih =>
    rw [lastOfEach, rows_keepRows_cons, snd_scanKeys_cons hfound, ih hfound.tail]
    simp only [List.getElem?_cons_zero, Option.getD_some, List.getElem?_cons_succ]
    by_cases h : (rows.any fun later ↦
        sameKey (keyAt positions row) (keyAt positions later)) = true
    · rw [if_pos h, h, Bool.not_true, if_neg Bool.false_ne_true]
    · rw [if_neg h, Bool.eq_false_iff.mpr h, Bool.not_false, if_pos rfl]

end Scan

/-- **One pass.** The rows that stay are those that a pass from the last row marks, however it finds
the keys that it remembers, as long as these are found exactly where they are the same. -/
theorem distinctLast_eq_keepRows_marks {found : List Value → List Value → Bool} {keys : List String}
    (h : keys.filter (· ∈ t.columns) ≠ [])
    (hfound : FindsEqual found (keys.filterMap t.columnIndex?) t.rows) :
    t.distinctLast keys = t.keepRows fun i ↦
      (scanKeys found (keys.filterMap t.columnIndex?) t.rows).2[i]?.getD false := by
  rw [distinctLast_of_ne_nil h, lastOfEach_eq_marked hfound t.columns]
  rfl

/-! ## Keys of the rows that stay -/

theorem countP_lastOfEach (positions : List ℕ) (rows : List (List Value)) (key : List Value) :
    (lastOfEach positions rows).countP (fun row ↦ sameKey key (keyAt positions row))
      = if rows.any fun row ↦ sameKey key (keyAt positions row) then 1 else 0 := by
  induction rows with
  | nil => rfl
  | cons row rows ih =>
    rw [lastOfEach, List.any_cons]
    by_cases hlater : (rows.any fun later ↦
        sameKey (keyAt positions row) (keyAt positions later)) = true
    · -- A later row has the key of this one, so nothing is lost without it.
      rw [if_pos hlater, ih]
      by_cases hkey : sameKey key (keyAt positions row) = true
      · rw [any_sameKey_of_sameKey hkey hlater, Bool.or_true]
      · rw [Bool.eq_false_iff.mpr hkey, Bool.false_or]
    · rw [if_neg hlater, List.countP_cons, ih]
      by_cases hkey : sameKey key (keyAt positions row) = true
      · have hnone : ¬(rows.any fun other ↦ sameKey key (keyAt positions other)) = true := by
          intro hother
          have hsame : sameKey (keyAt positions row) key = true := sameKey_comm key _ ▸ hkey
          exact hlater (any_sameKey_of_sameKey hsame hother)
        rw [if_neg hnone, if_pos hkey, hkey, Bool.true_or, if_pos rfl]
      · rw [if_neg hkey, Bool.eq_false_iff.mpr hkey, Bool.false_or, Nat.add_zero]

theorem count_lastOfEach {row : List Value}
    (h : ∀ other, sameKey (keyAt positions row) (keyAt positions other) = false)
    (rows : List (List Value)) : (lastOfEach positions rows).count row = rows.count row := by
  induction rows with
  | nil => rfl
  | cons first rows ih =>
    rw [lastOfEach]
    split
    case isTrue hlater =>
      obtain ⟨later, -, hsame⟩ := List.any_eq_true.mp hlater
      have hne : first ≠ row := by
        rintro rfl
        rw [h later] at hsame
        cases hsame
      rw [ih, List.count_cons_of_ne hne]
    case isFalse => rw [List.count_cons, List.count_cons, ih]

theorem lastOfEach_lastOfEach (positions : List ℕ) (rows : List (List Value)) :
    lastOfEach positions (lastOfEach positions rows) = lastOfEach positions rows := by
  induction rows with
  | nil => rfl
  | cons row rows ih =>
    rw [lastOfEach]
    split
    case isTrue => exact ih
    case isFalse hlater =>
      have hnone : ¬((lastOfEach positions rows).any fun later ↦
          sameKey (keyAt positions row) (keyAt positions later)) = true := by
        intro hany
        obtain ⟨later, hmem, hsame⟩ := List.any_eq_true.mp hany
        exact hlater (List.any_eq_true.mpr
          ⟨later, (lastOfEach_sublist positions rows).subset hmem, hsame⟩)
      rw [lastOfEach, if_neg hnone, ih]

/-! ## The rows that stay -/

section Named

variable {keys : List String}

theorem distinctLast_of_eq_nil (h : keys.filter (· ∈ t.columns) = []) :
    t.distinctLast keys = t := by
  rw [distinctLast, filterMap_columnIndex?_eq_nil_iff.mpr h]

theorem distinctLast_distinctLast (t : Table) (keys : List String) :
    (t.distinctLast keys).distinctLast keys = t.distinctLast keys := by
  by_cases h : keys.filter (· ∈ t.columns) = []
  · rw [distinctLast_of_eq_nil h, distinctLast_of_eq_nil h]
  · rw [distinctLast_of_ne_nil h]
    refine (distinctLast_of_ne_nil
      (t := ⟨t.columns, lastOfEach (keys.filterMap t.columnIndex?) t.rows⟩) h).trans ?_
    exact congrArg (Table.mk t.columns) (lastOfEach_lastOfEach _ t.rows)

variable (h : keys.filter (· ∈ t.columns) ≠ [])

include h

/-- A row stays if no row below it agrees with it. -/
theorem distinctLast_eq_keepRows :
    t.distinctLast keys = t.keepRows fun i ↦
      !(t.rows.drop (i + 1)).any (t.agreeOn (keys.filter (· ∈ t.columns)) (rowAt t.rows i)) := by
  have hfound : FindsEqual sameKey (keys.filterMap t.columnIndex?) t.rows := fun _ _ _ _ ↦ rfl
  refine (distinctLast_eq_keepRows_marks h hfound).trans (keepRows_congr t fun i hi ↦ ?_)
  rw [getElem?_snd_scanKeys hfound i hi, Option.getD_some]
  simp only [sameKey_keyAt]

theorem length_distinctLast_eq_classCount :
    (t.distinctLast keys).rows.length
      = classCount (t.agreeOn (keys.filter (· ∈ t.columns))) t.rows := by
  rw [distinctLast_of_ne_nil h]
  dsimp only
  rw [length_lastOfEach, classCount_map sameKey_comm fun _ _ _ ↦ sameKey_trans]
  simp only [sameKey_keyAt]

theorem countP_distinctLast {row : List Value} (hrow : row ∈ t.rows)
    (hself : t.agreeOn (keys.filter (· ∈ t.columns)) row row = true) :
    (t.distinctLast keys).rows.countP (t.agreeOn (keys.filter (· ∈ t.columns)) row) = 1 := by
  have hcount := countP_lastOfEach (keys.filterMap t.columnIndex?) t.rows
    (keyAt (keys.filterMap t.columnIndex?) row)
  simp only [sameKey_keyAt] at hcount
  rw [if_pos (List.any_eq_true.mpr ⟨row, hrow, hself⟩)] at hcount
  rw [distinctLast_of_ne_nil h]
  exact hcount

theorem count_distinctLast {row : List Value}
    (hself : ¬t.agreeOn (keys.filter (· ∈ t.columns)) row row = true) :
    (t.distinctLast keys).rows.count row = t.rows.count row := by
  rw [distinctLast_of_ne_nil h]
  refine count_lastOfEach (fun other ↦ ?_) t.rows
  rw [sameKey_keyAt, Bool.eq_false_iff]
  exact fun hsame ↦ hself (agreeOn_trans hsame (agreeOn_comm t _ row other ▸ hsame))

end Named

/-- **The last row of every key.** Rows are compared by the columns of the key that a table has.
Where it has none, all rows stay. Otherwise a row stays, at its place and with its cells, exactly if
no row below it has the same key in these columns. A key that is there before is there once; where
it has content that is not a number, all its rows stay. To do so again changes nothing, and a cap
leaves the first rows of these, as many as it allows and as there are keys. Unless a column has both
zeros, the same key is equal content. -/
theorem distinctLast_keeps_last (t : Table) (keys : List String) :
    let names := keys.filter (· ∈ t.columns)
    let left := t.distinctLast keys
    (names = [] → left = t) ∧ (names ≠ [] →
      left = t.keepRows (fun i ↦ !(t.rows.drop (i + 1)).any (t.agreeOn names (rowAt t.rows i))) ∧
      (∀ row ∈ t.rows, (∀ c ∈ names, ∀ x, t.cellUnder c row = .real x → x.isNaN = false) →
        left.rows.countP (t.agreeOn names row) = 1) ∧
      (∀ row, (∃ c ∈ names, ∃ x, t.cellUnder c row = .real x ∧ x.isNaN = true) →
        left.rows.count row = t.rows.count row) ∧
      left.distinctLast keys = left ∧
      (∀ n, (t.finish [.distinct keys, .cap n]).rows
          = left.rows.take (min n (classCount (t.agreeOn names) t.rows)) ∧
        (t.finish [.distinct keys, .cap n]).rows.length
          = min n (classCount (t.agreeOn names) t.rows)) ∧
      (¬t.MixesZeros names → ∀ row ∈ t.rows, ∀ other ∈ t.rows,
        t.agreeOn names row other = t.equalOn names row other)) := by
  intro names left
  refine ⟨distinctLast_of_eq_nil, fun hsome ↦ ?_⟩
  have hlength := length_distinctLast_eq_classCount hsome
  refine ⟨distinctLast_eq_keepRows hsome, fun row hrow hnumbers ↦ ?_, fun row hundefined ↦ ?_,
    distinctLast_distinctLast t keys, fun n ↦ ?_,
    fun hzeros row hrow other hother ↦ agreeOn_eq_equalOn hzeros hrow hother⟩
  · exact countP_distinctLast hsome hrow (agreeOn_self_iff.mpr hnumbers)
  · obtain ⟨c, hc, x, hx, hnan⟩ := hundefined
    refine count_distinctLast hsome fun hself ↦ ?_
    rw [agreeOn_self_iff.mp hself c hc x hx] at hnan
    cases hnan
  · have hrows : (t.finish [.distinct keys, .cap n]).rows = left.rows.take n := rfl
    rw [hrows, List.length_take, ← hlength]
    exact ⟨List.take_eq_take_min, rfl⟩

/-- Rows with the same key, one of them with other cells, and two keys that are not numbers. -/
def repeatedWords : Table where
  columns := ["form", "frequency", "lemma"]
  rows := [[.text "on", .int 90, .text "olla"], [.text "talo", .int 7, .text "talo"],
    [.text "on", .int 10, .text "olla"], [.real (0 / 0), .int 1, .null],
    [.real (0 / 0), .int 1, .null]]

theorem distinctLast_keeps_last_repeatedWords :
    rowKey.filter (· ∈ repeatedWords.columns) ≠ [] ∧
      [.text "on", .int 90, .text "olla"] ∈ repeatedWords.rows ∧
      (repeatedWords.distinctLast rowKey).rows.countP
        (repeatedWords.agreeOn ["lemma", "form"] [.text "on", .int 90, .text "olla"]) = 1 ∧
      (repeatedWords.distinctLast rowKey).rows.count [.real (0 / 0), .int 1, .null] = 2 ∧
      (repeatedWords.finish [.distinct rowKey, .cap 3]).rows.length = 3 ∧
      ¬repeatedWords.MixesZeros ["lemma", "form"] ∧
      repeatedWords.equalOn ["lemma", "form"] [.text "on", .int 90, .text "olla"]
        [.text "on", .int 10, .text "olla"] = true := by
  have hnames : rowKey.filter (· ∈ repeatedWords.columns) = ["lemma", "form"] := by decide
  have hsome : rowKey.filter (· ∈ repeatedWords.columns) ≠ [] := by decide
  have hmem : [.text "on", .int 90, .text "olla"] ∈ repeatedWords.rows := by decide
  obtain ⟨-, hleft⟩ := distinctLast_keeps_last repeatedWords rowKey
  obtain ⟨-, honce, hall, -, hcap, hequal⟩ := hleft hsome
  rw [hnames] at honce hall hcap hequal
  have hzeros : ¬repeatedWords.MixesZeros ["lemma", "form"] := by decide
  refine ⟨hsome, hmem, honce _ hmem (agreeOn_self_iff.mp (by decide)), ?_, ?_, hzeros, ?_⟩
  · exact (hall _ ⟨"form", by decide, 0 / 0, by decide, by decide⟩).trans (by decide)
  · exact (hcap 3).2.trans (by decide)
  · exact (hequal hzeros _ hmem _ (by decide)).symm.trans (by decide)

end Table

end CorpusQuery

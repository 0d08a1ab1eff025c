import CorpusQuery.Proofs.Query.Filtering
import CorpusQuery.Proofs.RowExpr.Knownness

/-!
# What evaluation reads

Evaluation looks cells up by the names of their columns, and only where an expression mentions a
column. So nothing else in a row makes a difference, neither to a value nor to an error, and it does
not matter whether the row is given by its cells or by its record. The list of columns has those
behind an operand that decides alone as well, although evaluation may never get to them.

Hence a row that has the listed columns never lacks one, whatever is found in them. A scan relies on
this: it compares the lists of its filters with the columns of the export once, before the first
record is read.

## Main statements

* `RowExpr.lacksOnly_eval`: the columns that evaluation can fail to find.
* `columns_are_what_is_read`: the list of columns and what depends on it.
* `Export.collect_ne_columnNotFound`: scans.
-/

namespace CorpusQuery

namespace RowExpr

variable {α β : Type} {P : String → Prop} {row row' : Row} {e : RowExpr}

/-! ## Columns that are not found -/

/-- If a result says that a column was not found, it is one with `P`. -/
def LacksOnly (P : String → Prop) (result : Except RowError α) : Prop :=
  ∀ c, result = .error (.columnNotFound c) → P c

namespace LacksOnly

theorem ok (a : α) : LacksOnly P (.ok a : Except RowError α) := nofun

theorem bind {x : Except RowError α} {f : α → Except RowError β} (hx : LacksOnly P x)
    (hf : ∀ a, LacksOnly P (f a)) : LacksOnly P (x >>= f) := by
  intro c hc
  cases x with
  | error err => exact hx c (congrArg Except.error (Except.error.inj hc))
  | ok a => exact hf a c hc

theorem truth (v : Value) : LacksOnly P v.truth := by
  intro c hc
  cases v <;> cases hc

end LacksOnly

/-- **Columns that are not found.** Evaluation misses a column only if the expression names it and
the row does not have it. -/
theorem lacksOnly_eval (h : ∀ c, e.Names c → row c = none → P c) : LacksOnly P (e.eval row) := by
  induction e with
  | column name =>
    rw [eval]
    split
    · exact .ok _
    · next hrow =>
      intro c hc
      obtain rfl := RowError.columnNotFound.inj (Except.error.inj hc)
      exact h _ rfl hrow
  | literal v => exact .ok v
  | strip e _ ih | test e _ _ ih | isIn e _ ih =>
    rw [eval]
    exact (ih h).bind fun v ↦ .ok _
  | compare l _ r ihl ihr =>
    rw [eval]
    refine (ihl fun c hc ↦ h c (.inl hc)).bind fun v ↦ ?_
    exact (ihr fun c hc ↦ h c (.inr hc)).bind fun w ↦ .ok _
  | and l r ihl ihr | or l r ihl ihr =>
    rw [eval]
    refine (ihl fun c hc ↦ h c (.inl hc)).bind fun v ↦ (LacksOnly.truth v).bind fun s ↦ ?_
    split
    · exact .ok _
    · -- Only here is the right operand looked at.
      exact (ihr fun c hc ↦ h c (.inr hc)).bind fun w ↦ (LacksOnly.truth w).bind fun t ↦ .ok _
  | not e ih =>
    rw [eval]
    exact (ih h).bind fun v ↦ (LacksOnly.truth v).bind fun t ↦ .ok _

theorem lacksOnly_truth (h : ∀ c, e.Names c → row c = none → P c) : LacksOnly P (e.truth row) :=
  (lacksOnly_eval h).bind .truth

theorem lacksOnly_holds (h : ∀ c, e.Names c → row c = none → P c) : LacksOnly P (e.holds row) :=
  (lacksOnly_truth h).bind fun _ ↦ .ok _

theorem lacksOnly_allHold {es : List RowExpr}
    (h : ∀ e ∈ es, ∀ c, e.Names c → row c = none → P c) : LacksOnly P (allHold row es) := by
  induction es with
  | nil => exact .ok true
  | cons e es ih =>
    obtain ⟨he, hes⟩ := List.forall_mem_cons.mp h
    rw [allHold]
    refine (lacksOnly_holds he).bind fun kept ↦ ?_
    split
    · exact ih hes
    · exact .ok false

/-! ## The columns of an expression -/

theorem ne_none_of_covers (h : row.Covers e.columns) {c : String} (hc : e.Names c) :
    row c ≠ none := by
  obtain ⟨v, hv⟩ := h c (mem_columns.mpr hc)
  rw [hv]
  exact Option.some_ne_none v

theorem truth_congr (h : ∀ c, e.Names c → row c = row' c) : e.truth row = e.truth row' := by
  rw [truth, truth, eval_congr h]

end RowExpr

open RowExpr (FirstMentions)

/-- **What evaluation reads.** On rows with the same cells in the listed columns an expression has
the same value, the same truth and the same errors. If a row has all listed columns, none is said to
be missing. The columns are listed once each, in the order in which they are mentioned first. -/
theorem columns_are_what_is_read (e : RowExpr) :
    (∀ row row' : Row, (∀ c ∈ e.columns, row c = row' c) →
      e.eval row = e.eval row' ∧ e.truth row = e.truth row' ∧ e.holds row = e.holds row') ∧
    (∀ row : Row, row.Covers e.columns → ∀ c, e.eval row ≠ .error (.columnNotFound c) ∧
      e.truth row ≠ .error (.columnNotFound c) ∧ e.holds row ≠ .error (.columnNotFound c)) ∧
    e.columns.Nodup ∧ FirstMentions e.columns e.mentions := by
  have hcolumns := e.firstMentions_columns
  refine ⟨fun row row' h ↦ ?_, fun row h c ↦ ?_, hcolumns.nodup, hcolumns⟩
  · have hnames : ∀ c, e.Names c → row c = row' c := fun c hc ↦ h c (RowExpr.mem_columns.mpr hc)
    exact ⟨RowExpr.eval_congr hnames, RowExpr.truth_congr hnames, RowExpr.holds_congr hnames⟩
  · have hnames : ∀ c, e.Names c → row c = none → False := fun c hc ↦ RowExpr.ne_none_of_covers h hc
    exact ⟨RowExpr.lacksOnly_eval hnames c, RowExpr.lacksOnly_truth hnames c,
      RowExpr.lacksOnly_holds hnames c⟩

/-- A test with a column that is mentioned twice, and with one behind two operands that may decide
alone. -/
def nestedTest : RowExpr :=
  .or (.test (.column "form") .endsWith "ssa")
    (.and (.compare (.strip (.column "lemma") '#') .equal (.column "form")) (.column "frequency"))

/-- The cells of a row, and the record of a row without part of speech that has the same cells
otherwise: the same error is found in both. -/
theorem columns_are_what_is_read_nestedTest :
    let row := Row.ofCells ["lemma", "form", "pos", "frequency"]
      [.text "auto#talli", .text "autotalli", .text "NOUN", .text "few"]
    let row' := Row.ofRecord ["frequency", "form", "lemma"]
      [.text "few", .text "autotalli", .text "auto#talli"]
    nestedTest.columns = ["form", "lemma", "frequency"] ∧
      (∀ c ∈ nestedTest.columns, row c = row' c) ∧
      nestedTest.truth row = .error (.notBoolean .text) ∧
      nestedTest.truth row' = .error (.notBoolean .text) ∧
      row.Covers nestedTest.columns ∧ ∀ c, nestedTest.holds row ≠ .error (.columnNotFound c) := by
  intro row row'
  have hcolumns : nestedTest.columns = ["form", "lemma", "frequency"] := rfl
  have hsame : ∀ c ∈ nestedTest.columns, row c = row' c := by decide
  have herror : nestedTest.truth row = .error (.notBoolean .text) := rfl
  have hcovers : row.Covers nestedTest.columns := by
    intro c hc
    obtain rfl | rfl | rfl : c = "form" ∨ c = "lemma" ∨ c = "frequency" := by
      simpa [hcolumns] using hc
    · exact ⟨_, rfl⟩
    · exact ⟨_, rfl⟩
    · exact ⟨_, rfl⟩
  obtain ⟨hcongr, hfound, -⟩ := columns_are_what_is_read nestedTest
  obtain ⟨-, htruth, -⟩ := hcongr row row' hsame
  exact ⟨hcolumns, hsame, herror, htruth.symm.trans herror, hcovers,
    fun c ↦ (hfound row hcovers c).2.2⟩

/-! ## Scans -/

namespace Export

theorem mem_columnNamesOf_of_unknownColumn? {e : Export} {s : Scan} (h : e.unknownColumn? s = none)
    {expr : RowExpr} (hexpr : expr ∈ s.filters) {c : String} (hc : expr.Names c) :
    c ∈ e.columnNamesOf := by
  have hmem : c ∈ s.filters.flatMap (·.columns) ++ (s.sort.map (·.1)).toList :=
    List.mem_append_left _ (List.mem_flatMap.mpr ⟨expr, hexpr, RowExpr.mem_columns.mpr hc⟩)
  simpa using List.find?_eq_none.mp h c hmem

theorem scanRows_ne_columnNotFound {e : Export} {filters : List RowExpr}
    (h : ∀ expr ∈ filters, ∀ c, expr.Names c → c ∈ e.columnNamesOf)
    (records : List (Except RecordError (List String))) (c : String) :
    e.scanRows filters records ≠ .error (.filter (.columnNotFound c)) := by
  induction records with
  | nil =>
    intro hc
    cases hc
  | cons record records ih =>
    cases record with
    | error fault =>
      intro hc
      cases hc
    | ok cells =>
      have hfound : RowExpr.LacksOnly (fun _ ↦ False)
          (RowExpr.allHold (.ofCells e.columnNamesOf (e.typedRow cells)) filters) := by
        refine RowExpr.lacksOnly_allHold fun expr hexpr d hd hnone ↦ ?_
        obtain ⟨v, hv⟩ := e.covers_typedRow cells d (h expr hexpr d hd)
        cases hnone.symm.trans hv
      rw [scanRows]
      cases hkept : RowExpr.allHold (.ofCells e.columnNamesOf (e.typedRow cells)) filters with
      | error err =>
        intro hc
        obtain rfl := FileError.filter.inj (Except.error.inj hc)
        exact hfound c hkept
      | ok kept =>
        cases hrows : e.scanRows filters records with
        | error err =>
          intro hc
          exact ih (hrows.trans (congrArg Except.error (Except.error.inj hc)))
        | ok rows =>
          intro hc
          cases hc

/-- **Scans.** A column that is not there is noticed before the first record is read, or it is not
asked for. -/
theorem collect_ne_columnNotFound (e : Export) (s : Scan) (c : String) :
    e.collect s ≠ .error (.filter (.columnNotFound c)) := by
  rw [collect]
  split
  · intro hc
    cases hc
  · next hnone =>
    have hrows := scanRows_ne_columnNotFound
      (fun expr hexpr c ↦ mem_columnNamesOf_of_unknownColumn? hnone hexpr)
      (dataRecords e.format e.records) c
    cases hscan : e.scanRows s.filters (dataRecords e.format e.records) with
    | error err =>
      intro hc
      exact hrows (hscan.trans (congrArg Except.error (Except.error.inj hc)))
    | ok rows =>
      intro hc
      cases hc

end Export

end CorpusQuery

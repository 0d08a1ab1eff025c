import CorpusQuery.Proofs.Query.ClauseOrder
import CorpusQuery.Proofs.Query.FlatScan
import Mathlib.Data.List.Induction

/-!
# Filtering while reading and filtering afterwards

A query over an export can be answered in two ways. Its filters can be handed to the scan, which
tests each record as it is read and stops testing at the first filter that fails; or everything can
be read first, and the filters applied to the table. The second way tests all rows before it drops
any, and drops them by position.

Both give the same table, however the scan was put together. Filters decide every record, so neither
way can stop at a filter that the other does not come to, and a fault in the file stops both at the
same record. Sorting comes after filtering in both, and a scan takes its cap last whatever came last
when it was built.

## Main statements

* `Export.Scan.build_eq`: what the steps of a builder make of a scan.
* `RowFilter.ConditionsOn.scanRows_eq_map`: filtering while reading is filtering what was read.
* `RowFilter.apply_eq_keepRows`: filtering a table by position.
* `filter_pushdown`: both ways give the same table.
-/

namespace CorpusQuery

namespace Export

/-! ## Building scans -/

/-- A call on the builder of a scan. -/
inductive ScanStep where
  | filter (e : RowExpr)
  | sort (column : String) (ascending : Bool)
  | limit (n : Nat)
deriving DecidableEq

namespace ScanStep

def filter? : ScanStep → Option RowExpr
  | filter e => some e
  | _ => none

def sort? : ScanStep → Option (String × Bool)
  | sort column ascending => some (column, ascending)
  | _ => none

def limit? : ScanStep → Option Nat
  | limit n => some n
  | _ => none

end ScanStep

namespace Scan

/-- Filters add up; a new order or cap takes the place of the one before. -/
def add (s : Scan) : ScanStep → Scan
  | .filter e => { s with filters := s.filters ++ [e] }
  | .sort column ascending => { s with sort := some (column, ascending) }
  | .limit n => { s with limit := some n }

/-- The scan after all calls. -/
def build (steps : List ScanStep) : Scan := steps.foldl add {}

/-- **Building.** All filters are kept in their order, and the last order and the last cap. -/
theorem build_eq (steps : List ScanStep) :
    build steps = ⟨steps.filterMap (·.filter?), (steps.filterMap (·.sort?)).getLast?,
      (steps.filterMap (·.limit?)).getLast?⟩ := by
  induction steps using List.reverseRecOn with
  | nil => rfl
  | append_singleton steps step ih =>
    have hlast : build (steps ++ [step]) = (build steps).add step := by
      rw [build, List.foldl_append]
      rfl
    rw [hlast, ih, List.filterMap_append, List.filterMap_append, List.filterMap_append]
    cases step <;> simp [add, ScanStep.filter?, ScanStep.sort?, ScanStep.limit?]

end Scan

end Export

namespace RowFilter

open Export (ScanStep)

/-- The calls that hand a filter to a scan. -/
def scanSteps (f : RowFilter) : List ScanStep := f.steps.map fun step ↦ .filter step.expr

/-- In whichever order a scan is built, it has the filters in some order, and the order and the cap
that it was given. -/
theorem exists_build_of_perm {f : RowFilter} {column : String} {ascending : Bool} {n : Nat}
    {steps : List ScanStep}
    (h : steps.Perm (f.scanSteps ++ [.sort column ascending, .limit n])) :
    ∃ f' : RowFilter, f'.steps.Perm f.steps ∧ Export.Scan.build steps =
      ⟨f'.steps.map (·.expr), some (column, ascending), some n⟩ := by
  have hfilters : (steps.filterMap (·.filter?)).Perm (f.steps.map (·.expr)) := by
    refine (h.filterMap _).trans (.of_eq ?_)
    simp [scanSteps, List.filterMap_append, List.filterMap_map, ScanStep.filter?]
  have hsort : steps.filterMap (·.sort?) = [(column, ascending)] := by
    refine List.perm_singleton.mp ((h.filterMap _).trans (.of_eq ?_))
    simp [scanSteps, List.filterMap_append, List.filterMap_map, ScanStep.sort?]
  have hlimit : steps.filterMap (·.limit?) = [n] := by
    refine List.perm_singleton.mp ((h.filterMap _).trans (.of_eq ?_))
    simp [scanSteps, List.filterMap_append, List.filterMap_map, ScanStep.limit?]
  -- The expressions are those of the same filters in another order.
  obtain ⟨filters, hmap, hperm⟩ :
      ∃ l : List FilterStep, steps.filterMap (·.filter?) = l.map (·.expr) ∧ l.Perm f.steps := by
    have hcomp := congrFun (congrFun (List.eq_map_comp_perm FilterStep.expr)
      (steps.filterMap (·.filter?))) f.steps
    exact hcomp.mpr hfilters
  refine ⟨⟨filters⟩, hperm, ?_⟩
  rw [Export.Scan.build_eq, hmap, hsort, hlimit]
  rfl

/-! ## Filtering while reading -/

variable {e : Export} {f f' : RowFilter} {columns : List String}

theorem exists_eq_typedRow_of_scanRows {filters : List RowExpr}
    {records : List (Except RecordError (List String))} {rows : List (List Value)}
    (h : e.scanRows filters records = .ok rows) :
    ∀ row ∈ rows, ∃ cells, row = e.typedRow cells := by
  induction records generalizing rows with
  | nil =>
    obtain rfl := Except.ok.inj h
    exact fun _ hrow ↦ absurd hrow List.not_mem_nil
  | cons record records ih =>
    rcases record with fault | cells
    · cases h
    · rw [Export.scanRows] at h
      obtain ⟨kept, -, h⟩ := exists_of_bind_eq_ok h
      obtain ⟨rest, hrest, h⟩ := exists_of_bind_eq_ok h
      obtain rfl := Except.ok.inj h
      cases kept with
      | false => exact ih hrest
      | true => exact List.forall_mem_cons.mpr ⟨⟨cells, rfl⟩, ih hrest⟩

/-- **Filtering while reading.** A scan with filters returns what passes of a scan without, and
stops at the same fault. -/
theorem ConditionsOn.scanRows_eq_map (hf : ConditionsOn e.columnNamesOf f)
    (records : List (Except RecordError (List String))) :
    e.scanRows (f.steps.map (·.expr)) records
      = (e.scanRows [] records).map (List.filter (f.passes e.columnNamesOf)) := by
  induction records with
  | nil => rfl
  | cons record records ih =>
    rcases record with fault | cells
    · rfl
    · have hholds := hf.holds_typedRow cells
      rw [holds] at hholds
      rw [Export.scanRows, hholds, ih, Export.scanRows, RowExpr.allHold]
      cases e.scanRows [] records with
      | error fault => rfl
      | ok rows => exact congrArg Except.ok (List.filter_cons ..).symm

theorem ConditionsOn.of_perm (hf : ConditionsOn columns f) (h : f'.steps.Perm f.steps) :
    ConditionsOn columns f' :=
  fun expr hexpr ↦ hf expr ((h.map FilterStep.expr).mem_iff.mp hexpr)

theorem ConditionsOn.passes_eq_of_perm (hf : ConditionsOn columns f) (h : f'.steps.Perm f.steps)
    {cells : List Value} (hcells : columns.length ≤ cells.length) :
    f'.passes columns cells = f.passes columns cells := by
  rw [passes, passes, holds_eq_of_perm hf h (Row.covers_ofCells hcells)]

/-! ## Filtering afterwards -/

/-- The rows that pass, found by position behind rows whose tests are known. -/
theorem keepRows_eq_filter_zipIdx (f : RowFilter) (columns : List String)
    (rows : List (List Value)) (before : List Bool) :
    f.keepRows columns rows = (rows.mapM fun row ↦ f.holds (.ofCells columns row)).map fun keep ↦
      ((rows.zipIdx before.length).filter fun x ↦ (before ++ keep)[x.2]?.getD false).map
        (·.1) := by
  induction rows generalizing before with
  | nil => rfl
  | cons row rows ih =>
    rw [keepRows, List.mapM_cons]
    cases f.holds (.ofCells columns row) with
    | error fault => rfl
    | ok kept =>
      have hrest := ih (before ++ [kept])
      rw [List.length_append] at hrest
      dsimp only [bind, Except.bind]
      rw [hrest]
      cases rows.mapM fun row ↦ f.holds (.ofCells columns row) with
      | error fault => rfl
      | ok keep =>
        refine congrArg Except.ok ?_
        cases kept <;> simp

/-- **By position.** A table is filtered by testing all of its rows, and then keeping those at the
positions where the test succeeded. -/
theorem apply_eq_keepRows (f : RowFilter) (t : Table) :
    f.apply t = (t.rows.mapM fun row ↦ f.holds (.ofCells t.columns row)).map fun keep ↦
      t.keepRows fun i ↦ keep[i]?.getD false := by
  rw [apply, keepRows_eq_filter_zipIdx f t.columns t.rows []]
  cases t.rows.mapM fun row ↦ f.holds (.ofCells t.columns row) <;> rfl

theorem ConditionsOn.apply_eq_ok (hf : ConditionsOn columns f) {rows : List (List Value)}
    (hrows : ∀ cells ∈ rows, columns.length ≤ cells.length) :
    f.apply ⟨columns, rows⟩ = .ok ⟨columns, rows.filter (f.passes columns)⟩ := by
  obtain ⟨kept, hkept⟩ := hf.exists_keepRows hrows
  rw [apply, hkept, eq_filter_of_keepRows hkept]
  rfl

end RowFilter

/-- Everything is read, then filtered, sorted and cut. -/
def Export.collectThenFilter (e : Export) (f : TableFilter) (column : String) (ascending : Bool)
    (n : Nat) : Except FileError Table := do
  let whole ← e.collect {}
  let kept ← (f.apply whole).mapError .filter
  return ((kept.sortBy? column ascending).getD kept).take n

namespace RowFilter

variable {e : Export} {f f' : RowFilter} {columns : List String}

/-- **Both ways.** A scan with the filters in any order returns what is left if everything is read
first. -/
theorem ConditionsOn.collect_eq_collectThenFilter (hf : ConditionsOn e.columnNamesOf f)
    (h : f'.steps.Perm f.steps) {column : String} (hcolumn : column ∈ e.columnNamesOf)
    (ascending : Bool) (n : Nat) :
    e.collect ⟨f'.steps.map (·.expr), some (column, ascending), some n⟩
      = e.collectThenFilter ⟨f, none⟩ column ascending n := by
  have hf' := hf.of_perm h
  have hknown : e.unknownColumn? ⟨f'.steps.map (·.expr), some (column, ascending), some n⟩
      = none := by
    rw [hf'.unknownColumn?_eq rfl, Option.map_some, Option.filter_some,
      List.contains_iff_mem.mpr hcolumn]
    rfl
  have hwhole : e.collect {} = (e.scanRows [] (Export.dataRecords e.format e.records)).map
      (Table.mk e.columnNamesOf) := by
    rw [Export.collect]
    dsimp only [Export.unknownColumn?, List.flatMap_nil, Option.map_none, Option.toList_none,
      List.append_nil, List.find?_nil]
    cases e.scanRows [] (Export.dataRecords e.format e.records) <;> rfl
  rw [Export.collect, hknown]
  dsimp only
  rw [hf'.scanRows_eq_map, Export.collectThenFilter, hwhole]
  cases hrows : e.scanRows [] (Export.dataRecords e.format e.records) with
  | error fault => rfl
  | ok rows =>
    have hlength : ∀ cells ∈ rows, e.columnNamesOf.length ≤ cells.length := by
      intro cells hcells
      obtain ⟨texts, rfl⟩ := exists_eq_typedRow_of_scanRows hrows cells hcells
      exact Nat.le_of_eq (e.length_typedRow texts).symm
    have hsame : rows.filter (f'.passes e.columnNamesOf) = rows.filter (f.passes e.columnNamesOf) :=
      List.filter_congr fun cells hcells ↦ hf.passes_eq_of_perm h (hlength cells hcells)
    have hkept : TableFilter.apply ⟨f, none⟩ ⟨e.columnNamesOf, rows⟩
        = .ok ⟨e.columnNamesOf, rows.filter (f.passes e.columnNamesOf)⟩ := by
      rw [TableFilter.apply, hf.apply_eq_ok hlength]
      rfl
    simp only [Except.map, bind, Except.bind, hkept, hsame]
    rfl

end RowFilter

/-- **Filtering while reading is filtering afterwards.** Every query that was read over the columns
of an export has filters. Handed to a scan together with a column of the export to sort by and a
cap, in any order, they give the table that is left if everything is read first and then filtered,
sorted and cut, or the same fault; and where all records can be read there is a table. -/
theorem filter_pushdown {e : Export} {totals : Totals} {input : String} {q : Query}
    (hread : Query.read (.columnar e.columnNamesOf) totals input = .ok q) (htop : q.top = none) :
    ∃ f, RowFilter.compileSteps (.columnar e.columnNamesOf) q = .ok f ∧
      (q.predicates ≠ [] → RowFilter.compile (.columnar e.columnNamesOf) q = .ok f) ∧
      TableFilter.compile (.columnar e.columnNamesOf) q = .ok ⟨f, none⟩ ∧
      ∀ column ∈ e.columnNamesOf, ∀ (ascending : Bool) (n : Nat),
        (∀ steps, steps.Perm (f.scanSteps ++ [.sort column ascending, .limit n]) →
          e.collect (.build steps) = e.collectThenFilter ⟨f, none⟩ column ascending n) ∧
        (e.Readable → ∃ t, e.collectThenFilter ⟨f, none⟩ column ascending n = .ok t) := by
  obtain ⟨f, hcompile⟩ := RowFilter.exists_compileSteps_eq_ok
    (Catalog.closed_columnar e.columnNamesOf) fun p hp ↦ Query.admits_of_mem_read hread hp
  have hf := RowFilter.conditionsOn_of_compileSteps hcompile
  refine ⟨f, hcompile, ?_, ?_, ?_⟩
  · intro hq
    rw [RowFilter.compile, Query.isEmpty, List.isEmpty_eq_false_iff.mpr hq]
    exact hcompile
  · rw [TableFilter.compile, hcompile, htop]
    rfl
  · intro column hcolumn ascending n
    constructor
    · intro steps hsteps
      obtain ⟨f', hperm, hbuild⟩ := RowFilter.exists_build_of_perm hsteps
      rw [hbuild]
      exact hf.collect_eq_collectThenFilter hperm hcolumn ascending n
    · intro hreadable
      rw [← hf.collect_eq_collectThenFilter (.refl _) hcolumn ascending n]
      exact ⟨_, hf.collect_eq_ok hreadable hcolumn ascending n⟩

/-- An export with a compound word. -/
def compounds : Export where
  path := "export.csv"
  format := {}
  records := [.ofTexts ["lemma", "form", "frequency"], .ofTexts ["auto", "auto", "50"],
    .ofTexts ["auto#talli", "autotalli", "10"], .ofTexts ["talli", "talli", "5"],
    .ofTexts ["talo", "talossakin", "3"]]
  columns := [⟨"lemma", .text, 0⟩, ⟨"form", .text, 1⟩, ⟨"frequency", .int, 2⟩]

/-- A scan of it whose cap comes first and whose filters come backwards. -/
theorem filter_pushdown_compounds : ∃ q f t,
    Query.read (.columnar compounds.columnNamesOf) {} "frequency > 4 and lemma != autotalli"
      = .ok q ∧
    RowFilter.compileSteps (.columnar compounds.columnNamesOf) q = .ok f ∧
    compounds.collect (.build (.limit 2 :: (f.scanSteps.reverse ++ [.sort "frequency" false])))
      = .ok t ∧
    compounds.collectThenFilter ⟨f, none⟩ "frequency" false 2 = .ok t := by
  have hread : Query.read (.columnar compounds.columnNamesOf) {}
      "frequency > 4 and lemma != autotalli" = .ok
        { predicates := [⟨"frequency", .greater, .number (.int 4), false⟩,
          ⟨"lemmac", .equal, .text "autotalli", true⟩] } := rfl
  have hreadable : compounds.Readable := by
    have hrecords : Export.dataRecords compounds.format compounds.records
        = [.ok ["auto", "auto", "50"], .ok ["auto#talli", "autotalli", "10"],
          .ok ["talli", "talli", "5"], .ok ["talo", "talossakin", "3"]] := by decide
    rw [Export.Readable, hrecords]
    simp
  obtain ⟨f, hcompile, -, -, hways⟩ := filter_pushdown hread rfl
  obtain ⟨hsame, hanswer⟩ := hways "frequency" (by decide) false 2
  obtain ⟨t, ht⟩ := hanswer hreadable
  refine ⟨_, f, t, hread, hcompile, ?_, ht⟩
  have hcap : (Export.ScanStep.limit 2 :: (f.scanSteps.reverse ++ [.sort "frequency" false])).Perm
      (f.scanSteps.reverse ++ [.sort "frequency" false] ++ [.limit 2]) :=
    (List.perm_append_singleton _ _).symm
  rw [← ht]
  refine hsame _ (hcap.trans ?_)
  rw [List.append_assoc]
  exact (List.reverse_perm f.scanSteps).append_right _

end CorpusQuery

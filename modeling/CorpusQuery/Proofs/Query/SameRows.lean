import CorpusQuery.Proofs.Query.Agreement
import CorpusQuery.Proofs.Query.RawCells
import CorpusQuery.Proofs.Selection.Fanout
import CorpusQuery.Proofs.Sql.LikePattern
import CorpusQuery.Proofs.Sql.StoredNumber

/-!
# One word in two corpora

A word of a relational corpus and a record of an export are the same if each field that both
catalogs know has the same content in both: the same number, or the same text. Where that content is
found differs. A count may live in the table of lemmas on one side and in a column of the word on
the other, the plain lemma may have a column of its own on one side and be spelled with compound
markers on the other, and a feature is looked up in a satellite for some predicates and not for
others.

None of this makes a difference to a query without patterns, as long as no field holds several
values in one cell: a word meets all predicates if and only if its record passes the filter.
-/

namespace CorpusQuery

open Sql (Datum)

/-! ## Cells that are held -/

/-- A part holds the text of a cell in a column, or nothing where the cell is missing, and
comparisons find it as it is. -/
structure Part.HoldsText (p : Part) (column : String) (v : Value) : Prop where
  text : v.TextCell
  stored : ∃ a, p.column? column = some ⟨a, .ofValue v⟩ ∧ (Datum.ofValue v).stored a = .ofValue v

namespace Part.HoldsText

variable {p : Part} {column aliasName : String} {v : Value} {scope : Sql.Scope}

theorem hasCell (h : p.HoldsText column v)
    (hscope : ∀ name, scope ⟨some aliasName, name⟩ = p.column? name) :
    Sql.HasCell scope (.of aliasName column) v := by
  obtain ⟨a, hcolumn, hstored⟩ := h.stored
  constructor
  · rw [eval_of hscope, Part.datum, hcolumn]
    rfl
  · rw [affinity?_of hscope, hcolumn]
    exact hstored

theorem columnIs_iff (h : p.HoldsText column v) (t : String) :
    p.columnIs column (.text t) = true ↔ v = .text t := by
  obtain ⟨a, hcolumn, hstored⟩ := h.stored
  have htext := h.text
  rw [Part.columnIs, hcolumn, Option.any_some]
  cases htext with
  | null => simp [Datum.equals, Datum.ofValue, Datum.compareAs_null_left]
  | text s =>
    have hequal := Datum.compareAs_stored_text hstored t
    obtain ⟨o, ho, hsame⟩ := Option.map_eq_some_iff.mp hequal
    have heq : (Datum.ofValue (.text s)).equals a (.text t) = (compare s t == .eq) := by
      rw [← hsame, Datum.ofValue, Datum.equals, ho]
      cases o <;> rfl
    rw [heq, beq_iff_eq, Std.compare_eq_iff_eq, Value.text.injEq]

end Part.HoldsText

/-! ## Fields with the same content -/

/-- A value as a field sees it. -/
def Field.seen (f : Field) (v : Value) : Value :=
  match f.strip with
  | some c => v.without c
  | none => v

/-- The rows of a satellite that hang off a word hold a text and nothing else. There is such a row
if the text is a real value and not a placeholder. -/
structure Database.HoldsAlone (db : Database) (w : Part) (r : Relation) (column : String)
    (v : Value) : Prop where
  only : ∀ p ∈ db.hanging w r r.aliasName, p.HoldsText column v
  there : ∀ s, v = .text s → Text.hasChar s '_' = false → db.hanging w r r.aliasName ≠ []

/-- A field of a relational corpus and a field of an export have the same content for a word: the
same number, or the same text as the fields see it. -/
inductive SameField (db : Database) (w : Part) (f : Field) (r : Relation) (g : Field) (v : Value) :
    Prop
  | number (hf : f.kind = .numeric) (hg : g.kind = .numeric)
    (hsame : SameNumber ((db.companion w r).datum f.column) v)
  | text {u : Value} (hf : f.kind ≠ .numeric) (hg : g.kind ≠ .numeric)
    (hu : (db.companion w r).HoldsText f.column u) (hv : v.TextCell) (hsame : f.seen u = g.seen v)
    (hsatellite : ∀ s, f.satellite = some s → db.HoldsAlone w s f.column (f.seen u))

/-- **One word.** A word and a record are the same as far as the fields of some names go. What tells
words apart is there for both, and reversed forms are kept in step with the forms. -/
structure SameWord (db : Database) (e : Export) (names : List String) (w : Part)
    (cells : List String) : Prop where
  key : ∀ name ∈ Table.rowKey,
    name ∈ e.columnNamesOf ∧ w.HoldsText name (e.readCell cells name) ∨
      name ∉ e.columnNamesOf ∧ w.column? name = none
  reversed : db.schema.hasColumn Relation.facts.table "revform" = true →
    w.HoldsText "revform" (e.readCell cells "form").reversed
  field : ∀ name ∈ names, ∀ f r g, (Catalog.relational db.schema).get? name = some f →
    f.relation = some r → (Catalog.columnar e.columnNamesOf).get? name = some g →
      SameField db w f r g (e.readCell cells g.column)

/-! ## What a flat catalog admits -/

namespace Catalog

theorem compares_of_not_numeric {f : Field} {op : Comparator} {o : Operand}
    (hkind : f.kind = .text ∨ f.kind.isFeature = true) (hallowed : f.allows op = true)
    (hlike : op.operator ≠ .like) (ho : o.Textual op) :
    f.kind ≠ .numeric ∧ Predicate.Compares .text ⟨f.name, op.operator, o, op.negates⟩ := by
  rw [Field.allows] at hallowed
  generalize f.kind = k at hkind hallowed
  cases k with
  | text => exact ⟨by decide, compares_text hallowed hlike ho⟩
  | feature m => exact ⟨by simp, compares_text hallowed hlike ho⟩
  | numeric | positional | boolean => rcases hkind with h | h <;> cases h

/-- **Predicates without patterns of the user.** Over a flat table a predicate asks for compound
words, about a place in the form, about texts of a field that holds texts, or about numbers of a
field that holds numbers. -/
theorem Admits.cases_columnar {columns : List String} {p : Predicate} {g : Field}
    (h : (columnar columns).Admits p) (hg : (columnar columns).get? p.field = some g)
    (hlike : p.operator = .like → p = Query.compoundPredicate p.negated) :
    p = Query.compoundPredicate p.negated ∨
      (p.field = "form" ∧ ∃ place : Position, p.operator = place.operator) ∨
      (g.kind ≠ .numeric ∧ p.Compares .text) ∨
      g.kind = .numeric ∧ p.Compares .numeric ∧ ∃ x, p.operand = .number (.ofNumber x) := by
  by_cases hpattern : p.operator = .like
  · exact .inl (hlike hpattern)
  refine .inr ?_
  cases h with
  | compound negated h => exact absurd rfl hpattern
  | @number f op x hf hkind hrel hop =>
    obtain rfl := Option.some.inj (hg.symm.trans hf)
    rw [Field.allows, hkind] at hop
    exact .inr (.inr ⟨hkind, compares_number hop _, x, rfl⟩)
  | @relative f r op x hf hkind hrel hop =>
    rw [Field.allows, hkind] at hop
    exact .inr (.inr ⟨kind_of_relative_columnar (mem_of_get? hf) hrel hg,
      compares_number hop _, x, rfl⟩)
  | @position f place op o hf hkind hop ho => exact .inl ⟨rfl, place, rfl⟩
  | @text f op o hf hkind hop ho =>
    obtain rfl := Option.some.inj (hg.symm.trans hf)
    exact .inr (.inl (compares_of_not_numeric hkind hop hpattern ho))
  | plainLemma h hop hallowed ho =>
    refine .inr (.inl ⟨?_, compares_text hallowed hpattern ho⟩)
    rw [kind_of_plainLemma_columnar hg]
    decide

end Catalog

theorem Predicate.Compares.textOperand {p : Predicate} (hp : p.Compares .text) :
    p.TextOperand ∧ (p.operator = .equal ∨ p.operator = .isIn) := by
  cases hp with
  | equal field s negated => exact ⟨⟨rfl, fun _ ↦ ⟨s, rfl⟩⟩, .inl rfl⟩
  | isIn field s ss negated => exact ⟨⟨rfl, fun h ↦ by cases h⟩, .inr rfl⟩

/-! ## Cells of a word and of its record -/

section Cells

variable {db : Database} {b : Backend} {e : Export} {names : List String} {w : Part}
  {cells : List String} {f g : Field} {r : Relation} {u v : Value}

theorem Value.TextCell.seen (hv : v.TextCell) (f : Field) : (f.seen v).TextCell := by
  rw [Field.seen]
  split
  · exact hv.without _
  · exact hv

theorem Export.eval_target (hcolumn : g.column ∈ e.columnNamesOf) (cells : List String) :
    (RowFilter.target g).eval (.ofCells e.columnNamesOf (e.typedRow cells))
      = .ok (g.seen (e.readCell cells g.column)) := by
  have hread : (RowExpr.column g.column).eval (.ofCells e.columnNamesOf (e.typedRow cells))
      = .ok (e.readCell cells g.column) := by
    rw [RowExpr.eval, ofCells_typedRow hcolumn]
  rw [RowFilter.target.eq_def, Field.seen]
  cases g.strip with
  | none => exact hread
  | some c => exact RowExpr.eval_strip hread c

theorem Number.natAbs_le_of_readInt64? {cs : List Char} {n : Int} (h : readInt64? cs = some n) :
    n.natAbs ≤ 2 ^ 63 := by
  rw [readInt64?, readInt?] at h
  simp only [Option.ite_none_right_eq_some] at h
  obtain ⟨-, ⟨hleast, hgreatest⟩, hn⟩ := h
  rw [Option.some_inj.mp hn] at hleast hgreatest
  have hpow : Int.pow 2 63 = 2 ^ 63 := rfl
  rw [hpow] at hleast hgreatest
  omega

/-- **Reading a cell.** A cell is missing, a text, or a number of the kind of its column. -/
theorem Kind.readCell_cases (k : Kind) (cell : String) :
    k.readCell cell = .null ∨ (∃ s, k.readCell cell = .text s) ∨
      (k = .int ∧ ∃ n, k.readCell cell = .int n ∧ n.natAbs ≤ 2 ^ 63) ∨
      k = .real ∧ ∃ x, k.readCell cell = .real x := by
  have hnumber (read? : List Char → Option Value) : readNumber read? cell = .null ∨
      (∃ s, readNumber read? cell = .text s) ∨
      ∃ cs v, read? cs = some v ∧ readNumber read? cell = v := by
    rw [readNumber]
    split
    · exact .inl rfl
    · cases hread : read? (Text.trimChars cell.toList) with
      | none => exact .inr (.inl ⟨cell, rfl⟩)
      | some v => exact .inr (.inr ⟨_, v, hread, rfl⟩)
  rw [readCell]
  split
  · exact .inl rfl
  cases k with
  | text | null => exact .inr (.inl ⟨cell, rfl⟩)
  | int =>
    rcases hnumber fun cs ↦ (Number.readInt64? cs).map .int with h | h | ⟨cs, v, hread, h⟩
    · exact .inl h
    · exact .inr (.inl h)
    · obtain ⟨n, hn, rfl⟩ := Option.map_eq_some_iff.mp hread
      exact .inr (.inr (.inl ⟨rfl, n, h, Number.natAbs_le_of_readInt64? hn⟩))
  | real =>
    rcases hnumber fun cs ↦ (Number.readFloat? cs).map .real with h | h | ⟨cs, v, hread, h⟩
    · exact .inl h
    · exact .inr (.inl h)
    · obtain ⟨x, -, rfl⟩ := Option.map_eq_some_iff.mp hread
      exact .inr (.inr (.inr ⟨rfl, x, h⟩))

theorem Kind.within64_readCell (k : Kind) (cell : String) : (k.readCell cell).Within64 := by
  intro n hn
  rcases k.readCell_cases cell with h | ⟨s, h⟩ | ⟨-, m, h, hm⟩ | ⟨-, x, h⟩
  · rw [h] at hn
    cases hn
  · rw [h] at hn
    cases hn
  · rw [h] at hn
    obtain rfl := Value.int.inj hn
    exact hm
  · rw [h] at hn
    cases hn

theorem Export.within64_readCell (column : String) : (e.readCell cells column).Within64 := by
  rw [readCell]
  split
  · exact Kind.within64_readCell _ _
  · intro n hn
    cases hn

theorem Database.scope_entry_of_not_satellite (hw : w ∈ db.words) (hr : r.isSatellite = false)
    (name : String) :
    (db.entry w).scope ⟨some r.aliasName, name⟩ = (db.companion w r).column? name := by
  refine scope_entry hw ?_ name
  cases r <;> first | decide | cases hr

theorem Part.HoldsText.hasCell_columnExpr (hu : (db.companion w r).HoldsText f.column u)
    (hposx : b.posx = false) (hw : w ∈ db.words) (hr : r.isSatellite = false) :
    Sql.HasCell (db.entry w).scope (b.columnExpr f r) (f.seen u) := by
  have hcell := hu.hasCell (db.scope_entry_of_not_satellite hw hr)
  rw [Backend.columnExpr.eq_def, Backend.physicalColumn_of_posx hposx, Field.seen]
  cases f.strip with
  | none => exact hcell
  | some c => exact hcell.replace hu.text c

theorem Backend.eval_columnExpr (hposx : b.posx = false) (hstrip : f.strip = none)
    (hw : w ∈ db.words) (hr : r.isSatellite = false) :
    (b.columnExpr f r).eval (db.entry w).scope = (db.companion w r).datum f.column := by
  rw [columnExpr.eq_def, hstrip, physicalColumn_of_posx hposx]
  exact eval_of (db.scope_entry_of_not_satellite hw hr) f.column

end Cells

/-! ## Predicates -/

namespace SameWord

variable {db : Database} {b : Backend} {e : Export} {names : List String} {w : Part}
  {cells : List String} {p : Predicate} {f g : Field} {r : Relation} {plan : ConditionPlan}
  {test : RowExpr} {condition : Sql.Expr}

/-- The row of a record that a filter sees. -/
abbrev rowOf (e : Export) (cells : List String) : Row :=
  Row.ofCells e.columnNamesOf (e.typedRow cells)

/-! ### What asks for the same -/

/-- **Compound words.** The lemma is searched for a compound marker alike. -/
theorem agrees_compound {v : Value} {negated : Bool}
    (hcell : Sql.HasCell (db.entry w).scope (b.columnExpr f r) v)
    (heval : (RowFilter.target g).eval (rowOf e cells) = .ok v) (hv : v.TextCell)
    (hpercent : ∀ s, v = .text s → Text.hasChar s '%' = false)
    (hcondition : b.columnCondition (Query.compoundPredicate negated) f r = .ok condition)
    (htest : RowFilter.positiveExpr g (Query.compoundPredicate negated) = .ok test) :
    Agrees (rowOf e cells) (db.entry w).scope test condition := by
  obtain rfl := Except.ok.inj hcondition
  obtain rfl := Except.ok.inj htest
  have htruth := hcell.truth_like hv (.ofList ['%', Catalog.compoundMarker, '%']) hpercent
  rw [Agrees, RowExpr.truth_test heval]
  exact congrArg Except.ok htruth.symm

/-- **Places.** A place in the form is asked about alike. -/
theorem agrees_place {place : Position} (hword : SameWord db e names w cells)
    (hschema : b.schema = db.schema) (hform : "form" ∈ e.columnNamesOf) (hw : w ∈ db.words)
    (hplace : p.operator = place.operator)
    (hcondition : Sql.Expr.orAll? (p.operand.asTexts.map (b.positionalCondition p.operator))
      = some condition)
    (htest : RowFilter.positiveExpr (Catalog.flatField .text "form") p = .ok test) :
    Agrees (rowOf e cells) (db.entry w).scope test condition := by
  have hholds : w.HoldsText "form" (e.readCell cells "form") := by
    rcases hword.key "form" (by decide) with ⟨-, hholds⟩ | ⟨hnone, -⟩
    · exact hholds
    · exact absurd hform hnone
  have hscope := db.scope_entry_of_not_satellite hw (r := .facts) rfl
  have hrow : rowOf e cells "form" = some (e.readCell cells "form") :=
    Export.ofCells_typedRow hform cells
  rw [RowFilter.positiveExpr_of_position hplace, RowFilter.anyText_eq_ok_iff] at htest
  refine Agrees.any (fun s _ ↦ ?_) htest hcondition
  rw [hplace]
  refine agrees_position hrow hholds.text (hholds.hasCell hscope) (fun hrev ↦ ?_) place s
  rw [Backend.hasReversed, hschema] at hrev
  exact (hword.reversed hrev).hasCell hscope

/-- **Numbers.** Counts are compared with a threshold alike. -/
theorem agrees_number {v : Value} (hp : p.Compares .numeric)
    (hnumber : ∃ x, p.operand = .number (.ofNumber x))
    (hreach : ∀ x, p.operand = .number (.ofNumber x) → Unreached x)
    (hsame : SameNumber ((b.columnExpr f r).eval (db.entry w).scope) v) (hv : v.Within64)
    (heval : (RowFilter.target g).eval (rowOf e cells) = .ok v) (hkind : g.kind ≠ .feature .anyOf)
    (hcondition : b.columnCondition p f r = .ok condition)
    (htest : RowFilter.positiveExpr g p = .ok test) :
    Agrees (rowOf e cells) (db.entry w).scope test condition := by
  obtain ⟨x, hx⟩ := hnumber
  have hunreached := hreach x hx
  cases hp with
  | @number op hop field value negated =>
    obtain rfl := Operand.number.inj hx
    obtain ⟨o, compare, hop⟩ := Sql.exists_comparedAlike hop
    rw [b.columnCondition_of_number hop] at hcondition
    rw [RowFilter.positiveExpr_of_number hop _ _ _ hkind] at htest
    obtain rfl := Except.ok.inj hcondition
    obtain rfl := Except.ok.inj htest
    rw [Agrees, RowExpr.truth_compare heval _ rfl, hsame.truth_compare hv hunreached hop]

/-- **Look-ups.** What is found in a satellite is found in the cell of the feature. -/
theorem meetsPlan_satellite {s : Relation} {v : Value} {first : Value} {rest : List Value}
    (hp : p.Compares .text) (hvalues : p.operand.values = first :: rest)
    (hplaceholder : p.operand.hasPlaceholder = false) (halone : db.HoldsAlone w s f.column v) :
    db.meetsPlan w (.satellite s f.column first rest) = true
      ↔ ∃ t ∈ p.operand.asTexts, v = .text t := by
  obtain ⟨hoperand, -⟩ := hp.textOperand
  have hreal : ∀ t ∈ p.operand.asTexts, Text.hasChar t '_' = false := by
    cases hp with
    | equal field s negated => exact fun t ht ↦ List.mem_singleton.mp ht ▸ hplaceholder
    | isIn field s ss negated =>
      intro t ht
      exact Bool.eq_false_iff.mpr (List.any_eq_false.mp hplaceholder t ht)
  rw [Database.meetsPlan, ← hvalues, hoperand.values, List.any_eq_true]
  simp only [List.any_map, List.any_eq_true, Function.comp_apply]
  constructor
  · rintro ⟨found, hfound, t, ht, hequal⟩
    exact ⟨t, ht, ((halone.only found hfound).columnIs_iff t).mp hequal⟩
  · rintro ⟨t, ht, hv⟩
    obtain ⟨found, hfound⟩ := List.exists_mem_of_ne_nil _ (halone.there t hv (hreal t ht))
    exact ⟨found, hfound, t, ht, ((halone.only found hfound).columnIs_iff t).mpr hv⟩

theorem exists_truth_text {v : Value} (hp : p.Compares .text) (hkind : g.kind ≠ .feature .anyOf)
    (heval : (RowFilter.target g).eval (rowOf e cells) = .ok v) (hv : v.TextCell)
    (htest : RowFilter.positiveExpr g p = .ok test) :
    ∃ t, test.truth (rowOf e cells) = .ok t ∧
      (t.holds = true ↔ ∃ t ∈ p.operand.asTexts, v = .text t) := by
  obtain ⟨hoperand, hop⟩ := hp.textOperand
  have htextual : p.operator.IsTextual := by
    rcases hop with hop | hop <;> rw [hop] <;> trivial
  have hplain : ∀ s, v.asText? = some s → v = .text s := by
    intro s hs
    cases hv with
    | null => cases hs
    | text t => exact congrArg Value.text (Option.some.inj hs)
  obtain ⟨t, ht, hholds⟩ := RowFilter.exists_truth_positiveExpr hoperand htextual hkind heval
    (.inr hplain) htest
  refine ⟨t, ht, hholds.trans ?_⟩
  have haccepts (s : String) : p.operator.Accepts p.operand.asTexts s ↔ s ∈ p.operand.asTexts := by
    rcases hop with hop | hop <;> rw [hop] <;> exact Iff.rfl
  simp only [haccepts]
  constructor
  · rintro ⟨s, hs, hmem⟩
    exact ⟨s, hmem, hplain s hs⟩
  · rintro ⟨s, hmem, rfl⟩
    exact ⟨s, rfl, hmem⟩

/-! ### From plans to tests -/

/-- The test for a predicate is true of a record if the word meets the plan for it. -/
def TestsPlan (db : Database) (e : Export) (w : Part) (cells : List String) (negated : Bool)
    (test : RowExpr) (plan : ConditionPlan) : Prop :=
  ∃ t, (if negated then RowExpr.not test else test).truth (rowOf e cells) = .ok t ∧
    (t.holds = true ↔ db.meetsPlan w plan = true)

theorem testsPlan_of_agrees (h : Agrees (rowOf e cells) (db.entry w).scope test condition)
    (negated : Bool) (r : Relation) (touched : Option String) (unanchored : Bool) :
    TestsPlan db e w cells negated test
      (.shared (if negated then condition.negate else condition) r touched unanchored) :=
  ⟨_, h.negated negated, Iff.rfl⟩

section Plans

variable (hposx : b.posx = false) (hw : w ∈ db.words) (hsatellite : r.isSatellite = false)
  (hkind : g.kind ≠ .feature .anyOf) (hcolumn : g.column ∈ e.columnNamesOf)
  (hfield : SameField db w f r g (e.readCell cells g.column)) (hplanned : b.Planned p f r plan)
  (htest : RowFilter.positiveExpr g p = .ok test)

include hposx hw hsatellite hcolumn hfield hplanned htest

theorem testsPlan_compound {negated : Bool} (hp : p = Query.compoundPredicate negated)
    (hg : g.kind ≠ .numeric)
    (hpercent : ∀ s, g.seen (e.readCell cells g.column) = .text s → Text.hasChar s '%' = false) :
    TestsPlan db e w cells p.negated test plan := by
  cases hfield with
  | number _ hnumber => exact absurd hnumber hg
  | text _ _ hu hv hsame =>
    have hcell := hu.hasCell_columnExpr hposx hw hsatellite
    rw [hsame] at hcell
    subst hp
    cases hplanned with
    | positional hpositional => cases hpositional
    | satellite _ hs =>
      have hnone : Backend.satelliteFor? (Query.compoundPredicate negated) f = none := by
        cases negated <;> rfl
      rw [hnone] at hs
      cases hs
    | column _ _ hcondition =>
      have hagrees := agrees_compound hcell (Export.eval_target hcolumn cells) (hv.seen g)
        hpercent hcondition htest
      exact testsPlan_of_agrees hagrees _ _ _ _

include hkind

theorem testsPlan_text (hp : p.Compares .text) (hg : g.kind ≠ .numeric) :
    TestsPlan db e w cells p.negated test plan := by
  have hpositional := hp.not_positional
  cases hfield with
  | number _ hnumber => exact absurd hnumber hg
  | text _ _ hu hv hsame halone =>
    have heval := Export.eval_target hcolumn cells
    cases hplanned with
    | positional hplace =>
      rw [hpositional] at hplace
      cases hplace
    | satellite _ hs hvalues =>
      obtain ⟨hpositive, hplaceholder, hs⟩ := Backend.eq_of_satelliteFor? hs
      obtain ⟨t, ht, hholds⟩ := exists_truth_text hp hkind heval (hv.seen g) htest
      rw [TestsPlan, hpositive, if_neg Bool.false_ne_true]
      refine ⟨t, ht, hholds.trans ?_⟩
      rw [← hsame]
      exact (meetsPlan_satellite hp hvalues hplaceholder (halone _ hs)).symm
    | column _ _ hcondition =>
      have hcell := hu.hasCell_columnExpr hposx hw hsatellite
      rw [hsame] at hcell
      obtain ⟨_, _, hc, he, hagree⟩ := exists_agreeing_of_text (b := b) (f := f) (r := r) hp hkind
      obtain rfl := Except.ok.inj (hc.symm.trans hcondition)
      obtain rfl := Except.ok.inj (he.symm.trans htest)
      exact testsPlan_of_agrees (hagree _ _ _ heval hcell (hv.seen g)) _ _ _ _

theorem testsPlan_number (hp : p.Compares .numeric) (hg : g.kind = .numeric)
    (hf : f.kind = .numeric → f.strip = none ∧ f.satellite = none) (hstrip : g.strip = none)
    (hnumber : ∃ x, p.operand = .number (.ofNumber x))
    (hreach : ∀ x, p.operand = .number (.ofNumber x) → Unreached x) :
    TestsPlan db e w cells p.negated test plan := by
  have hpositional := hp.not_positional
  cases hfield with
  | text _ hno => exact absurd hg hno
  | number hnumeric _ hsame =>
    obtain ⟨hplain, hnone⟩ := hf hnumeric
    have heval : (RowFilter.target g).eval (rowOf e cells) = .ok (e.readCell cells g.column) := by
      have hseen := Export.eval_target hcolumn cells
      rwa [Field.seen, hstrip] at hseen
    rw [← Backend.eval_columnExpr hposx hplain hw hsatellite] at hsame
    cases hplanned with
    | positional hplace =>
      rw [hpositional] at hplace
      cases hplace
    | satellite _ hs =>
      rw [Backend.satellite_of_satelliteFor? hs] at hnone
      cases hnone
    | column _ _ hcondition =>
      exact testsPlan_of_agrees (agrees_number hp hnumber hreach hsame
        (Export.within64_readCell _) heval hkind hcondition htest) _ _ _ _

end Plans

/-- **One predicate.** A predicate without a pattern of the user is planned and tested on the same
content: the word meets the plan if the record passes the test. -/
theorem exists_truth_step (hcatalog : b.catalog = .relational db.schema)
    (hschema : b.schema = db.schema) (hposx : b.posx = false) (hform : "form" ∈ e.columnNamesOf)
    (hw : w ∈ db.words) (hword : SameWord db e names w cells) (hname : p.field ∈ names)
    (hadmits : (Catalog.columnar e.columnNamesOf).Admits p)
    (hlike : p.operator = .like → p = Query.compoundPredicate p.negated ∧
      ∀ s, e.readCell cells "lemma" = .text s → Text.hasChar s '%' = false)
    (hsingle : ∀ g, (Catalog.columnar e.columnNamesOf).get? p.field = some g →
      g.kind ≠ .feature .anyOf)
    (hreach : ∀ x, p.operand = .number (.ofNumber x) → Unreached x) (hplan : b.plan p = .ok plan)
    {step : FilterStep} (hstep : RowFilter.compileStep (.columnar e.columnNamesOf) p = .ok step) :
    ∃ t, step.expr.truth (rowOf e cells) = .ok t ∧
      (t.holds = true ↔ db.meetsPlan w plan = true) := by
  obtain ⟨g, hg⟩ := Catalog.exists_get?_of_contains
    (hadmits.contains_field (Catalog.closed_columnar e.columnNamesOf))
  obtain ⟨test, htest⟩ := RowFilter.exists_positiveExpr_eq_ok hadmits.asTexts_ne_nil g
  rw [RowFilter.compileStep_of_get? hg htest] at hstep
  obtain rfl := Except.ok.inj hstep
  obtain ⟨f, r, hf, hr, -, hplanned⟩ := Backend.exists_planned hplan
  rw [hcatalog] at hf
  have hsatellite := Catalog.isSatellite_of_mem_relational (Catalog.mem_of_get? hf) hr
  have hcolumn := Catalog.column_mem_of_mem_columnar g (Catalog.mem_of_get? hg)
  have hkind := hsingle g hg
  have hfield := hword.field p.field hname f r g hf hr hg
  rcases hadmits.cases_columnar hg fun h ↦ (hlike h).1 with
    hp | ⟨hname, place, hplace⟩ | ⟨hgkind, hp⟩ | ⟨hgkind, hp, hnumber⟩
  · have hlemma : p.field = "lemma" := by
      rw [hp]
      rfl
    rw [hlemma] at hg
    have hmem := Catalog.lemma_mem_of_contains (.inl rfl) (Catalog.contains_of_get? hg)
    obtain rfl := Option.some.inj (hg.symm.trans (Catalog.get?_columnar_text (by decide) hmem))
    have hpercent := (hlike (by rw [hp]; rfl)).2
    exact testsPlan_compound hposx hw hsatellite hcolumn hfield hplanned htest hp
      FieldKind.noConfusion hpercent
  · rw [hname, Catalog.get?_columnar_text (by decide) hform] at hg
    obtain rfl := Option.some.inj hg
    have hpositional : p.operator.isPositional = true := by
      rw [hplace]
      cases place <;> rfl
    cases hplanned with
    | positional _ hcondition =>
      exact testsPlan_of_agrees
        (agrees_place hword hschema hform hw hplace hcondition htest) _ _ _ _
    | satellite hno | column hno =>
      rw [hpositional] at hno
      cases hno
  · exact testsPlan_text hposx hw hsatellite hkind hcolumn hfield hplanned htest hp hgkind
  · refine testsPlan_number hposx hw hsatellite hkind hcolumn hfield hplanned htest hp hgkind
      (fun hnumeric ↦ ?_) ?_ hnumber hreach
    · obtain ⟨hstrip, hnone, -⟩ :=
        Catalog.numeric_of_mem_relational f (Catalog.mem_of_get? hf) hnumeric
      exact ⟨hstrip, hnone⟩
    · exact Catalog.strip_of_ne_text_columnar g (Catalog.mem_of_get? hg) (by rw [hgkind]; decide)

end SameWord

/-! ## Queries -/

/-- **Queries for both kinds of corpora.** The query has no patterns but the one for compound words,
asks for no feature with several values in a cell, and has no threshold that a rounded count can
reach. Where it asks for compound words, no lemma has a percent sign. -/
structure Query.Comparable (q : Query) (e : Export) : Prop where
  pattern : ∀ p ∈ q.predicates, p.operator = .like → p = Query.compoundPredicate p.negated
  percent : ∀ p ∈ q.predicates, p.operator = .like → ∀ cells ∈ e.dataCells, ∀ s,
    e.readCell cells "lemma" = .text s → Text.hasChar s '%' = false
  single : ∀ p ∈ q.predicates, ∀ g, (Catalog.columnar e.columnNamesOf).get? p.field = some g →
    g.kind ≠ .feature .anyOf
  reach : ∀ p ∈ q.predicates, ∀ x, p.operand = .number (.real x) → Unreached x

/-- A threshold within 64 bits is the same whole number on both sides. -/
theorem unreached_of_ofNumber {x : Float} (h : ∀ y, Value.ofNumber x = .real y → Unreached y) :
    Unreached x := by
  rw [Value.ofNumber] at h
  intro n hn
  rw [hn] at h
  dsimp only at h
  by_cases hsmall : n.natAbs < Nat.pow 2 63
  · exact Nat.ne_of_lt hsmall
  · rw [if_neg hsmall] at h
    exact h x rfl n hn

theorem Query.Comparable.unreached {q : Query} {e : Export} (h : q.Comparable e) {p : Predicate}
    (hp : p ∈ q.predicates) : ∀ x, p.operand = .number (.ofNumber x) → Unreached x := by
  intro x hx
  apply unreached_of_ofNumber
  intro y hy
  exact h.reach p hp y (hx.trans (congrArg Operand.number hy))

/-- **One word and a query.** A record passes the filter for a query if the word meets all
predicates. -/
theorem SameWord.passes_eq {db : Database} {b : Backend} {e : Export} {names : List String}
    {w : Part} {cells : List String} {q : Query} {plans : List ConditionPlan} {filter : RowFilter}
    (hword : SameWord db e names w cells) (hw : w ∈ db.words) (hcells : cells ∈ e.dataCells)
    (hcatalog : b.catalog = .relational db.schema) (hschema : b.schema = db.schema)
    (hposx : b.posx = false) (hform : "form" ∈ e.columnNamesOf)
    (hnames : ∀ p ∈ q.predicates, p.field ∈ names)
    (hadmits : ∀ p ∈ q.predicates, (Catalog.columnar e.columnNamesOf).Admits p)
    (hq : q.Comparable e) (hplans : q.predicates.mapM b.plan = .ok plans)
    (hfilter : RowFilter.compileSteps (.columnar e.columnNamesOf) q = .ok filter) :
    filter.passes e.columnNamesOf (e.typedRow cells) = q.predicates.all (db.meets b w) := by
  have hstep : ∀ p ∈ q.predicates, ∀ step,
      RowFilter.compileStep (.columnar e.columnNamesOf) p = .ok step →
      ∃ t, step.expr.truth (rowOf e cells) = .ok t ∧ (t.holds = true ↔ db.meets b w p = true) := by
    intro p hp step hcompile
    obtain ⟨plan, hplan⟩ := exists_of_mapM_eq_ok hplans hp
    obtain ⟨t, ht, hholds⟩ := hword.exists_truth_step hcatalog hschema hposx hform hw
      (hnames p hp) (hadmits p hp)
      (fun hlike ↦ ⟨hq.pattern p hp hlike, hq.percent p hp hlike cells hcells⟩)
      (hq.single p hp) (hq.unreached hp) hplan hcompile
    refine ⟨t, ht, hholds.trans ?_⟩
    rw [Database.meets_eq_meetsPlan (hschema ▸ hcatalog) hplan]
  obtain ⟨kept, hkept, hall⟩ := RowFilter.exists_allHold_of_mapM
    (RowFilter.mapM_of_compileSteps hfilter) hstep
  have hpasses : filter.passes e.columnNamesOf (e.typedRow cells) = kept := by
    rw [RowFilter.passes, RowFilter.holds, hkept]
    rfl
  rw [hpasses, Bool.eq_iff_iff, hall, List.all_eq_true]

/-! ## Whole corpora -/

/-- **The same rows.** The words of a relational corpus and the records of an export come in pairs
that are the same as far as the fields of some names go. Both have columns for what tells words
apart; only a column for all features together may be missing, on both sides. -/
structure SameRows (db : Database) (e : Export) (names : List String)
    (pairs : List (Part × List String)) : Prop where
  words : (pairs.map (·.1)).Perm db.words
  records : (pairs.map (·.2)).Perm e.dataCells
  same : ∀ pair ∈ pairs, SameWord db e names pair.1 pair.2
  present : ∀ name ∈ ["lemma", "form", "pos"], name ∈ e.columnNamesOf
  columns : ∀ name ∈ Table.rowKey,
    name ∈ e.columnNamesOf ↔ name ∈ db.schema.columns Relation.facts.table

namespace SameRows

variable {db : Database} {e : Export} {names : List String} {pairs : List (Part × List String)}

theorem mem_words (h : SameRows db e names pairs) {pair : Part × List String}
    (hpair : pair ∈ pairs) : pair.1 ∈ db.words :=
  h.words.subset (List.mem_map_of_mem hpair)

theorem mem_records (h : SameRows db e names pairs) {pair : Part × List String}
    (hpair : pair ∈ pairs) : pair.2 ∈ e.dataCells :=
  h.records.subset (List.mem_map_of_mem hpair)

theorem sameNumber (h : SameRows db e names pairs) {name : String} (hname : name ∈ names)
    {f g : Field} {r : Relation} (hf : (Catalog.relational db.schema).get? name = some f)
    (hr : f.relation = some r) (hnumeric : f.kind = .numeric)
    (hg : (Catalog.columnar e.columnNamesOf).get? name = some g) {pair : Part × List String}
    (hpair : pair ∈ pairs) :
    SameNumber ((db.companion pair.1 r).datum f.column) (e.readCell pair.2 g.column) := by
  cases (h.same pair hpair).field name hname f r g hf hr hg with
  | number _ _ hsame => exact hsame
  | text hno => exact absurd hnumeric hno

/-- **Rows that are left.** If a filter passes the records of the words that a test is true of, then
what the test leaves of the pairs are the words that are left, and the rows that pass. -/
theorem perm_filter (h : SameRows db e names pairs) (test : Part → Bool)
    (passes : List Value → Bool)
    (hsame : ∀ pair ∈ pairs, passes (e.typedRow pair.2) = test pair.1) :
    ((pairs.filter (test ·.1)).map (·.1)).Perm (db.words.filter test) ∧
      ((pairs.filter (test ·.1)).map fun pair ↦ e.typedRow pair.2).Perm
        (e.typedRows.filter passes) := by
  constructor
  · have hwords := h.words.filter test
    rwa [List.filter_map] at hwords
  · have hrecords := (h.records.map e.typedRow).filter passes
    have hrows : ((pairs.map (·.2)).map e.typedRow).filter passes
        = (pairs.filter (test ·.1)).map fun pair ↦ e.typedRow pair.2 := by
      rw [List.map_map, List.filter_map]
      exact congrArg (List.map _) (List.filter_congr hsame)
    rwa [hrows] at hrecords

end SameRows

end CorpusQuery

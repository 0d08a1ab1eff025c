import CorpusQuery.Proofs.RowExpr.Connectives
import CorpusQuery.Proofs.Sql.GlobPattern
import CorpusQuery.RowFilter
import CorpusQuery.Sql.Eval
import CorpusQuery.Statement.Condition

/-!
# Comparing stored cells

A database draws operands towards the affinity of a column before it compares them, while a row
expression compares values as they are. The difference cannot be seen on a cell that the column has
stored unchanged: a text in a numeric column is one that reads as no number, so no operand can be
drawn to meet it, and a whole number is only kept by columns that leave whole numbers alone.

The cell of an expression is what the expression has for a row, together with that guarantee. What
is computed from a column has no affinity, so the guarantee is void there.
-/

namespace CorpusQuery

namespace Sql

namespace Datum

theorem wholeIfEqual_ne_text {d : Datum} {s : String} (h : ∀ t, d ≠ .text t) :
    d.wholeIfEqual ≠ .text s := by
  rw [wholeIfEqual.eq_def]
  split
  · split
    · split <;> exact Datum.noConfusion
    · exact Datum.noConfusion
  · exact h s

/-- What a text is read as is a number, or the text is kept. -/
theorem numbered_text_cases (s : String) :
    numbered (.text s) = .text s ∨ (numbered (.text s)).rank = Datum.rank (.int 0) := by
  rw [numbered, number?]
  split
  · split
    · exact .inr rfl
    · exact .inr rfl
  · exact .inl rfl

theorem numbered_of_stored {a : Affinity} {s : String} (ha : a.isNumeric = true)
    (h : stored a (.text s) = .text s) : numbered (.text s) = .text s := by
  refine (numbered_text_cases s).resolve_right fun hrank ↦ ?_
  -- Had the text been read as a number, the column would have stored the number.
  have hwhole : (numbered (.text s)).wholeIfEqual ≠ .text s := by
    apply wholeIfEqual_ne_text
    intro t heq
    rw [heq] at hrank
    cases hrank
  cases a with
  | numeric => exact hwhole h
  | real =>
    rw [stored] at h
    generalize (numbered (.text s)).wholeIfEqual = d at h hwhole
    cases d with
    | int n => cases h
    | null => cases h
    | real x => cases h
    | text t => exact hwhole h
    | bytes bs => cases h
  | text => cases ha
  | raw => cases ha

/-- **Texts.** A stored text equals the texts that are the same, whatever its column is drawn
towards. -/
theorem compareAs_stored_text {a : Affinity} {s : String} (h : stored a (.text s) = .text s)
    (t : String) :
    (compareAs a (.text s) (.text t)).map (· == .eq) = some (compare s t == .eq) := by
  cases ha : a.isNumeric with
  | false => rw [compareAs_text_text a ha, Option.map_some]
  | true =>
    have hs := numbered_of_stored ha h
    have hdrawn : compareAs a (.text s) (.text t)
        = some ((Datum.text s).order (numbered (.text t))) := by
      rw [compareAs, drawn, if_pos ha, hs]
      rfl
    rw [hdrawn, Option.map_some]
    rcases numbered_text_cases t with ht | hrank
    · rw [ht]
      rfl
    · -- The operand has become a number, and then it is another text than the stored one.
      have hne : s ≠ t := by
        rintro rfl
        rw [hs] at hrank
        cases hrank
      have horder : (Datum.text s).order (numbered (.text t)) = .gt := by
        generalize numbered (.text t) = d at hrank
        cases d with
        | int n => rfl
        | real x => rfl
        | null => cases hrank
        | text t => cases hrank
        | bytes bs => cases hrank
      have hcompare : (compare s t == .eq) = false := by
        rw [beq_eq_false_iff_ne]
        exact fun heq ↦ hne (Std.LawfulEqOrd.compare_eq_iff_eq.mp heq)
      rw [horder, hcompare]
      rfl

/-- **Numbers.** A stored whole number compares with whole numbers by size. -/
theorem compareAs_stored_int {a : Affinity} {m : Int} (h : stored a (.int m) = .int m) (n : Int) :
    compareAs a (.int m) (.int n) = some (compare m n) := by
  cases a with
  | text => cases h
  | numeric => rfl
  | real => cases h
  | raw => rfl

/-! ## Lists -/

theorem memberTruth_null (a : Affinity) (item : Datum) (items : List Datum) :
    memberTruth a .null (item :: items) = none := by
  induction items generalizing item with
  | nil => rfl
  | cons next items ih =>
    change Truth.or none (memberTruth a .null (next :: items)) = none
    rw [ih next]
    rfl

theorem memberTruth_stored_text {a : Affinity} {s : String} (h : stored a (.text s) = .text s)
    (ts : List String) :
    memberTruth a (.text s) (ts.map .text) = some (ts.any (compare s · == .eq)) := by
  induction ts with
  | nil => rfl
  | cons t ts ih =>
    change Truth.or ((compareAs a (.text s) (.text t)).map (· == .eq))
      (memberTruth a (.text s) (ts.map .text)) = _
    rw [compareAs_stored_text h, ih, List.any_cons]
    cases compare s t == .eq with
    | true => rfl
    | false => cases ts.any (compare s · == .eq) <;> rfl

end Datum

end Sql

/-! ## Cells -/

/-- A cell of a textual column. -/
inductive Value.TextCell : Value → Prop
  | null : TextCell .null
  | text (s : String) : TextCell (.text s)

/-- A cell of a column of counts. -/
inductive Value.CountCell : Value → Prop
  | null : CountCell .null
  | int (n : Int) : CountCell (.int n)

/-- The cell with its text read backwards. -/
def Value.reversed : Value → Value
  | .text s => .text (Glob.reversed s)
  | v => v

theorem Value.TextCell.reversed {v : Value} (h : v.TextCell) : v.reversed.TextCell := by
  cases h with
  | null => exact .null
  | text s => exact .text (Glob.reversed s)

theorem Value.TextCell.without {v : Value} (h : v.TextCell) (c : Char) :
    (v.without c).TextCell := by
  cases h with
  | null => exact .null
  | text s => exact .text (Text.without s c)

theorem Value.memberTruth_text (s : String) (ts : List String) :
    (Value.text s).memberTruth (ts.map .text) = some (ts.any (compare s · == .eq)) := by
  have hsome : (Value.text s).memberTruth (ts.map .text)
      = some ((ts.map .text).any fun w ↦ ((Value.text s).comparisonTruth .equal w).holds) := rfl
  rw [hsome, List.any_map]
  refine congrArg some (congrArg (List.any ts) ?_)
  funext t
  change Truth.holds (some (compare s t == .eq)) = (compare s t == .eq)
  cases compare s t == .eq <;> rfl

namespace Sql

/-- An expression has the value of a cell, and comparisons find it as it is. -/
structure HasCell (scope : Scope) (e : Expr) (v : Value) : Prop where
  eval : e.eval scope = .ofValue v
  stored : (Datum.ofValue v).stored ((e.affinity? scope).getD .raw) = .ofValue v

variable {scope : Scope} {e : Expr} {v : Value}

theorem truth_binary_value (e : Expr) (op : BinaryOp) (w : Value) :
    (Expr.binary e op (.value w)).truth scope
      = op.truth ((e.affinity? scope).getD .raw) (e.eval scope) (.ofValue w) := by
  have hcommon : Datum.commonAffinity (e.affinity? scope) none
      = (e.affinity? scope).getD .raw := by
    cases e.affinity? scope <;> rfl
  rw [Expr.truth, Expr.eval, Datum.truth_ofTruth]
  exact congrArg (fun a ↦ op.truth a (e.eval scope) (.ofValue w)) hcommon

theorem truth_inList_values (e : Expr) (ws : List Value) :
    (Expr.inList e (ws.map .value) false).truth scope
      = (e.eval scope).memberTruth ((e.affinity? scope).getD .raw) (ws.map .ofValue) := by
  rw [Expr.truth, Expr.eval, Datum.truth_ofTruth, Expr.evalAll_eq_map, List.map_map]
  rfl

theorem HasCell.truth_equal (h : HasCell scope e v) (hv : v.TextCell) (t : String) :
    (Expr.binary e .eq (.value (.text t))).truth scope = v.comparisonTruth .equal (.text t) := by
  have hstored := h.stored
  rw [truth_binary_value, h.eval]
  cases hv with
  | null => rfl
  | text s => exact Datum.compareAs_stored_text hstored t

theorem HasCell.truth_isIn (h : HasCell scope e v) (hv : v.TextCell) (t : String)
    (ts : List String) :
    (Expr.inList e (((t :: ts).map Value.text).map .value) false).truth scope
      = v.memberTruth ((t :: ts).map .text) := by
  have hstored := h.stored
  rw [truth_inList_values, h.eval]
  cases hv with
  | null => exact Datum.memberTruth_null _ _ _
  | text s =>
    rw [Value.memberTruth_text, List.map_map]
    exact Datum.memberTruth_stored_text hstored (t :: ts)

/-- What one backend compares with and what the other does. -/
structure ComparedAlike (op : Operator) (o : BinaryOp) (c : Comparison) : Prop where
  condition : Backend.conditionOp? op = some o
  filter : RowFilter.comparison? op = some c

theorem exists_comparedAlike {op : Operator} (hop : op = .equal ∨ op.isRange = true) :
    ∃ o c, ComparedAlike op o c := by
  cases op with
  | equal | less | greater | atMost | atLeast => exact ⟨_, _, rfl, rfl⟩
  | like | isIn | startsWith | middle | endsWith => rcases hop with hop | hop <;> cases hop

variable {op : Operator} {o : BinaryOp} {c : Comparison}

theorem ComparedAlike.truth (h : ComparedAlike op o c) (a : Affinity) (d d' : Datum) :
    o.truth a d d' = (d.compareAs a d').map c.accepts := by
  obtain ⟨ho, hc⟩ := h
  cases op with
  | equal | less | greater | atMost | atLeast =>
    obtain rfl := Option.some.inj ho
    obtain rfl := Option.some.inj hc
    rfl
  | like | isIn | startsWith | middle | endsWith => cases hc

theorem HasCell.truth_compare (h : HasCell scope e v) (hv : v.CountCell)
    (hop : ComparedAlike op o c) (n : Int) :
    (Expr.binary e o (.value (.int n))).truth scope = v.comparisonTruth c (.int n) := by
  have hstored := h.stored
  rw [truth_binary_value, h.eval, hop.truth]
  cases hv with
  | null => rfl
  | int m =>
    rw [Datum.ofValue, Datum.ofValue, Datum.compareAs_stored_int hstored]
    rfl

/-! ## Characters left out -/

theorem replaceAll_singleton (c : Char) (cs : List Char) :
    replaceAll [c] [] 0 cs = cs.filter (· != c) := by
  induction cs with
  | nil => rfl
  | cons d cs ih =>
    rw [replaceAll, List.filter_cons]
    by_cases h : d = c
    · subst h
      simp [ih]
    · have hhead : [c].isPrefixOf (d :: cs) = false := by
        simp [List.isPrefixOf, Ne.symm h]
      rw [hhead, if_neg Bool.false_ne_true, ih, if_pos (by simpa using h)]

theorem replaceDatum_ofValue (hv : v.TextCell) (c : Char) :
    replaceDatum (.ofValue v) (.text c.toString) (.text "") = .ofValue (v.without c) := by
  cases hv with
  | null => rfl
  | text s =>
    have hc : c.toString.toList = [c] := String.toList_singleton c
    have hne : c.toString.isEmpty = false := by simp [Char.toString]
    change (if c.toString.isEmpty then Datum.text s else
      .text (.ofList (replaceAll c.toString.toList [] 0 s.toList))) = _
    rw [hne, if_neg Bool.false_ne_true, hc, replaceAll_singleton]
    rfl

theorem HasCell.replace (h : HasCell scope e v) (hv : v.TextCell) (c : Char) :
    HasCell scope (.call "replace" [e, .value (.text c.toString), .value (.text "")])
      (v.without c) := by
  refine ⟨?_, rfl⟩
  rw [Expr.eval, Expr.evalAll_eq_map, ← replaceDatum_ofValue hv, ← h.eval]
  rfl

/-! ## Patterns on cells -/

theorem HasCell.truth_glob (h : HasCell scope e v) (hv : v.TextCell) (pattern : String) :
    (Expr.binary e .glob (.value (.text pattern))).truth scope
      = v.text?.map fun s ↦ (Pattern.ofGlob pattern.toList).covers s.toList := by
  rw [truth_binary_value, h.eval]
  cases hv with
  | null => rfl
  | text s => rfl

theorem HasCell.truth_startingWith (h : HasCell scope e v) (hv : v.TextCell) (part : String) :
    (Expr.binary e .glob (.value (.text (Glob.startingWith part)))).truth scope
      = v.testTruth .startsWith part := by
  rw [h.truth_glob hv]
  cases hv with
  | null => rfl
  | text s => exact congrArg some (Pattern.covers_startingWith part s.toList)

theorem HasCell.truth_endingWith (h : HasCell scope e v) (hv : v.TextCell) (part : String) :
    (Expr.binary e .glob (.value (.text (Glob.endingWith part)))).truth scope
      = v.testTruth .endsWith part := by
  rw [h.truth_glob hv]
  cases hv with
  | null => rfl
  | text s => exact congrArg some (Pattern.covers_endingWith part s.toList)

theorem HasCell.truth_containing (h : HasCell scope e v) (hv : v.TextCell) (part : String) :
    (Expr.binary e .glob (.value (.text (Glob.containing part)))).truth scope
      = v.testTruth .contains part := by
  rw [h.truth_glob hv]
  cases hv with
  | null => rfl
  | text s => exact congrArg some (Pattern.covers_containing part s.toList)

theorem HasCell.truth_startingWith_reversed (h : HasCell scope e v.reversed) (hv : v.TextCell)
    (part : String) :
    (Expr.binary e .glob (.value (.text (Glob.startingWith (Glob.reversed part))))).truth scope
      = v.testTruth .endsWith part := by
  rw [h.truth_glob hv.reversed]
  cases hv with
  | null => rfl
  | text s =>
    have htext : (Glob.reversed s).toList = s.toList.reverse := String.toList_ofList
    refine congrArg some (Eq.trans ?_ (Pattern.covers_startingWith_reversed part s.toList))
    dsimp only
    rw [htext]

end Sql

end CorpusQuery

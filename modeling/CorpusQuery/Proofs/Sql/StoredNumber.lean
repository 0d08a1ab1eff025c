import CorpusQuery.Proofs.Number.Whole
import CorpusQuery.Proofs.Query.Admission
import CorpusQuery.Proofs.Sql.StoredCell

/-!
# Comparing stored numbers

A database and a row expression may hold the same number in different ways, one as a whole number
and the other one as a double, and they compare it with a threshold in different ways too: the
database exactly, the row expression after it has made both operands doubles. What counts on either
side is the number that is held. The two comparisons come out alike as long as the threshold is not
the first whole number behind those of 64 bits, or its opposite, for this is the only double that
rounding a stored number can reach.
-/

namespace CorpusQuery

open Number (value? wholeValue exactInt?)

/-! ## The numbers that are held -/

namespace Value

/-- The number that a value holds, if it holds one. -/
def size? : Value → Option (WithBot (WithTop ℤ))
  | .int n => some (wholeValue n)
  | .real x => value? x
  | .text _ | .null => none

/-- A value that is no whole number of more than 64 bits. -/
def Within64 (v : Value) : Prop := ∀ n, v = .int n → n.natAbs ≤ 2 ^ 63

end Value

namespace Sql.Datum

/-- The number that a datum holds, if it holds one. -/
def size? : Datum → Option (WithBot (WithTop ℤ))
  | .int n => some (wholeValue n)
  | .real x => value? x
  | .text _ | .bytes _ | .null => none

theorem size?_ofValue (v : Value) : (ofValue v).size? = v.size? := by
  cases v with
  | int | text | null => rfl
  | real x =>
    rw [ofValue]
    split
    case isTrue h => exact ((Number.isNaN_iff x).mp h).symm
    case isFalse => rfl

variable {d d' : Datum} {a b : WithBot (WithTop ℤ)}

theorem order_of_values {x y : Float} (hx : value? x = some a) (hy : value? y = some b) :
    Number.order x y = some (compare a b) := by
  rw [Number.order_eq, hx, hy]
  rfl

/-- **Order.** Data that hold numbers are ordered like the numbers. -/
theorem order_of_size? (hd : d.size? = some a) (hd' : d'.size? = some b) :
    d.order d' = compare a b := by
  cases d with
  | null | text | bytes => cases hd
  | int n =>
    obtain rfl := Option.some.inj hd
    cases d' with
    | null | text | bytes => cases hd'
    | int m =>
      obtain rfl := Option.some.inj hd'
      exact (Number.compare_wholeValue n m).symm
    | real y => exact Number.compareInt_eq hd' n
  | real x =>
    cases d' with
    | null | text | bytes => cases hd'
    | int m =>
      obtain rfl := Option.some.inj hd'
      have hcompare : Number.compareInt m x = compare (wholeValue m) a :=
        Number.compareInt_eq hd m
      rw [order, hcompare, ← Std.OrientedOrd.eq_swap]
    | real y => rw [order, order_of_values hd hd', Option.getD_some]

theorem compareAs_of_size? (hd : d.size? = some a) (hd' : d'.size? = some b) (r : Affinity) :
    d.compareAs r d' = some (compare a b) := by
  have hnumber : ∀ e : Datum, ∀ c, e.size? = some c →
      e.isNull = false ∧ e.isText = false ∧ e.numbered = e := by
    intro e c he
    cases e with
    | null | text | bytes => cases he
    | int | real => exact ⟨rfl, rfl, rfl⟩
  obtain ⟨hnull, htext, hnumbered⟩ := hnumber d a hd
  obtain ⟨hnull', htext', hnumbered'⟩ := hnumber d' b hd'
  have hdrawn : drawn r d d' = (d, d') := by
    rw [drawn, hnumbered, hnumbered', htext, htext']
    simp
  rw [compareAs, hnull, hnull', hdrawn, ← order_of_size? hd hd']
  rfl

end Sql.Datum

/-! ## Counts -/

/-- A datum that is missing or holds a number. -/
inductive Sql.Datum.Counted : Sql.Datum → Prop
  | missing : Counted .null
  | held {d : Sql.Datum} {a : WithBot (WithTop ℤ)} (h : d.size? = some a) : Counted d

namespace Sql.Datum.Counted

variable {d d' : Sql.Datum}

/-- What is missing is smaller than every number. -/
theorem order_null {a : WithBot (WithTop ℤ)} (h : d.size? = some a) :
    Datum.null.order d = .lt ∧ d.order .null = .gt := by
  cases d with
  | null | text | bytes => cases h
  | int n => exact ⟨rfl, rfl⟩
  | real x => exact ⟨rfl, rfl⟩

theorem size?_eq_of_order (hd : Counted d) (hd' : Counted d') (h : d.order d' = .eq) :
    d.size? = d'.size? := by
  cases hd with
  | missing =>
    cases hd' with
    | missing => rfl
    | held hb =>
      rw [(order_null hb).1] at h
      cases h
  | held ha =>
    cases hd' with
    | missing =>
      rw [(order_null ha).2] at h
      cases h
    | held hb =>
      rw [order_of_size? ha hb, compare_eq_iff_eq] at h
      rw [ha, hb, h]

end Sql.Datum.Counted

/-! ## Thresholds -/

/-- A threshold that rounding a stored number cannot reach. -/
def Unreached (x : Float) : Prop := ∀ n, exactInt? x = some n → n.natAbs ≠ 2 ^ 63

namespace Value

variable {v : Value} {x : Float} {a b : WithBot (WithTop ℤ)}

theorem size?_ofNumber (x : Float) : (ofNumber x).size? = value? x := by
  rw [ofNumber]
  split
  · next n hn =>
    split
    · exact (Number.value?_of_exactInt? hn).symm
    · rfl
  · rfl

theorem ofNumber_of_value?_eq_none (hx : value? x = none) : ofNumber x = .real x := by
  rw [ofNumber]
  split
  · next n hn =>
    rw [Number.value?_of_exactInt? hn] at hx
    cases hx
  · rfl

theorem isNull_of_size? (ha : v.size? = some a) : v.isNull = false := by
  cases v with
  | null => cases ha
  | int | real | text => rfl

/-- **Thresholds.** A value and a threshold compare like the numbers they hold. -/
theorem order?_ofNumber (hv : v.Within64) (hx : Unreached x) (ha : v.size? = some a)
    (hb : value? x = some b) : v.order? (ofNumber x) = some (compare a b) := by
  -- Either the threshold is a whole number of 64 bits, or rounding cannot reach it.
  have hthreshold : (∃ n, ofNumber x = .int n ∧ exactInt? x = some n ∧ n.natAbs < 2 ^ 63) ∨
      ofNumber x = .real x ∧ ∀ n, exactInt? x = some n → 2 ^ 63 < n.natAbs := by
    rw [ofNumber]
    split
    · next n hn =>
      split
      case isTrue hlt => exact .inl ⟨n, rfl, hn, hlt⟩
      case isFalse hge =>
        refine .inr ⟨rfl, fun m hm ↦ ?_⟩
        obtain rfl := Option.some.inj (hn.symm.trans hm)
        have hne := hx n hn
        have hge' : ¬ n.natAbs < 2 ^ 63 := hge
        omega
    · next hnone => exact .inr ⟨rfl, fun m hm ↦ by rw [hnone] at hm; cases hm⟩
  cases v with
  | null | text => cases ha
  | int m =>
    obtain rfl := Option.some.inj ha
    rcases hthreshold with ⟨n, hof, hn, -⟩ | ⟨hof, hfar⟩
    · obtain rfl := Option.some.inj (hb.symm.trans (Number.value?_of_exactInt? hn))
      rw [hof]
      exact congrArg some (Number.compare_wholeValue m n).symm
    · rw [hof, order?, Number.order_ofInt (hv m rfl) hfar, hb, Option.map_some]
  | real y =>
    rcases hthreshold with ⟨n, hof, hn, hlt⟩ | ⟨hof, -⟩
    · obtain rfl := Option.some.inj (hb.symm.trans (Number.value?_of_exactInt? hn))
      rw [hof]
      exact Sql.Datum.order_of_values ha (Number.value?_ofInt hn hlt.le)
    · rw [hof]
      exact Sql.Datum.order_of_values ha hb

theorem order?_of_kind_eq {w : Value} (hkind : v.kind = w.kind) (ha : v.size? = some a)
    (hb : w.size? = some b) : v.order? w = some (compare a b) := by
  cases v with
  | null | text => cases ha
  | int n =>
    obtain rfl := Option.some.inj ha
    cases w with
    | null | text | real => cases hkind
    | int m =>
      obtain rfl := Option.some.inj hb
      exact congrArg some (Number.compare_wholeValue n m).symm
  | real x =>
    cases w with
    | null | text | int => cases hkind
    | real y => exact Sql.Datum.order_of_values ha hb

end Value

/-! ## One number on both sides -/

/-- A datum and a value are both missing, or hold the same number. -/
inductive SameNumber : Sql.Datum → Value → Prop
  | missing : SameNumber .null .null
  | held {d : Sql.Datum} {v : Value} {a : WithBot (WithTop ℤ)} (hd : d.size? = some a)
    (hv : v.size? = some a) : SameNumber d v

namespace SameNumber

variable {d d' : Sql.Datum} {v v' : Value}

theorem of_ofValue (hv : v = .null ∨ v.size?.isSome = true) : SameNumber (.ofValue v) v := by
  rcases hv with rfl | hv
  · exact .missing
  · obtain ⟨a, ha⟩ := Option.isSome_iff_exists.mp hv
    exact .held ((Sql.Datum.size?_ofValue v).trans ha) ha

theorem size?_eq (h : SameNumber d v) : d.size? = v.size? := by
  cases h with
  | missing => rfl
  | held hd hv => exact hd.trans hv.symm

theorem isNull_eq (h : SameNumber d v) : v.isNull = d.size?.isNone := by
  cases h with
  | missing => rfl
  | held hd hv =>
    rw [Value.isNull_of_size? hv, hd]
    rfl

theorem counted (h : SameNumber d v) : d.Counted := by
  cases h with
  | missing => exact .missing
  | held hd _ => exact .held hd

/-- **Comparing with a threshold.** A condition on a column and a comparison of a cell that hold the
same number have the same truth. -/
theorem truth_compare {scope : Sql.Scope} {e : Sql.Expr} (h : SameNumber (e.eval scope) v)
    (hv : v.Within64) {x : Float} (hx : Unreached x) {op : Operator} {o : Sql.BinaryOp}
    {c : Comparison} (hop : Sql.ComparedAlike op o c) :
    (Sql.Expr.binary e o (.value (.ofNumber x))).truth scope
      = v.comparisonTruth c (.ofNumber x) := by
  rw [Sql.truth_binary_value, hop.truth]
  generalize (e.affinity? scope).getD .raw = r
  generalize e.eval scope = d at h
  cases h with
  | missing => rfl
  | @held _ _ a hd hv' =>
    have hnull : (Value.ofNumber x).isNull = false :=
      Bool.eq_false_iff.mpr fun h ↦ Value.ofNumber_ne_null x (Value.isNull_iff.mp h)
    rw [Value.comparisonTruth, Value.isNull_of_size? hv', hnull]
    cases hb : value? x with
    | some b =>
      have hb' : (Sql.Datum.ofValue (.ofNumber x)).size? = some b :=
        ((Sql.Datum.size?_ofValue _).trans (Value.size?_ofNumber x)).trans hb
      rw [Sql.Datum.compareAs_of_size? hd hb', Value.order?_ofNumber hv hx hv' hb]
      rfl
    | none =>
      -- What is no number is stored as nothing, and it compares with nothing as it is.
      have hmissing : Sql.Datum.ofValue (.real x) = .null :=
        if_pos ((Number.isNaN_iff x).mpr hb)
      have hnone (y : Float) : Number.order y x = none := by
        rw [Number.order_eq, hb]
        cases value? y <;> rfl
      rw [Value.ofNumber_of_value?_eq_none hb, hmissing, Sql.Datum.compareAs_null_right]
      cases v with
      | null | text => cases hv'
      | int n => simp [Value.order?, Value.looseOrder?, Value.toNumber?, hnone]
      | real y => simp [Value.order?, Value.looseOrder?, Value.toNumber?, hnone]

end SameNumber

end CorpusQuery

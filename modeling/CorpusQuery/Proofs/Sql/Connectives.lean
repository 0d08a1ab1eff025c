import CorpusQuery.Sql.Eval

/-!
# Connectives of conditions

Negating a condition flips its operator where there is an opposite one and writes `NOT` in front
elsewhere. Both ways the truth is negated, and an unknown truth stays unknown. A conjunction keeps
the rows that all its parts keep, and membership those that are equal to some member; for that it
does not matter which of the other truths are unknown.
-/

namespace CorpusQuery

namespace Truth

theorem and_true (t : Truth) : and t (some true) = t := by
  rcases t with _ | _ | _ <;> rfl

theorem holds_all (ts : List Truth) : holds (all ts) = ts.all holds := by
  induction ts with
  | nil => rfl
  | cons t ts ih => rw [all, List.foldr_cons, holds_and, ← all, ih, List.all_cons]

end Truth

namespace Sql

namespace Expr

theorem truth_negate (scope : Scope) (e : Expr) : e.negate.truth scope = (e.truth scope).not := by
  cases e with
  | binary l op r =>
    have hcompare (o : Option Ordering) : o.map BinaryOp.ne.accepts
        = (Truth.not (o.map BinaryOp.eq.accepts)) := by
      rcases o with _ | _ | _ | _ <;> rfl
    cases op with
    | eq =>
      rw [negate, truth, truth, eval, eval, Datum.truth_ofTruth, Datum.truth_ofTruth]
      exact hcompare _
    | like =>
      rw [negate, truth, truth, eval, eval, Datum.truth_ofTruth, Datum.truth_ofTruth]
      rfl
    | ne => exact truth_not scope _
    | lt => exact truth_not scope _
    | gt => exact truth_not scope _
    | le => exact truth_not scope _
    | ge => exact truth_not scope _
    | and => exact truth_not scope _
    | or => exact truth_not scope _
    | notLike => exact truth_not scope _
    | glob => exact truth_not scope _
  | inList e items negated =>
    rw [negate, truth, truth, eval, eval, Datum.truth_ofTruth, Datum.truth_ofTruth]
    cases negated with
    | false => rfl
    | true => exact (Truth.not_not _).symm
  | column qualifier name => exact truth_not scope _
  | value v => exact truth_not scope _
  | call function args => exact truth_not scope _
  | not e => exact truth_not scope _
  | group e => exact truth_not scope _

/-- What conditions have in common their conjunction has as well, if it goes through `AND`. -/
theorem andAll?_induction {motive : Expr → Prop}
    (hand : ∀ l r, motive l → motive r → motive (.binary l .and r)) {es : List Expr} {e : Expr}
    (hes : ∀ e ∈ es, motive e) (h : andAll? es = some e) : motive e := by
  cases es with
  | nil => cases h
  | cons first es =>
    obtain rfl := Option.some.inj h
    obtain ⟨hfirst, hrest⟩ := List.forall_mem_cons.mp hes
    exact es.foldlRecOn (.binary · .and ·) hfirst fun l hl r hr ↦ hand l r hl (hrest r hr)

/-- What conditions have in common their disjunction has as well, if it goes through `OR` and groups
keep it. -/
theorem orAll?_induction {motive : Expr → Prop}
    (hor : ∀ l r, motive l → motive r → motive (.binary l .or r))
    (hgroup : ∀ e, motive e → motive (.group e)) {es : List Expr} {e : Expr}
    (hes : ∀ e ∈ es, motive e) (h : orAll? es = some e) : motive e := by
  match es with
  | [] => cases h
  | [first] =>
    obtain rfl : first = e := Option.some.inj h
    exact hes first (List.mem_singleton_self first)
  | first :: next :: es =>
    obtain rfl := Option.some.inj h
    obtain ⟨hfirst, hrest⟩ := List.forall_mem_cons.mp hes
    exact hgroup _ <| (next :: es).foldlRecOn (.binary · .or ·) hfirst fun l hl r hr ↦
      hor l r hl (hrest r hr)

theorem truth_of_andAll? {es : List Expr} {e : Expr} (h : andAll? es = some e) (scope : Scope) :
    e.truth scope = Truth.all (es.map (·.truth scope)) := by
  have hfoldl (es : List Expr) (e : Expr) : (es.foldl (.binary · .and ·) e).truth scope
      = (e.truth scope).and (Truth.all (es.map (·.truth scope))) := by
    induction es generalizing e with
    | nil => exact (Truth.and_true _).symm
    | cons next es ih =>
      rw [List.foldl_cons, ih, truth_and, Truth.and_assoc]
      rfl
  cases es with
  | nil => cases h
  | cons first es =>
    obtain rfl := Option.some.inj h
    exact hfoldl es first

theorem holds_of_andAll? {es : List Expr} {e : Expr} (h : andAll? es = some e) (scope : Scope) :
    (e.truth scope).holds = es.all fun e ↦ (e.truth scope).holds := by
  rw [truth_of_andAll? h, Truth.holds_all, List.all_map]
  rfl

end Expr

namespace Datum

/-- Whether a datum is equal to another, as both are drawn for comparing. -/
def equals (a : Affinity) (d item : Datum) : Bool := d.compareAs a item == some .eq

theorem holds_compareAs_eq (a : Affinity) (d item : Datum) :
    Truth.holds ((d.compareAs a item).map BinaryOp.eq.accepts) = d.equals a item := by
  rw [equals]
  rcases d.compareAs a item with _ | _ | _ | _ <;> rfl

theorem holds_memberTruth (a : Affinity) (d : Datum) (items : List Datum) :
    (d.memberTruth a items).holds = items.any (d.equals a) := by
  induction items with
  | nil => rfl
  | cons item items ih =>
    have hor (s t : Truth) : (Truth.or s t).holds = (s.holds || t.holds) := by
      rcases s with _ | _ | _ <;> rcases t with _ | _ | _ <;> rfl
    rw [memberTruth, List.foldr_cons, hor, ← memberTruth, ih, List.any_cons]
    exact congrArg (· || _) (holds_compareAs_eq a d item)

end Datum

end Sql

end CorpusQuery

import CorpusQuery.Proofs.Sql.Connectives

/-!
# What an expression depends on

An expression sees its scope only through the columns it names. Most expressions of a statement name
columns under one alias, and then their value depends on nothing but the row under that alias,
whatever else is joined. That is what lets a join be looked at apart from the other joins.

The columns are listed by recursion on the expression, and being about one alias is a property of
the list, like having only columns that are there. Such properties are closed under everything that
conditions are built from.
-/

namespace CorpusQuery.Sql

/-! ## The columns of an expression -/

namespace Expr

mutual

/-- The columns that an expression names. -/
def columns : Expr → List ColumnName
  | .column qualifier name => [⟨qualifier, name⟩]
  | .value _ => []
  | .binary l _ r => l.columns ++ r.columns
  | .inList e items _ => e.columns ++ columnsAll items
  | .call _ args => columnsAll args
  | .not e => e.columns
  | .group e => e.columns

/-- The columns that expressions name. -/
def columnsAll : List Expr → List ColumnName
  | [] => []
  | e :: es => e.columns ++ columnsAll es

end

variable {scope scope' : Scope}

theorem affinity?_congr : (e : Expr) → (∀ c ∈ e.columns, scope c = scope' c) →
    e.affinity? scope = e.affinity? scope'
  | .column qualifier name, h => by
    rw [affinity?, affinity?, h _ (List.mem_singleton_self _)]
  | .group e, h => affinity?_congr e h
  | .value _, _ => rfl
  | .binary _ _ _, _ => rfl
  | .inList _ _ _, _ => rfl
  | .call _ _, _ => rfl
  | .not _, _ => rfl

mutual

theorem eval_congr : (e : Expr) → (∀ c ∈ e.columns, scope c = scope' c) →
    e.eval scope = e.eval scope'
  | .column qualifier name, h => by
    rw [eval, eval, h _ (List.mem_singleton_self _)]
  | .value _, _ => rfl
  | .binary l op r, h => by
    have hl : ∀ c ∈ l.columns, scope c = scope' c := fun c hc ↦ h c (List.mem_append_left _ hc)
    have hr : ∀ c ∈ r.columns, scope c = scope' c := fun c hc ↦ h c (List.mem_append_right _ hc)
    rw [eval, eval, eval_congr l hl, eval_congr r hr, affinity?_congr l hl, affinity?_congr r hr]
  | .inList e items negated, h => by
    have he : ∀ c ∈ e.columns, scope c = scope' c := fun c hc ↦ h c (List.mem_append_left _ hc)
    rw [eval, eval, eval_congr e he, affinity?_congr e he,
      evalAll_congr items fun c hc ↦ h c (List.mem_append_right _ hc)]
  | .call function args, h => by
    rw [eval, eval, evalAll_congr args h]
  | .not e, h => by
    rw [eval, eval, eval_congr e h]
  | .group e, h => by
    rw [eval, eval, eval_congr e h]

theorem evalAll_congr : (es : List Expr) → (∀ c ∈ columnsAll es, scope c = scope' c) →
    evalAll scope es = evalAll scope' es
  | [], _ => rfl
  | e :: es, h => by
    rw [evalAll, evalAll, eval_congr e fun c hc ↦ h c (List.mem_append_left _ hc),
      evalAll_congr es fun c hc ↦ h c (List.mem_append_right _ hc)]

end

/-! ## Conditions on the columns of an expression -/

/-- All columns that the expression names are as they should be. -/
def Over (P : ColumnName → Prop) (e : Expr) : Prop := ∀ c ∈ e.columns, P c

/-- The expression names no columns but those of one alias. -/
def About (aliasName : String) (e : Expr) : Prop := Over (·.qualifier = some aliasName) e

theorem About.eval_eq {aliasName : String} {e : Expr} (h : About aliasName e)
    (hscope : ∀ name, scope ⟨some aliasName, name⟩ = scope' ⟨some aliasName, name⟩) :
    e.eval scope = e.eval scope' := by
  refine eval_congr e fun ⟨qualifier, name⟩ hc ↦ ?_
  obtain rfl : qualifier = some aliasName := h _ hc
  exact hscope name

variable {P : ColumnName → Prop}

theorem over_of {aliasName name : String} (h : P ⟨some aliasName, name⟩) :
    Over P (.of aliasName name) :=
  fun _ hc ↦ List.mem_singleton.mp hc ▸ h

theorem over_value (v : Value) : Over P (.value v) := fun _ hc ↦ absurd hc List.not_mem_nil

theorem Over.binary {l r : Expr} (hl : Over P l) (op : BinaryOp) (hr : Over P r) :
    Over P (.binary l op r) :=
  fun c hc ↦ (List.mem_append.mp hc).elim (hl c) (hr c)

theorem columnsAll_map_value (vs : List Value) : columnsAll (vs.map .value) = [] := by
  induction vs with
  | nil => rfl
  | cons v vs ih => rw [List.map_cons, columnsAll, ih]; rfl

theorem Over.inValues {e : Expr} (h : Over P e) (vs : List Value) (negated : Bool) :
    Over P (.inList e (vs.map .value) negated) := by
  intro c hc
  rw [columns, columnsAll_map_value, List.append_nil] at hc
  exact h c hc

theorem Over.negate {e : Expr} (h : Over P e) : Over P e.negate := by
  cases e with
  | binary l op r => cases op <;> exact h
  | column | value | inList | call | not | group => exact h

theorem Over.andAll? {es : List Expr} {e : Expr} (hes : ∀ e ∈ es, Over P e)
    (h : andAll? es = some e) : Over P e :=
  andAll?_induction (fun _ _ hl hr ↦ hl.binary .and hr) hes h

theorem Over.orAll? {es : List Expr} {e : Expr} (hes : ∀ e ∈ es, Over P e)
    (h : orAll? es = some e) : Over P e :=
  orAll?_induction (fun _ _ hl hr ↦ hl.binary .or hr) (fun _ ↦ id) hes h

end Expr

end CorpusQuery.Sql

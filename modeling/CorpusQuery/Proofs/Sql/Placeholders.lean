import CorpusQuery.Proofs.Sql.Tokens
import CorpusQuery.Sql.Select

/-!
# Placeholders and bound values

A statement goes to the engine as a text and a list of values, and the engine binds the values to
the placeholders of the text, one after another. No name tells a value which placeholder is its own,
so a placeholder too many or too few, or two values in each other's place, would go unnoticed.

Question marks may stand in the names of columns and tables. Such a name is written in double
quotes, and what stands in quotes is no placeholder, so placeholders are counted by a scan that
knows whether it is inside quotes. A fragment keeps its text and its values together if the scan
finds one placeholder for each value and is outside of quotes again at its end; and fragments that
do can be put together to one that does. Only the names of functions are written as they are.

## Main statements

* `Sql.Select.aligned`: a statement has one placeholder for each bound value.
* `Sql.Select.args_fragment`: the bound values are those of the expressions from left to right.
-/

namespace CorpusQuery.Sql

/-! ## Counting -/

/-- The number of placeholders in a text that is read from outside of double quotes or, if `quoted`,
from inside. A doubled quote ends the quotes and begins them again. -/
def countPlaceholders (quoted : Bool) : List Char → Nat
  | [] => 0
  | c :: cs =>
    if c = '"' then countPlaceholders (!quoted) cs
    else if c = '?' ∧ quoted = false then countPlaceholders quoted cs + 1
    else countPlaceholders quoted cs

/-- A text that can stand outside of quotes without a placeholder. -/
def Bare (s : String) : Prop := '"' ∉ s.toList ∧ '?' ∉ s.toList

instance (s : String) : Decidable (Bare s) := inferInstanceAs (Decidable (_ ∧ _))

theorem countPlaceholders_append_of_bare {s : String} (h : Bare s) (quoted : Bool)
    (rest : List Char) :
    countPlaceholders quoted (s.toList ++ rest) = countPlaceholders quoted rest := by
  obtain ⟨hquote, hmark⟩ := h
  generalize s.toList = cs at hquote hmark ⊢
  induction cs with
  | nil => rfl
  | cons c cs ih =>
    obtain ⟨hc, hquote⟩ := not_or.mp (mt List.mem_cons.mpr hquote)
    obtain ⟨hc', hmark⟩ := not_or.mp (mt List.mem_cons.mpr hmark)
    rw [List.cons_append, countPlaceholders, if_neg (Ne.symm hc), if_neg fun h ↦ hc' h.1.symm,
      ih hquote hmark]

/-- Inside of quotes nothing is counted, and a doubled quote leads back inside. -/
theorem countPlaceholders_doubled (cs rest : List Char) :
    countPlaceholders true (Token.doubled cs ++ rest) = countPlaceholders true rest := by
  induction cs with
  | nil => rfl
  | cons c cs ih =>
    rw [← ih]
    by_cases hc : c = '"'
    · rw [hc]
      rfl
    · rw [Token.doubled_cons_of_ne hc, List.cons_append, countPlaceholders, if_neg hc,
        if_neg fun h ↦ Bool.noConfusion h.2]

theorem bare_of_isPlain {name : String} (h : isPlain name = true) : Bare name := by
  obtain ⟨c, cs, hname, -, hparts⟩ := Token.exists_cons_of_isPlain h
  rw [← hname, List.all_eq_true] at hparts
  constructor
  · intro hmem
    exact absurd (hparts _ hmem) (by decide)
  · intro hmem
    exact absurd (hparts _ hmem) (by decide)

theorem countPlaceholders_quote (name : String) (rest : List Char) :
    countPlaceholders false ((quote name).toList ++ rest) = countPlaceholders false rest := by
  by_cases hplain : isPlain name = true
  · rw [quote, if_pos hplain]
    exact countPlaceholders_append_of_bare (bare_of_isPlain hplain) false rest
  · rw [Token.toList_quote_of_not_isPlain hplain, countPlaceholders, if_pos rfl, Bool.not_false,
      countPlaceholders_doubled, countPlaceholders, if_pos rfl, Bool.not_true]

/-! ## Fragments -/

namespace Fragment

/-- The text of the fragment has one placeholder for each of its values, and what follows it is read
from outside of quotes. -/
def Aligned (f : Fragment) : Prop :=
  ∀ rest, countPlaceholders false (f.sql.toList ++ rest)
    = f.args.length + countPlaceholders false rest

variable {f g : Fragment}

theorem Aligned.count_sql (h : f.Aligned) :
    countPlaceholders false f.sql.toList = f.args.length := by
  have hall := h []
  rwa [List.append_nil] at hall

theorem aligned_nil : Aligned [] := fun _ ↦ (Nat.zero_add _).symm

theorem Aligned.append (hf : f.Aligned) (hg : g.Aligned) : (f ++ g).Aligned := by
  intro rest
  rw [sql_append, String.toList_append, List.append_assoc, hf, hg, args_append,
    List.length_append, Nat.add_assoc]

theorem aligned_text {s : String} (h : Bare s) : (text s).Aligned := by
  intro rest
  rw [text, sql_singleton, Piece.sql, countPlaceholders_append_of_bare h]
  exact (Nat.zero_add _).symm

theorem aligned_name (s : String) : (name s).Aligned := by
  intro rest
  rw [name, text, sql_singleton, Piece.sql, countPlaceholders_quote]
  exact (Nat.zero_add _).symm

theorem aligned_column (c : ColumnName) : Aligned [.column c] := by
  intro rest
  have hargs : args [.column c] = [] := rfl
  rw [sql_singleton, hargs, List.length_nil, Nat.zero_add]
  rcases c with ⟨_ | qualifier, name⟩
  · exact countPlaceholders_quote name rest
  · have hdot : Bare "." := by decide
    have htext : (Piece.column ⟨some qualifier, name⟩).sql.toList ++ rest
        = (quote qualifier).toList ++ (".".toList ++ ((quote name).toList ++ rest)) := by
      simp [Piece.sql]
    rw [htext, countPlaceholders_quote, countPlaceholders_append_of_bare hdot,
      countPlaceholders_quote]

theorem aligned_bound (v : Value) : Aligned [.bound v] := by
  intro rest
  have hsql : (sql [.bound v]).toList = ['?'] := by
    rw [sql_singleton, Piece.sql, placeholder]
    decide
  rw [hsql]
  exact Nat.add_comm _ 1

theorem Aligned.parens (h : f.Aligned) : (parens f).Aligned :=
  ((aligned_text (by decide)).append h).append (aligned_text (by decide))

theorem aligned_commas {fs : List Fragment} (h : ∀ f ∈ fs, f.Aligned) : (commas fs).Aligned := by
  match fs with
  | [] => exact aligned_nil
  | [f] => exact h f (List.mem_singleton_self f)
  | f :: next :: fs =>
    have hrest : (commas (next :: fs)).Aligned :=
      aligned_commas fun g hg ↦ h g (List.mem_cons_of_mem f hg)
    exact ((h f List.mem_cons_self).append (aligned_text (by decide))).append hrest

theorem aligned_flatMap {α : Type} {xs : List α} {part : α → Fragment}
    (h : ∀ x ∈ xs, (part x).Aligned) : Aligned (xs.flatMap part) := by
  induction xs with
  | nil => exact aligned_nil
  | cons x xs ih =>
    exact (h x List.mem_cons_self).append (ih fun y hy ↦ h y (List.mem_cons_of_mem x hy))

theorem aligned_whenSome {α : Type} {a : Option α} {part : α → Fragment}
    (h : ∀ x ∈ a, (part x).Aligned) : Aligned (whenSome a part) := by
  cases a with
  | none => exact aligned_nil
  | some x => exact h x rfl

theorem args_commas (fs : List Fragment) : args (commas fs) = fs.flatMap args := by
  match fs with
  | [] => rfl
  | [f] => exact (List.append_nil _).symm
  | f :: next :: fs =>
    have hcommas : commas (f :: next :: fs) = f ++ text ", " ++ commas (next :: fs) := rfl
    rw [hcommas, args_append, args_append, args_text, List.append_nil, args_commas (next :: fs)]
    rfl

theorem args_flatMap {α : Type} (xs : List α) (part : α → Fragment) :
    args (xs.flatMap part) = xs.flatMap fun x ↦ args (part x) := by
  induction xs with
  | nil => rfl
  | cons x xs ih => rw [List.flatMap_cons, args_append, ih, List.flatMap_cons]

theorem args_whenSome {α : Type} {a : Option α} {part : α → Fragment}
    (h : ∀ x ∈ a, args (part x) = []) : args (whenSome a part) = [] := by
  cases a with
  | none => rfl
  | some x => exact h x rfl

end Fragment

/-! ## Expressions -/

namespace Expr

mutual

/-- The values in an expression from left to right. -/
def values : Expr → List Value
  | .column _ _ => []
  | .value v => [v]
  | .binary l _ r => l.values ++ r.values
  | .inList e items _ => e.values ++ valuesAll items
  | .call _ args => valuesAll args
  | .not e => e.values
  | .group e => e.values

/-- The values in expressions from left to right. -/
def valuesAll : List Expr → List Value
  | [] => []
  | e :: es => e.values ++ valuesAll es

end

mutual

/-- The names of the functions that an expression calls. -/
def functions : Expr → List String
  | .column _ _ => []
  | .value _ => []
  | .binary l _ r => l.functions ++ r.functions
  | .inList e items _ => e.functions ++ functionsAll items
  | .call function args => function :: functionsAll args
  | .not e => e.functions
  | .group e => e.functions

/-- The names of the functions that expressions call. -/
def functionsAll : List Expr → List String
  | [] => []
  | e :: es => e.functions ++ functionsAll es

end

theorem args_underAnd (op : BinaryOp) (e : Expr) (f : Fragment) :
    (underAnd op e f).args = f.args := by
  rw [underAnd.eq_def]
  split
  · exact Fragment.args_parens f
  · rfl

theorem args_underNot (e : Expr) (f : Fragment) : (underNot e f).args = f.args := by
  rw [underNot.eq_def]
  split
  · rfl
  · exact Fragment.args_parens f

theorem aligned_underAnd (op : BinaryOp) (e : Expr) {f : Fragment} (h : f.Aligned) :
    (underAnd op e f).Aligned := by
  rw [underAnd.eq_def]
  split
  · exact h.parens
  · exact h

theorem aligned_underNot (e : Expr) {f : Fragment} (h : f.Aligned) : (underNot e f).Aligned := by
  rw [underNot.eq_def]
  split
  · exact h
  · exact h.parens

theorem bare_text (op : BinaryOp) : Bare (" " ++ op.text ++ " ") := by
  cases op <;> decide

mutual

/-- **Values of an expression** are bound from left to right. -/
theorem args_fragment : (e : Expr) → e.fragment.args = e.values
  | .column _ _ => rfl
  | .value _ => rfl
  | .binary l op r => by
    rw [fragment, values, Fragment.args_append, Fragment.args_append, args_underAnd, args_underAnd,
      Fragment.args_text, List.append_nil, args_fragment l, args_fragment r]
  | .inList e items negated => by
    rw [fragment, values, Fragment.args_append, Fragment.args_append, Fragment.args_append,
      Fragment.args_text, Fragment.args_text, List.append_nil, List.append_nil, args_fragment e,
      Fragment.args_commas, args_fragments items]
  | .call function args => by
    rw [fragment, values, Fragment.args_append, Fragment.args_text, List.nil_append,
      Fragment.args_parens, Fragment.args_commas, args_fragments args]
  | .not e => by
    rw [fragment, values, Fragment.args_append, Fragment.args_text, List.nil_append, args_underNot,
      args_fragment e]
  | .group e => by
    rw [fragment, values, Fragment.args_parens, args_fragment e]

theorem args_fragments : (es : List Expr) → (fragments es).flatMap Fragment.args = valuesAll es
  | [] => rfl
  | e :: es => by
    rw [fragments, valuesAll, List.flatMap_cons, args_fragment e, args_fragments es]

end

mutual

/-- **Placeholders of an expression.** An expression has one for each of its values. -/
theorem aligned : (e : Expr) → (∀ f ∈ e.functions, Bare f) → e.fragment.Aligned
  | .column qualifier name, _ => Fragment.aligned_column ⟨qualifier, name⟩
  | .value v, _ => Fragment.aligned_bound v
  | .binary l op r, h => by
    have hl := aligned l fun f hf ↦ h f (List.mem_append_left _ hf)
    have hr := aligned r fun f hf ↦ h f (List.mem_append_right _ hf)
    rw [fragment]
    exact ((aligned_underAnd op l hl).append (Fragment.aligned_text (bare_text op))).append
      (aligned_underAnd op r hr)
  | .inList e items negated, h => by
    have he := aligned e fun f hf ↦ h f (List.mem_append_left _ hf)
    have hitems := aligned_fragments items fun f hf ↦ h f (List.mem_append_right _ hf)
    have hword : Bare (if negated then " NOT IN(" else " IN(") := by
      cases negated <;> decide
    rw [fragment]
    exact ((he.append (Fragment.aligned_text hword)).append
      (Fragment.aligned_commas hitems)).append (Fragment.aligned_text (by decide))
  | .call function args, h => by
    have hfunction := h function List.mem_cons_self
    have hargs := aligned_fragments args fun f hf ↦ h f (List.mem_cons_of_mem _ hf)
    rw [fragment]
    exact (Fragment.aligned_text hfunction).append (Fragment.aligned_commas hargs).parens
  | .not e, h => by
    rw [fragment]
    exact (Fragment.aligned_text (by decide)).append (aligned_underNot e (aligned e h))
  | .group e, h => by
    rw [fragment]
    exact (aligned e h).parens

theorem aligned_fragments : (es : List Expr) → (∀ f ∈ functionsAll es, Bare f) →
    ∀ f ∈ fragments es, f.Aligned
  | [], _ => fun _ hf ↦ absurd hf List.not_mem_nil
  | e :: es, h => by
    have he := aligned e fun f hf ↦ h f (List.mem_append_left _ hf)
    have hes := aligned_fragments es fun f hf ↦ h f (List.mem_append_right _ hf)
    exact List.forall_mem_cons.mpr ⟨he, hes⟩

end

end Expr

/-! ## Select statements -/

theorem bare_limit (n : Nat) : Bare (" LIMIT " ++ toString n) := by
  have hdigits : ∀ c ∈ (toString n).toList, c.isDigit = true := by
    rw [Nat.toString_eq_repr, Nat.repr, String.toList_ofList]
    exact fun c hc ↦ Nat.isDigit_of_mem_toDigits (by decide) (by decide) hc
  have hword : Bare " LIMIT " := by decide
  rw [Bare, String.toList_append, List.mem_append, List.mem_append, not_or, not_or]
  refine ⟨⟨hword.1, fun h ↦ ?_⟩, hword.2, fun h ↦ ?_⟩
  · exact absurd (hdigits _ h) (by decide)
  · exact absurd (hdigits _ h) (by decide)

namespace Fragment

theorem aligned_tableName (t : TableName) : t.fragment.Aligned :=
  (aligned_whenSome fun s _ ↦ (aligned_name s).append (aligned_text (by decide))).append
    (aligned_name t.table)

theorem aligned_named {word : String} (hword : Bare word) (a : Option String) :
    (whenSome a fun s ↦ text word ++ name s).Aligned :=
  aligned_whenSome fun s _ ↦ (aligned_text hword).append (aligned_name s)

theorem aligned_source (s : Source) : s.fragment.Aligned :=
  ((aligned_tableName s.table).append (aligned_named (by decide) s.aliasName)).append
    (aligned_named (by decide) s.index)

theorem args_tableName (t : TableName) : t.fragment.args = [] := by
  rw [TableName.fragment, args_append, args_whenSome fun _ _ ↦ rfl]
  rfl

theorem args_source (s : Source) : s.fragment.args = [] := by
  rw [Source.fragment, args_append, args_append, args_tableName, args_whenSome fun _ _ ↦ rfl,
    args_whenSome fun _ _ ↦ rfl]
  rfl

theorem aligned_join {j : Join} (h : ∀ f ∈ j.condition.functions, Bare f) :
    j.fragment.Aligned := by
  refine ((((aligned_text ?_).append (aligned_tableName j.table)).append
    (aligned_named (by decide) j.aliasName)).append (aligned_text (by decide))).append
    (j.condition.aligned h)
  cases j.kind <;> decide

theorem args_join (j : Join) : j.fragment.args = j.condition.values := by
  rw [Join.fragment, args_append, args_append, args_append, args_append, args_tableName,
    args_whenSome fun _ _ ↦ rfl, j.condition.args_fragment]
  rfl

theorem aligned_item {i : SelectItem} (h : ∀ f ∈ i.expr.functions, Bare f) :
    i.fragment.Aligned :=
  (i.expr.aligned h).append (aligned_named (by decide) i.aliasName)

theorem args_item (i : SelectItem) : i.fragment.args = i.expr.values := by
  rw [SelectItem.fragment, args_append, args_whenSome fun _ _ ↦ rfl, i.expr.args_fragment,
    List.append_nil]

theorem aligned_orderItem {o : OrderItem} (h : ∀ f ∈ o.expr.functions, Bare f) :
    o.fragment.Aligned := by
  refine (o.expr.aligned h).append ?_
  split
  · exact aligned_text (by decide)
  · exact aligned_text (by decide)
  · exact aligned_nil

theorem args_orderItem (o : OrderItem) : o.fragment.args = o.expr.values := by
  rw [OrderItem.fragment, args_append, o.expr.args_fragment]
  split
  · exact List.append_nil _
  · exact List.append_nil _
  · exact List.append_nil _

end Fragment

namespace Select

/-- The expressions of a statement in the order of its parts: those that are selected, the
conditions of the joins, the condition on rows, and those that rows are ordered by. Joins belong to
the tables that a statement selects from, and without one there is nothing to join. -/
def exprs (s : Select) : List Expr :=
  s.items.map (·.expr) ++ (if s.sources.isEmpty then [] else s.joins.map (·.condition))
    ++ s.condition.toList ++ s.order.map (·.expr)

/-- The values in a statement from left to right. -/
def values (s : Select) : List Value := s.exprs.flatMap (·.values)

/-- The names of the functions that a statement calls. -/
def functions (s : Select) : List String := s.exprs.flatMap (·.functions)

variable {s : Select}

theorem args_fromFragment (s : Select) :
    s.fromFragment.args = s.joins.flatMap (·.condition.values) := by
  have hsources : (s.sources.map (·.fragment)).flatMap Fragment.args = [] := by
    rw [List.flatMap_map, List.flatMap_eq_nil_iff]
    exact fun t _ ↦ Fragment.args_source t
  rw [fromFragment, Fragment.args_append, Fragment.args_commas, hsources, List.nil_append,
    Fragment.args_flatMap]
  exact congrArg (s.joins.flatMap ·) (funext fun j ↦ Fragment.args_join j)

theorem args_itemsFragment (s : Select) :
    s.itemsFragment.args = s.items.flatMap (·.expr.values) := by
  rw [itemsFragment, Fragment.args_commas, List.flatMap_map]
  exact congrArg (s.items.flatMap ·) (funext Fragment.args_item)

theorem args_conditionFragment (s : Select) :
    s.conditionFragment.args = s.condition.toList.flatMap (·.values) := by
  rw [conditionFragment]
  cases s.condition with
  | none => rfl
  | some e => exact e.args_fragment.trans (List.append_nil _).symm

theorem args_orderFragment (s : Select) :
    s.orderFragment.args = s.order.flatMap (·.expr.values) := by
  rw [orderFragment, Fragment.args_commas, List.flatMap_map]
  exact congrArg (s.order.flatMap ·) (funext Fragment.args_orderItem)

/-- **Values of a statement** are bound from left to right. -/
theorem args_fragment (s : Select) : s.fragment.args = s.values := by
  have hfrom : s.fromPart.args
      = (if s.sources.isEmpty then [] else s.joins.map (·.condition)).flatMap (·.values) := by
    rw [fromPart]
    split
    · rfl
    · rw [List.flatMap_map, ← args_fromFragment]
      rfl
  have hcondition : s.conditionPart.args = s.condition.toList.flatMap (·.values) := by
    rw [← args_conditionFragment, conditionPart, conditionFragment]
    cases s.condition <;> rfl
  have horder : s.orderPart.args = (s.order.map (·.expr)).flatMap (·.values) := by
    rw [List.flatMap_map, ← args_orderFragment, orderPart, orderFragment]
    cases s.order <;> rfl
  have hlimit : s.limitPart.args = [] := Fragment.args_whenSome fun _ _ ↦ rfl
  have hitems : s.itemsFragment.args = (s.items.map (·.expr)).flatMap (·.values) := by
    rw [args_itemsFragment, List.flatMap_map]
  rw [fragment, Fragment.args_append, Fragment.args_append, Fragment.args_append,
    Fragment.args_append, Fragment.args_append, head, Fragment.args_text, List.nil_append, hitems,
    hfrom, hcondition, horder, hlimit, List.append_nil, values, exprs, List.flatMap_append,
    List.flatMap_append, List.flatMap_append]

/-- **Placeholders of a statement.** A statement has one for each value that is bound. -/
theorem aligned (h : ∀ f ∈ s.functions, Bare f) : s.fragment.Aligned := by
  have hexprs : ∀ e ∈ s.exprs, ∀ f ∈ e.functions, Bare f := fun e he f hf ↦
    h f (List.mem_flatMap.mpr ⟨e, he, hf⟩)
  simp only [exprs, List.forall_mem_append, List.forall_mem_map] at hexprs
  obtain ⟨⟨⟨hitems, hjoins⟩, hcondition⟩, horder⟩ := hexprs
  have hhead : s.head.Aligned := by
    rw [head]
    split
    · exact Fragment.aligned_text (by decide)
    · exact Fragment.aligned_text (by decide)
  have hitemsPart : s.itemsFragment.Aligned := by
    refine Fragment.aligned_commas fun f hf ↦ ?_
    obtain ⟨i, hi, rfl⟩ := List.mem_map.mp hf
    exact Fragment.aligned_item (hitems i hi)
  have hfrom : s.fromPart.Aligned := by
    rw [fromPart]
    split
    case isTrue => exact Fragment.aligned_nil
    case isFalse hsources =>
      rw [if_neg hsources, List.forall_mem_map] at hjoins
      have htables : ∀ f ∈ s.sources.map (·.fragment), f.Aligned :=
        List.forall_mem_map.mpr fun t _ ↦ Fragment.aligned_source t
      refine (Fragment.aligned_text (by decide)).append
        ((Fragment.aligned_commas htables).append (Fragment.aligned_flatMap fun j hj ↦ ?_))
      exact (Fragment.aligned_text (by decide)).append (Fragment.aligned_join (hjoins j hj))
  have hconditionPart : s.conditionPart.Aligned := by
    rw [conditionPart]
    split
    · exact Fragment.aligned_nil
    · refine (Fragment.aligned_text (by decide)).append (Fragment.aligned_whenSome fun e he ↦ ?_)
      exact e.aligned (hcondition e (Option.mem_toList.mpr he))
  have horderPart : s.orderPart.Aligned := by
    rw [orderPart]
    split
    · exact Fragment.aligned_nil
    · refine (Fragment.aligned_text (by decide)).append (Fragment.aligned_commas fun f hf ↦ ?_)
      obtain ⟨o, ho, rfl⟩ := List.mem_map.mp hf
      exact Fragment.aligned_orderItem (horder o ho)
  have hlimit : s.limitPart.Aligned :=
    Fragment.aligned_whenSome fun n _ ↦ Fragment.aligned_text (bare_limit n)
  exact ((((hhead.append hitemsPart).append hfrom).append hconditionPart).append
    horderPart).append hlimit

end Select

end CorpusQuery.Sql

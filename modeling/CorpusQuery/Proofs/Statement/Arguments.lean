import CorpusQuery.Proofs.Sql.Placeholders
import CorpusQuery.Proofs.Statement.ReadBack

/-!
# Bound values of compiled statements

The engine is given a statement whole, but its parts are shown and tested on their own: the tables,
the conditions, the order and the limit. A statement is these parts with keywords between them, and
its values are those of the parts one after another, so that what is bound to a placeholder of the
whole is what the part has there.

Statements call few functions, and their names are plain, so a compiled statement has a placeholder
for each of its values.

## Main statements

* `Backend.bare_of_assemble`: the functions of a statement have plain names.
* `placeholders_aligned`: placeholders and values of all statements, and the parts of compiled ones.
-/

namespace CorpusQuery

open Sql (Bare Condition Expr)

/-! ## Names of functions -/

namespace Sql

theorem Expr.mem_functionsAll {es : List Expr} {f : String} :
    f ∈ Expr.functionsAll es ↔ ∃ e ∈ es, f ∈ e.functions := by
  induction es with
  | nil => simp [functionsAll]
  | cons e es ih => simp [functionsAll, ih]

theorem Operand.bare {e : Expr} (h : Operand e) : ∀ f ∈ e.functions, Bare f := by
  induction h with
  | column name _ => exact fun f hf ↦ absurd hf List.not_mem_nil
  | value v => exact fun f hf ↦ absurd hf List.not_mem_nil
  | call hplain _ _ ih =>
    intro f hf
    rcases List.mem_cons.mp hf with rfl | hf
    · exact bare_of_isPlain hplain
    · obtain ⟨e, he, hf⟩ := Expr.mem_functionsAll.mp hf
      exact ih e he f hf

theorem Condition.bare {e : Expr} (h : Condition e) : ∀ f ∈ e.functions, Bare f := by
  induction h with
  | test _ hl hr => exact List.forall_mem_append.mpr ⟨hl.bare, hr.bare⟩
  | inList he hitems _ =>
    refine List.forall_mem_append.mpr ⟨he.bare, fun f hf ↦ ?_⟩
    obtain ⟨i, hi, hf⟩ := Expr.mem_functionsAll.mp hf
    exact (hitems i hi).bare f hf
  | connective _ _ _ ihl ihr => exact List.forall_mem_append.mpr ⟨ihl, ihr⟩
  | not _ ih => exact ih
  | group _ ih => exact ih

end Sql

/-! ## Parts of statements -/

namespace Backend

variable {b : Backend} {a : Assembly} {st : Statement}

theorem bare_of_mem_joins {j : Sql.Join} (h : j ∈ b.joins a) :
    ∀ f ∈ j.condition.functions, Bare f := by
  have hnone {e : Expr} (he : e.functions = []) : ∀ f ∈ e.functions, Bare f :=
    he ▸ fun f hf ↦ absurd hf List.not_mem_nil
  simp only [joins, List.mem_append, List.mem_ite_nil_right, List.mem_singleton, List.mem_map] at h
  rcases h with ((⟨-, rfl⟩ | ⟨-, rfl⟩) | ⟨link, -, rfl⟩) | ⟨r, -, rfl⟩
  · exact hnone rfl
  · exact hnone rfl
  · exact hnone rfl
  · cases r with
    | initGrams => exact List.forall_mem_singleton.mpr (by decide)
    | finGrams => exact List.forall_mem_singleton.mpr (by decide)
    | _ => exact hnone rfl

/-- **Functions of statements.** If the conditions of an assembly call functions with plain names
only, so does its statement. -/
theorem bare_of_assemble (h : b.assemble a = .ok st) (ha : ∀ e ∈ a.conditions, Condition e) :
    ∀ f ∈ st.select.functions, Bare f := by
  obtain ⟨⟨f, r⟩, -, h⟩ := exists_of_bind_eq_ok h
  obtain rfl := Except.ok.inj h
  rw [Assembly.foldl_require_eq]
  simp only [Sql.Select.functions, Sql.Select.exprs, List.forall_mem_flatMap,
    List.forall_mem_append, List.forall_mem_map, List.isEmpty_cons, Bool.false_eq_true, if_false,
    List.forall_mem_singleton]
  refine ⟨⟨⟨fun c hc ↦ ?_, fun j hj ↦ bare_of_mem_joins hj⟩, fun e he ↦ ?_⟩, ?_⟩
  · obtain ⟨aliasName, column, hexpr⟩ := exists_expr_of_mem_outputColumns hc
    rw [OutputColumn.item, hexpr]
    exact fun f hf ↦ absurd hf List.not_mem_nil
  · exact (Condition.andAll? ha (Option.mem_toList.mp he)).bare
  · exact (operand_columnExpr b f r).bare

/-- **Parts of statements.** A statement with conditions has all of them, in this order. -/
theorem parts_of_assemble (h : b.assemble a = .ok st) (ha : a.conditions ≠ []) :
    st.sql = (if st.distinct then "SELECT DISTINCT " else "SELECT ")
        ++ st.select.itemsFragment.sql ++ " FROM " ++ st.fromClause ++ " WHERE " ++ st.whereClause
        ++ " ORDER BY " ++ st.orderBy ++ " LIMIT " ++ toString st.limit ∧
      st.args = st.select.itemsFragment.args ++ st.select.fromFragment.args
        ++ st.select.conditionFragment.args ++ st.select.orderFragment.args := by
  have hcondition : st.select.condition.isNone = false := by
    obtain ⟨e, es, hcons⟩ := List.exists_cons_of_ne_nil ha
    rw [condition_of_assemble h, hcons]
    rfl
  have hfragment : st.select.fragment = st.select.head ++ st.select.itemsFragment
      ++ (.text " FROM " ++ st.select.fromFragment)
      ++ (.text " WHERE " ++ st.select.conditionFragment)
      ++ (.text " ORDER BY " ++ st.select.orderFragment)
      ++ .text (" LIMIT " ++ toString st.limit) := by
    rw [Sql.Select.fragment, Sql.Select.conditionPart, hcondition]
    obtain ⟨⟨f, r⟩, -, h⟩ := exists_of_bind_eq_ok h
    obtain rfl := Except.ok.inj h
    rfl
  have hhead : st.select.head.sql = if st.distinct then "SELECT DISTINCT " else "SELECT " :=
    Sql.Fragment.sql_singleton _
  constructor
  · rw [Statement.sql, hfragment]
    simp only [Sql.Fragment.sql_append, hhead, Sql.Fragment.text, Sql.Fragment.sql_singleton,
      Sql.Piece.sql, String.append_assoc]
    rfl
  · rw [Statement.args, hfragment]
    simp only [Sql.Fragment.args_append, Sql.Fragment.args_text, List.append_nil, List.nil_append]
    rfl

end Backend

/-- **Placeholders and values.** Every statement binds its values from left to right, one to each
placeholder of its text, provided that the names of its functions are no place for quotes or
placeholders. Compiled statements call such functions only. Their text is put together from their
parts, and their values are those of the parts in the same order. -/
theorem placeholders_aligned :
    (∀ s : Sql.Select, (∀ f ∈ s.functions, Bare f) →
      Sql.countPlaceholders false s.fragment.sql.toList = s.fragment.args.length ∧
        s.fragment.args = s.values) ∧
    ∀ (b : Backend) (st : Statement),
      ((∃ q, b.compile q = .ok st) ∨ ∃ words, b.compileWords words = .ok st) →
      (∀ f ∈ st.select.functions, Bare f) ∧
      st.sql = (if st.distinct then "SELECT DISTINCT " else "SELECT ")
        ++ st.select.itemsFragment.sql ++ " FROM " ++ st.fromClause ++ " WHERE " ++ st.whereClause
        ++ " ORDER BY " ++ st.orderBy ++ " LIMIT " ++ toString st.limit ∧
      st.args = st.select.itemsFragment.args ++ st.select.fromFragment.args
        ++ st.select.conditionFragment.args ++ st.select.orderFragment.args := by
  refine ⟨fun s hs ↦ ⟨(Sql.Select.aligned hs).count_sql, s.args_fragment⟩, fun b st h ↦ ?_⟩
  obtain ⟨a, hassemble, hne, ha⟩ : ∃ a, b.assemble a = .ok st ∧ a.conditions ≠ [] ∧
      ∀ e ∈ a.conditions, Condition e := by
    rcases h with ⟨q, h⟩ | ⟨words, h⟩
    · obtain ⟨hempty, plans, hplans, h⟩ := Backend.exists_plans_of_compile h
      have hpredicates : q.predicates ≠ [] := by simpa [Query.isEmpty] using hempty
      obtain ⟨e, he⟩ := Assembly.exists_andAll?_conditions (ne_nil_of_mapM hplans hpredicates)
      refine ⟨_, h, ?_, Backend.condition_of_mem_conditions hplans⟩
      intro hnil
      rw [hnil] at he
      cases he
    · rw [Backend.compileWords] at h
      split at h
      · cases h
      refine ⟨_, h, List.cons_ne_nil _ _, List.forall_mem_singleton.mpr ?_⟩
      have hword := Backend.operand_of (Assembly.keyword?_aliasName .facts) "form"
      rw [← Function.comp_def Expr.value, ← List.map_map]
      exact .inList hword Backend.operand_values false
  exact ⟨Backend.bare_of_assemble hassemble ha, Backend.parts_of_assemble hassemble hne⟩

/-- A statement whose names have question marks and quotes in them, with a value in each part. -/
def oddNames : Sql.Select where
  items := [⟨.call "max" [.column (some "t?") "a\"?", .value (.int 1)], some "what?"⟩]
  sources := [⟨⟨some "main?", "\""⟩, some "t?", some "ix [?]"⟩]
  joins := [⟨.left, ⟨none, "u?"⟩, none, .binary (.column none "?\"") .eq (.value (.text "?"))⟩]
  condition := some (.inList (.column none "\"?\"") [.value (.int 2), .value .null] true)
  order := [⟨.call "abs" [.value (.int 3)], some .descending⟩]
  limit := some 5

/-- Five values have five placeholders, since all other question marks stand in quotes. A compiled
statement has the values of its parts. -/
theorem aligned_oddNames :
    (Sql.countPlaceholders false oddNames.fragment.sql.toList = 5 ∧
      oddNames.fragment.args = [.int 1, .text "?", .int 2, .null, .int 3]) ∧
    ∃ st, factsBackend.compile nestedQuery = .ok st ∧
      st.args = st.select.itemsFragment.args ++ st.select.fromFragment.args
        ++ st.select.conditionFragment.args ++ st.select.orderFragment.args := by
  have hbare : ∀ f ∈ oddNames.functions, Bare f := by decide
  obtain ⟨hcount, hargs⟩ := placeholders_aligned.1 oddNames hbare
  have hok : (factsBackend.compile nestedQuery).isOk = true := by decide +kernel
  obtain ⟨st, hcompile⟩ := exists_of_isOk hok
  obtain ⟨-, -, hparts⟩ := placeholders_aligned.2 factsBackend st (.inl ⟨_, hcompile⟩)
  have hvalues : oddNames.values = [.int 1, .text "?", .int 2, .null, .int 3] := rfl
  exact ⟨⟨hcount.trans (congrArg List.length (hargs.trans hvalues)), hargs.trans hvalues⟩, st,
    hcompile, hparts⟩

end CorpusQuery

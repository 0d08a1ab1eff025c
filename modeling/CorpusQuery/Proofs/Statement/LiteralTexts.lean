import CorpusQuery.Catalog.Relational
import CorpusQuery.Proofs.Sql.Connectives
import CorpusQuery.Proofs.Sql.StoredCell
import Mathlib.Data.List.Infix

/-!
# Texts looked for as they are

Predicates on places in a word become patterns, and a text of the user stands in them for itself,
whatever characters it has. The start of a form, its end and what lies between them are therefore
compared with the text character by character.

An end can be looked for in two ways: as the end of the form, or as the start of the reversed form
with a reversed pattern. Both find the same forms, and so do conditions that are put together from
ends, with negations and with alternatives.

## Main statements

* `Sql.Expr.truth_of_orAll?_map`: alternatives that look at one thing.
* `Backend.truth_positionalCondition`: one text at one place.
* `Backend.map_truth_planPositional`: a whole predicate, with or without reversed forms.
* `patterns_match_literally`: patterns on texts, and both ways to look for an end.
-/

namespace CorpusQuery

/-! ## Truths about one thing -/

namespace Truth

variable {α : Type}

theorem not_map (seen : Option α) (f : α → Bool) : not (seen.map f) = seen.map fun a ↦ !f a := by
  cases seen <;> rfl

theorem and_map (seen : Option α) (f g : α → Bool) :
    and (seen.map f) (seen.map g) = seen.map fun a ↦ f a && g a := by
  match seen with
  | none => rfl
  | some a =>
    change and (some (f a)) (some (g a)) = some (f a && g a)
    rcases f a with _ | _ <;> rcases g a with _ | _ <;> rfl

theorem or_map (seen : Option α) (f g : α → Bool) :
    or (seen.map f) (seen.map g) = seen.map fun a ↦ f a || g a := by
  match seen with
  | none => rfl
  | some a =>
    change or (some (f a)) (some (g a)) = some (f a || g a)
    rcases f a with _ | _ <;> rcases g a with _ | _ <;> rfl

end Truth

namespace Sql.Expr

variable {α β : Type} {scope : Scope} {seen : Option α} {f : β → Expr} {g : β → α → Bool}
  {xs : List β} {e : Expr}

theorem truth_foldl_or {g₀ : α → Bool} (he : e.truth scope = seen.map g₀)
    (hxs : ∀ x ∈ xs, (f x).truth scope = seen.map (g x)) :
    ((xs.map f).foldl (.binary · .or ·) e).truth scope
      = seen.map fun a ↦ g₀ a || xs.any (g · a) := by
  induction xs generalizing e g₀ with
  | nil => simpa using he
  | cons x xs ih =>
    have hfirst : (Expr.binary e .or (f x)).truth scope = seen.map fun a ↦ g₀ a || g x a := by
      rw [truth_or, he, hxs x List.mem_cons_self, Truth.or_map]
    rw [List.map_cons, List.foldl_cons, ih hfirst fun y hy ↦ hxs y (List.mem_cons_of_mem x hy)]
    simp only [List.any_cons, Bool.or_assoc]

theorem orAll?_eq_none_iff {es : List Expr} : orAll? es = none ↔ es = [] := by
  match es with
  | [] => exact iff_of_true rfl rfl
  | [e] => simp [orAll?]
  | e :: e' :: es => simp [orAll?]

/-- **Alternatives.** If all parts look at one thing, which may be missing, then so does the whole,
and it finds what some part finds. -/
theorem truth_of_orAll?_map (hxs : ∀ x ∈ xs, (f x).truth scope = seen.map (g x))
    (h : orAll? (xs.map f) = some e) : e.truth scope = seen.map fun a ↦ xs.any (g · a) := by
  match xs with
  | [] => cases h
  | [x] =>
    obtain rfl := Option.some.inj h
    rw [hxs x List.mem_cons_self]
    simp
  | x :: y :: ys =>
    obtain rfl := Option.some.inj h
    have hfirst := hxs x List.mem_cons_self
    rw [truth_group]
    exact truth_foldl_or hfirst fun z hz ↦ hxs z (List.mem_cons_of_mem x hz)

end Sql.Expr

/-! ## Patterns on texts -/

namespace Sql

variable {scope : Scope} {e : Expr} {v : Value}

/-- A text is compared with a pattern, without any table. -/
def Expr.matchesText (s pattern : String) : Expr :=
  .binary (.value (.text s)) .glob (.value (.text pattern))

theorem hasCell_value (scope : Scope) (v : Value) : HasCell scope (.value v) v := ⟨rfl, rfl⟩

theorem HasCell.truth_glob_of_covers (h : HasCell scope e v) (hv : v.TextCell) {pattern : String}
    {P : String → Prop} [DecidablePred P]
    (hcovers : ∀ s : String, (Pattern.ofGlob pattern.toList).covers s.toList = true ↔ P s) :
    (Expr.binary e .glob (.value (.text pattern))).truth scope
      = v.text?.map fun s ↦ decide (P s) := by
  rw [h.truth_glob hv]
  refine Option.map_congr fun s _ ↦ ?_
  rw [Bool.eq_iff_iff, hcovers, decide_eq_true_iff]

theorem HasCell.glob_startingWith (h : HasCell scope e v) (hv : v.TextCell) (part : String) :
    (Expr.binary e .glob (.value (.text (Glob.startingWith part)))).truth scope
      = v.text?.map fun s ↦ decide (part.toList <+: s.toList) :=
  h.truth_glob_of_covers hv fun s ↦ by
    rw [Pattern.covers_startingWith, List.isPrefixOf_iff_prefix]

theorem HasCell.glob_endingWith (h : HasCell scope e v) (hv : v.TextCell) (part : String) :
    (Expr.binary e .glob (.value (.text (Glob.endingWith part)))).truth scope
      = v.text?.map fun s ↦ decide (part.toList <:+ s.toList) :=
  h.truth_glob_of_covers hv fun s ↦ by
    rw [Pattern.covers_endingWith, List.isSuffixOf_iff_suffix]

theorem HasCell.glob_containing (h : HasCell scope e v) (hv : v.TextCell) (part : String) :
    (Expr.binary e .glob (.value (.text (Glob.containing part)))).truth scope
      = v.text?.map fun s ↦ decide (part.toList <:+: s.toList) :=
  h.truth_glob_of_covers hv fun s ↦ by rw [Pattern.covers_containing, Text.isInfix_iff]

theorem HasCell.glob_reversed (h : HasCell scope e v.reversed) (hv : v.TextCell) (part : String) :
    (Expr.binary e .glob (.value (.text (Glob.startingWith (Glob.reversed part))))).truth scope
      = v.text?.map fun s ↦ decide (part.toList <:+ s.toList) := by
  have hreversed : v.reversed.text? = v.text?.map Glob.reversed := by
    match v with
    | .text s => rfl
    | .null | .int _ | .real _ => rfl
  have hends (s : String) : (Glob.reversed part).toList <+: (Glob.reversed s).toList
      ↔ part.toList <:+ s.toList := by
    rw [Glob.reversed, Glob.reversed, String.toList_ofList, String.toList_ofList,
      List.reverse_prefix]
  rw [h.glob_startingWith hv.reversed, hreversed, Option.map_map]
  refine Option.map_congr fun s _ ↦ ?_
  rw [Function.comp_apply, decide_eq_decide, hends]

end Sql

/-! ## Patterns on forms -/

/-- Whether a form has a text at the place that an operator asks about. -/
def Operator.findsAt (op : Operator) (part form : String) : Bool :=
  match op with
  | .startsWith => decide (part.toList <+: form.toList)
  | .endsWith => decide (part.toList <:+ form.toList)
  | _ => decide (part.toList <:+: form.toList) && !decide (part.toList <+: form.toList)
      && !decide (part.toList <:+ form.toList)

namespace Backend

variable {b : Backend} {scope : Sql.Scope} {v : Value}

/-- The facts table shows a form, and its reversal too if it has reversed forms. -/
structure ShowsForm (b : Backend) (scope : Sql.Scope) (v : Value) : Prop where
  text : v.TextCell
  form : Sql.HasCell scope (.of Relation.facts.aliasName "form") v
  reversed : b.hasReversed = true →
    Sql.HasCell scope (.of Relation.facts.aliasName "revform") v.reversed

theorem ShowsForm.truth_endsCondition (h : b.ShowsForm scope v) (part : String) :
    (b.endsCondition part).truth scope
      = v.text?.map fun s ↦ decide (part.toList <:+ s.toList) := by
  rw [endsCondition]
  split
  · next hreversed => exact (h.reversed hreversed).glob_reversed h.text part
  · exact h.form.glob_endingWith h.text part

/-- **One text at one place.** -/
theorem truth_positionalCondition (h : b.ShowsForm scope v) (op : Operator) (part : String) :
    (b.positionalCondition op part).truth scope = v.text?.map (op.findsAt part) := by
  have hstart : (startsCondition part).truth scope
      = v.text?.map fun s ↦ decide (part.toList <+: s.toList) :=
    h.form.glob_startingWith h.text part
  have hend := h.truth_endsCondition part
  have hmiddle : (b.middleCondition part).truth scope = v.text?.map fun s ↦
      decide (part.toList <:+: s.toList) && !decide (part.toList <+: s.toList)
        && !decide (part.toList <:+ s.toList) := by
    rw [middleCondition, Sql.Expr.truth_and, Sql.Expr.truth_and, Sql.Expr.truth_negate,
      Sql.Expr.truth_negate, hstart, hend, Truth.not_map, Truth.not_map, matchesGlob,
      h.form.glob_containing h.text, Truth.and_map, Truth.and_map]
  match op with
  | .startsWith => exact hstart
  | .endsWith => exact hend
  | .middle | .equal | .less | .greater | .atMost | .atLeast | .like | .isIn => exact hmiddle

/-- **A whole predicate.** What its condition finds does not depend on whether the facts table has
reversed forms. -/
theorem map_truth_planPositional (h : b.ShowsForm scope v) (p : Predicate) :
    (b.planPositional p).map (fun plan ↦ (plan.condition "").truth scope)
      = if p.operand.asTexts = [] then .error (.missingValue p.field)
        else .ok (v.text?.map fun s ↦
          p.operand.asTexts.any (p.operator.findsAt · s) != p.negated) := by
  have hnone : Sql.Expr.orAll? (p.operand.asTexts.map (b.positionalCondition p.operator)) = none ↔
      p.operand.asTexts = [] := Sql.Expr.orAll?_eq_none_iff.trans List.map_eq_nil_iff
  rw [planPositional]
  split
  · next he =>
    rw [if_pos (hnone.mp he)]
    rfl
  · next e he =>
    have hne : p.operand.asTexts ≠ [] := by
      intro hempty
      cases (hnone.mpr hempty).symm.trans he
    have hfound : e.truth scope = v.text?.map fun s ↦
        p.operand.asTexts.any (p.operator.findsAt · s) :=
      Sql.Expr.truth_of_orAll?_map (fun part _ ↦ truth_positionalCondition h p.operator part) he
    rw [if_neg hne]
    refine congrArg Except.ok ?_
    change Sql.Expr.truth scope (if p.negated then e.negate else e) = _
    rcases p.negated with _ | _
    · rw [if_neg Bool.false_ne_true, hfound]
      simp only [Bool.bne_false]
    · rw [if_pos rfl, Sql.Expr.truth_negate, hfound, Truth.not_map]
      simp only [Bool.bne_true]

end Backend

/-- **Texts are looked for as they are.** Whatever characters two texts have, the first one matches
the pattern made from the second one exactly if it starts with it, ends with it or contains it, and
the first one reversed matches the pattern for a start made from the second one reversed exactly if
the first one ends with the second one. With reversed forms and without them, a predicate on ends
therefore has the same outcome for a form: it fails without a text, it is unknown for a missing
form, and else it is true if the form ends with one of the texts, or with none of them if it is
negated. -/
theorem patterns_match_literally :
    (∀ (s t : String) (scope : Sql.Scope),
      (Sql.Expr.matchesText s (Glob.startingWith t)).truth scope
          = some (decide (t.toList <+: s.toList)) ∧
        (Sql.Expr.matchesText s (Glob.endingWith t)).truth scope
          = some (decide (t.toList <:+ s.toList)) ∧
        (Sql.Expr.matchesText s (Glob.containing t)).truth scope
          = some (decide (t.toList <:+: s.toList)) ∧
        (Sql.Expr.matchesText (Glob.reversed s) (Glob.startingWith (Glob.reversed t))).truth scope
          = some (decide (t.toList <:+ s.toList))) ∧
    ∀ (b b' : Backend) (p : Predicate) (scope scope' : Sql.Scope) (v : Value),
      p.operator = .endsWith → b.ShowsForm scope v → b'.ShowsForm scope' v →
      (b.planPositional p).map (fun plan ↦ (plan.condition "").truth scope)
          = (b'.planPositional p).map (fun plan ↦ (plan.condition "").truth scope') ∧
        (b.planPositional p).map (fun plan ↦ (plan.condition "").truth scope)
          = if p.operand.asTexts = [] then .error (.missingValue p.field)
            else .ok (v.text?.map fun s ↦
              decide (∃ t ∈ p.operand.asTexts, t.toList <:+ s.toList) != p.negated) := by
  constructor
  · intro s t scope
    have hcell := Sql.hasCell_value scope (.text s)
    have hreversed := Sql.hasCell_value scope (Value.text s).reversed
    exact ⟨hcell.glob_startingWith (.text s) t, hcell.glob_endingWith (.text s) t,
      hcell.glob_containing (.text s) t, hreversed.glob_reversed (.text s) t⟩
  · intro b b' p scope scope' v hop h h'
    rw [Backend.map_truth_planPositional h p, Backend.map_truth_planPositional h' p, hop]
    refine ⟨rfl, ?_⟩
    have hends (s : String) : p.operand.asTexts.any (Operator.endsWith.findsAt · s)
        = decide (∃ t ∈ p.operand.asTexts, t.toList <:+ s.toList) := by
      rw [Bool.eq_iff_iff, List.any_eq_true, decide_eq_true_iff]
      simp only [Operator.findsAt, decide_eq_true_iff]
    simp only [hends]

/-- Statements over a facts table with reversed forms, or without them. -/
def formsBackend (columns : List String) : Backend where
  catalog := .relational { tables := [("wordfreqs", columns)] }
  schema := { tables := [("wordfreqs", columns)] }
  settings := {}

/-- A row whose form has the characters that patterns and their classes are written with. -/
def hostileScope : Sql.Scope := fun c ↦
  ([("form", ⟨.text, .text "a*[^?]-]"⟩), ("revform", ⟨.text, .text "]-]?^[*a"⟩)] :
    List (String × Sql.Bound)).lookup c.name

/-- Two ends made of such characters, one of which the form has. -/
theorem patterns_match_literally_hostile :
    ((formsBackend ["form", "revform"]).planPositional
          ⟨"end", .endsWith, .texts ["*", "[^?]-]"], false⟩).map
        (fun plan ↦ (plan.condition "").truth hostileScope) = .ok (some true) ∧
      ((formsBackend ["form"]).planPositional
          ⟨"end", .endsWith, .texts ["*", "[^?]-]"], false⟩).map
        (fun plan ↦ (plan.condition "").truth hostileScope) = .ok (some true) := by
  have hform : Sql.HasCell hostileScope (.of Relation.facts.aliasName "form")
      (.text "a*[^?]-]") := ⟨rfl, rfl⟩
  have hrevform : Sql.HasCell hostileScope (.of Relation.facts.aliasName "revform")
      (Value.text "a*[^?]-]").reversed := ⟨by decide, by decide⟩
  obtain ⟨hsame, hends⟩ := patterns_match_literally.2 (formsBackend ["form", "revform"])
    (formsBackend ["form"]) ⟨"end", .endsWith, .texts ["*", "[^?]-]"], false⟩ hostileScope
    hostileScope (.text "a*[^?]-]") rfl ⟨.text _, hform, fun _ ↦ hrevform⟩
    ⟨.text _, hform, fun h ↦ absurd h (by decide)⟩
  rw [if_neg (by decide)] at hends
  have hfound : ((Value.text "a*[^?]-]").text?.map fun s ↦
      decide (∃ t ∈ Operand.asTexts (.texts ["*", "[^?]-]"]), t.toList <:+ s.toList) != false)
      = some true := by decide
  rw [hfound] at hends
  exact ⟨hends, hsame.symm.trans hends⟩

end CorpusQuery

import CorpusQuery.Proofs.Catalog.Twins
import CorpusQuery.Proofs.Query.Compiling
import CorpusQuery.Proofs.RowExpr.Connectives
import CorpusQuery.Proofs.Sql.Connectives
import CorpusQuery.Proofs.Sql.StoredCell
import CorpusQuery.Proofs.Statement.Plans

/-!
# Conditions and row expressions agree

A predicate has two translations, a condition of a statement and an expression over the rows of a
flat table, and on a column of the facts table that the flat table shares they have the same
three-valued truth. The two are built differently: a place in a word is a `GLOB` pattern there and a
test on texts here, an end may be looked for on the reversed form, and a negation flips the operator
there and always stands in front here.

The comparison is made piece by piece. A condition and an expression agree on a row if the
expression has a truth and the condition has the same one, and whatever one of the translations
does with its pieces keeps agreement with what the other one does. At the leaves stand cells, and
these are compared once for each kind of column.

Patterns of `LIKE` are left out. They are case-insensitive in ways of their own.
-/

namespace CorpusQuery

/-! ## The predicates in question -/

/-- The predicates other than patterns on a field of a kind. -/
inductive Predicate.Compares : FieldKind → Predicate → Prop
  | equal (field s : String) (negated : Bool) :
    Compares .text ⟨field, .equal, .text s, negated⟩
  | isIn (field s : String) (ss : List String) (negated : Bool) :
    Compares .text ⟨field, .isIn, .texts (s :: ss), negated⟩
  | number {op : Operator} (h : op = .equal ∨ op.isRange = true) (field : String) (v : Value)
    (negated : Bool) : Compares .numeric ⟨field, op, .number v, negated⟩

theorem Predicate.Compares.not_positional {k : FieldKind} {p : Predicate} (h : p.Compares k) :
    p.operator.isPositional = false := by
  cases h with
  | equal | isIn => rfl
  | @number op hop =>
    cases op with
    | startsWith | middle | endsWith => rcases hop with hop | hop <;> cases hop
    | equal | less | greater | atMost | atLeast | like | isIn => rfl

namespace Catalog

theorem isPositional_operator (op : Comparator) : op.operator.isPositional = false := by
  cases op <;> rfl

theorem compares_text {name : String} {op : Comparator} {o : Operand}
    (hallowed : FieldKind.text.comparators.contains op = true) (hlike : op.operator ≠ .like)
    (ho : o.Textual op) : Predicate.Compares .text ⟨name, op.operator, o, op.negates⟩ := by
  cases ho with
  | one hset s =>
    cases op with
    | equal => exact .equal name s false
    | notEqual => exact .equal name s true
    | less | greater | atMost | atLeast => cases hallowed
    | like | notLike => exact absurd rfl hlike
    | isIn | notIn => cases hset
  | many hset s ss =>
    cases op with
    | isIn => exact .isIn name s ss false
    | notIn => exact .isIn name s ss true
    | equal | notEqual | less | greater | atMost | atLeast | like | notLike => cases hset

theorem compares_number {name : String} {op : Comparator}
    (hallowed : FieldKind.numeric.comparators.contains op = true) (v : Value) :
    Predicate.Compares .numeric ⟨name, op.operator, .number v, op.negates⟩ := by
  cases op with
  | equal | notEqual => exact .number (.inl rfl) name v _
  | less | greater | atMost | atLeast => exact .number (.inr rfl) name v _
  | like | notLike | isIn | notIn => cases hallowed

theorem Admits.position_of_isPositional {c : Catalog} {p : Predicate} (h : c.Admits p)
    (hop : p.operator.isPositional = true) :
    p.field = "form" ∧ ∃ place : Position, p.operator = place.operator := by
  cases h with
  | compound negated h => cases hop
  | @position f place op o hf hkind hallowed ho => exact ⟨rfl, place, rfl⟩
  | number | relative | text | plainLemma => cases (isPositional_operator _).symm.trans hop

/-- What a catalog admits on a field whose name tells its kind. -/
theorem Admits.compares {c : Catalog} {p : Predicate} {f : Field} (h : c.Admits p)
    (hrel : ∀ g ∈ c.fields, ∀ r, g.relative = some r → r.field ∉ textNames)
    (hf : c.get? p.field = some f)
    (hkind : f.kind = .text ∧ p.field ∈ textNames ∨ f.kind = .numeric ∧ p.field ∈ countNames)
    (hlike : p.operator ≠ .like) (hplace : p.operator.isPositional = false) :
    p.Compares f.kind := by
  cases h with
  | compound negated h => exact absurd rfl hlike
  | number x hg hnum hrelative hop =>
    obtain rfl := Option.some.inj (hf.symm.trans hg)
    rw [hnum]
    exact compares_number (by rwa [Field.allows, hnum] at hop) _
  | relative x hg hnum hrelative hop =>
    have hnumeric : f.kind = .numeric := by
      rcases hkind with ⟨-, htext⟩ | ⟨hnumeric, -⟩
      · exact absurd htext (hrel _ (mem_of_get? hg) _ hrelative)
      · exact hnumeric
    rw [hnumeric]
    exact compares_number (by rwa [Field.allows, hnum] at hop) _
  | @position g place op o hg hgkind hop ho => cases place <;> cases hplace
  | @text g op o hg hgkind hop ho =>
    obtain rfl := Option.some.inj (hf.symm.trans hg)
    rcases hkind with ⟨htext, -⟩ | ⟨hnumeric, -⟩
    · rw [htext]
      exact compares_text (by rwa [Field.allows, htext] at hop) hlike ho
    · rw [hnumeric] at hgkind
      rcases hgkind with hgkind | hgkind <;> cases hgkind
  | plainLemma h hop hallowed ho =>
    have htext : f.kind = .text := by
      rcases hkind with ⟨htext, -⟩ | ⟨-, hcount⟩
      · exact htext
      · exact absurd hcount (by decide : "lemmac" ∉ countNames)
    rw [htext]
    exact compares_text hallowed hop ho

end Catalog

/-! ## Agreement -/

/-- On a row, as the flat table and as the facts table show it, an expression has the truth of a
condition. -/
def Agrees (row : Row) (scope : Sql.Scope) (e : RowExpr) (c : Sql.Expr) : Prop :=
  e.truth row = .ok (c.truth scope)

namespace Agrees

variable {row : Row} {scope : Sql.Scope} {e e' : RowExpr} {c c' : Sql.Expr}

theorem and (h : Agrees row scope e c) (h' : Agrees row scope e' c') :
    Agrees row scope (.and e e') (.binary c .and c') := by
  rw [Agrees, RowExpr.truth_and h h', Sql.Expr.truth_and]

theorem or (h : Agrees row scope e c) (h' : Agrees row scope e' c') :
    Agrees row scope (.or e e') (.binary c .or c') := by
  rw [Agrees, RowExpr.truth_or h h', Sql.Expr.truth_or]

theorem negate (h : Agrees row scope e c) : Agrees row scope (.not e) c.negate := by
  rw [Agrees, RowExpr.truth_not h, Sql.Expr.truth_negate]

theorem negated (h : Agrees row scope e c) (negated : Bool) :
    Agrees row scope (if negated then .not e else e) (if negated then c.negate else c) := by
  cases negated with
  | false => exact h
  | true => exact h.negate

theorem foldl {α : Type} {f : α → RowExpr} {g : α → Sql.Expr} {xs : List α}
    (h : Agrees row scope e c) (hxs : ∀ x ∈ xs, Agrees row scope (f x) (g x)) :
    Agrees row scope ((xs.map f).foldl .or e) ((xs.map g).foldl (.binary · .or ·) c) := by
  induction xs generalizing e c with
  | nil => exact h
  | cons x xs ih =>
    exact ih (h.or (hxs x List.mem_cons_self)) fun y hy ↦ hxs y (List.mem_cons_of_mem x hy)

/-- **Alternatives.** Several alternatives stand in a group there and in none here. -/
theorem any {α : Type} {f : α → RowExpr} {g : α → Sql.Expr} {xs : List α}
    (hxs : ∀ x ∈ xs, Agrees row scope (f x) (g x)) (he : RowExpr.any? (xs.map f) = some e)
    (hc : Sql.Expr.orAll? (xs.map g) = some c) : Agrees row scope e c := by
  cases xs with
  | nil => cases he
  | cons x xs =>
    obtain rfl := Option.some.inj he
    have hall := foldl (hxs x List.mem_cons_self) fun y hy ↦ hxs y (List.mem_cons_of_mem x hy)
    cases xs with
    | nil =>
      obtain rfl := Option.some.inj hc
      exact hall
    | cons y ys =>
      obtain rfl := Option.some.inj hc
      rw [Agrees, Sql.Expr.truth_group]
      exact hall

end Agrees

/-! ## One row in two tables -/

/-- The facts table shows the value of a cell in a column, stored as it is. -/
def FactsShow (scope : Sql.Scope) (column : String) (v : Value) : Prop :=
  ∃ a, scope ⟨some Relation.facts.aliasName, column⟩ = some ⟨a, .ofValue v⟩ ∧
    (Sql.Datum.ofValue v).stored a = .ofValue v

theorem FactsShow.hasCell {scope : Sql.Scope} {column : String} {v : Value}
    (h : FactsShow scope column v) :
    Sql.HasCell scope (.of Relation.facts.aliasName column) v := by
  obtain ⟨a, hscope, hstored⟩ := h
  constructor
  · rw [Sql.Expr.of, Sql.Expr.eval, hscope]
    rfl
  · rw [Sql.Expr.of, Sql.Expr.affinity?, hscope]
    exact hstored

/-- A row of a flat table and a row of the facts table hold the same word form. Texts may be
missing and so may counts, and reversed forms are kept in step with the forms. -/
structure SameRow (b : Backend) (columns : List String) (row : Row) (scope : Sql.Scope) :
    Prop where
  cell : ∀ name ∈ columns, b.schema.hasColumn Relation.facts.table name = true →
    ∃ v, row name = some v ∧ FactsShow scope name v
  text : ∀ name ∈ "lemma" :: Catalog.textNames, ∀ v, row name = some v → v.TextCell
  count : ∀ name ∈ Catalog.countNames, ∀ v, row name = some v → v.CountCell
  reversed : b.hasReversed = true → ∀ v, row "form" = some v → FactsShow scope "revform" v.reversed

variable {b : Backend} {columns : List String} {row : Row} {scope : Sql.Scope}

theorem Backend.columnExpr_of_posx (hposx : b.posx = false) (f : Field) :
    b.columnExpr f .facts = match f.strip with
      | some c => .call "replace" [.of Relation.facts.aliasName f.column,
          .value (.text c.toString), .value (.text "")]
      | none => .of Relation.facts.aliasName f.column := by
  change (match f.strip with
    | some c => Sql.Expr.call "replace"
        [.of Relation.facts.aliasName (b.physicalColumn .facts f.column),
          .value (.text c.toString), .value (.text "")]
    | none => Sql.Expr.of Relation.facts.aliasName (b.physicalColumn .facts f.column)) = _
  rw [physicalColumn_of_posx hposx]

/-- **Cells of twins.** The target of a filter has the cell that the column of a statement has. -/
theorem SameRow.exists_cell {f g : Field} (hsame : SameRow b columns row scope)
    (ht : Catalog.Twins f g) (hposx : b.posx = false)
    (hfacts : b.schema.hasColumn Relation.facts.table f.column = true)
    (hflat : f.column ∈ columns) :
    ∃ v, (RowFilter.target g).eval row = .ok v ∧ Sql.HasCell scope (b.columnExpr f .facts) v ∧
      (f.kind = .text → v.TextCell) ∧ (f.kind = .numeric → v.CountCell) := by
  obtain ⟨v, hrow, hshow⟩ := hsame.cell _ hflat hfacts
  have hcolumn := RowExpr.eval_column hrow
  rw [Backend.columnExpr_of_posx hposx]
  cases ht with
  | text hname =>
    refine ⟨v, hcolumn, hshow.hasCell, fun _ ↦ ?_, fun hkind ↦ by cases hkind⟩
    exact hsame.text _ (List.mem_cons_of_mem _ hname) v hrow
  | stripped =>
    have hv : v.TextCell := hsame.text "lemma" List.mem_cons_self v hrow
    refine ⟨v.without Catalog.compoundMarker, RowExpr.eval_strip hcolumn _,
      hshow.hasCell.replace hv _, fun _ ↦ hv.without _, fun hkind ↦ by cases hkind⟩
  | count hname =>
    refine ⟨v, hcolumn, hshow.hasCell, fun hkind ↦ (by cases hkind), fun _ ↦ ?_⟩
    exact hsame.count _ hname v hrow

/-! ## Columns -/

/-- **Texts.** Asking for texts in a column agrees with asking for them in a column of a flat table,
on every row where both columns hold the same text. -/
theorem exists_agreeing_of_text {f g : Field} {r : Relation} {p : Predicate}
    (hp : p.Compares .text) (hkind : g.kind ≠ .feature .anyOf) :
    ∃ c e, b.columnCondition p f r = .ok c ∧ RowFilter.positiveExpr g p = .ok e ∧
      ∀ row scope v, (RowFilter.target g).eval row = .ok v →
        Sql.HasCell scope (b.columnExpr f r) v → v.TextCell → Agrees row scope e c := by
  cases hp with
  | equal field s negated =>
    refine ⟨.binary (b.columnExpr f r) .eq (.value (.text s)),
      .compare (RowFilter.target g) .equal (.literal (.text s)), rfl, ?_, ?_⟩
    · exact if_neg hkind
    · intro row scope v heval hcell htext
      rw [Agrees, RowExpr.truth_compare heval _ rfl, hcell.truth_equal htext]
  | isIn field s ss negated =>
    refine ⟨.inList (b.columnExpr f r) (((s :: ss).map Value.text).map .value) false,
      .isIn (RowFilter.target g) ((s :: ss).map .text), rfl, ?_, ?_⟩
    · exact if_neg hkind
    · intro row scope v heval hcell htext
      rw [Agrees, RowExpr.truth_isIn heval, hcell.truth_isIn htext]

section

variable {op : Operator} {o : Sql.BinaryOp} {compare : Comparison}
  (hop : Sql.ComparedAlike op o compare) (field : String) (v : Value) (negated : Bool)

include hop

theorem Backend.columnCondition_of_number (b : Backend) (f : Field) (r : Relation) :
    b.columnCondition ⟨field, op, .number v, negated⟩ f r
      = .ok (.binary (b.columnExpr f r) o (.value v)) := by
  obtain ⟨ho, -⟩ := hop
  cases op with
  | equal | less | greater | atMost | atLeast | like =>
    obtain rfl := Option.some.inj ho
    rfl
  | isIn | startsWith | middle | endsWith => cases ho

theorem RowFilter.positiveExpr_of_number {g : Field} (hkind : g.kind ≠ .feature .anyOf) :
    positiveExpr g ⟨field, op, .number v, negated⟩
      = .ok (.compare (target g) compare (.literal v)) := by
  obtain ⟨-, hc⟩ := hop
  cases op with
  | equal =>
    obtain rfl := Option.some.inj hc
    exact if_neg hkind
  | less | greater | atMost | atLeast =>
    obtain rfl := Option.some.inj hc
    rfl
  | like | isIn | startsWith | middle | endsWith => cases hc

end

/-- **One column.** A comparison with a column agrees with the test on its twin, whatever row they
are asked about. -/
theorem exists_agreeing_of_compares {f g : Field} {p : Predicate} (hp : p.Compares f.kind)
    (ht : Catalog.Twins f g) (hint : ∀ v, p.operand = .number v → ∃ n, v = .int n) :
    ∃ c e, b.columnCondition p f .facts = .ok c ∧ RowFilter.positiveExpr g p = .ok e ∧
      ∀ row scope v, (RowFilter.target g).eval row = .ok v →
        Sql.HasCell scope (b.columnExpr f .facts) v → (f.kind = .text → v.TextCell) →
        (f.kind = .numeric → v.CountCell) → Agrees row scope e c := by
  -- Equality would ask for one of several values on a feature, and twins are no features.
  have hkind : g.kind ≠ .feature .anyOf := by
    rw [ht.kind_eq]
    rcases ht.kind_cases with ⟨hf, -⟩ | ⟨hf, -⟩ <;> rw [hf] <;> decide
  rcases ht.kind_cases with ⟨hf, -⟩ | ⟨hf, -⟩
  · rw [hf] at hp
    obtain ⟨c, e, hc, he, hagree⟩ := exists_agreeing_of_text hp hkind
    refine ⟨c, e, hc, he, fun row scope v heval hcell htext _ ↦ ?_⟩
    exact hagree row scope v heval hcell (htext hf)
  · rw [hf] at hp
    cases hp with
    | @number op hop field v negated =>
      obtain ⟨n, rfl⟩ := hint v rfl
      obtain ⟨o, compare, hop⟩ := Sql.exists_comparedAlike hop
      refine ⟨_, _, b.columnCondition_of_number hop field _ negated f .facts,
        RowFilter.positiveExpr_of_number hop field _ negated hkind, ?_⟩
      intro row scope v heval hcell _ hcount
      rw [Agrees, RowExpr.truth_compare heval _ rfl, hcell.truth_compare (hcount hf) hop]

/-! ## Places in a word -/

/-- The test for one text of a positional predicate. -/
def positionTest (target : RowExpr) : Position → String → RowExpr
  | .front => fun s ↦ .test target .startsWith s
  | .middle => RowFilter.inMiddle target
  | .back => fun s ↦ .test target .endsWith s

theorem RowFilter.positiveExpr_of_position {p : Predicate} {place : Position}
    (h : p.operator = place.operator) (f : Field) :
    positiveExpr f p = anyText p (positionTest (target f) place) := by
  rw [positiveExpr.eq_def, h]
  cases place <;> rfl

/-- **One place.** The patterns on a form and on its reversal agree with the tests on the form. -/
theorem agrees_position {v : Value} (hrow : row "form" = some v) (hv : v.TextCell)
    (hform : Sql.HasCell scope (.of Relation.facts.aliasName "form") v)
    (hrev : b.hasReversed = true →
      Sql.HasCell scope (.of Relation.facts.aliasName "revform") v.reversed)
    (place : Position) (s : String) :
    Agrees row scope (positionTest (.column "form") place s)
      (b.positionalCondition place.operator s) := by
  have heval := RowExpr.eval_column hrow
  have hstarts : Agrees row scope (.test (.column "form") .startsWith s)
      (Backend.startsCondition s) := by
    rw [Agrees, RowExpr.truth_test heval, ← hform.truth_startingWith hv]
    rfl
  have hcontains : Agrees row scope (.test (.column "form") .contains s)
      (Backend.matchesGlob "form" (Glob.containing s)) := by
    rw [Agrees, RowExpr.truth_test heval, ← hform.truth_containing hv]
    rfl
  have hends : Agrees row scope (.test (.column "form") .endsWith s) (b.endsCondition s) := by
    rw [Agrees, RowExpr.truth_test heval, Backend.endsCondition]
    -- An end of the form is looked for as a start of its reversal where that is stored.
    by_cases h : b.hasReversed = true
    · rw [if_pos h, ← (hrev h).truth_startingWith_reversed hv]
      rfl
    · rw [if_neg h, ← hform.truth_endingWith hv]
      rfl
  cases place with
  | front => exact hstarts
  | middle => exact (hcontains.and hstarts.negate).and hends.negate
  | back => exact hends

/-! ## Whole predicates -/

/-- A column of the facts table and of a flat table is the one that a predicate is about. The plain
lemma has to live in the same column on both sides. -/
inductive SharedColumn (b : Backend) (columns : List String) (p : Predicate) : Prop
  | place (hop : p.operator.isPositional = true)
    (hfacts : b.schema.hasColumn Relation.facts.table "form" = true) (hflat : "form" ∈ columns)
  | field {f : Field} (hf : b.catalog.get? p.field = some f) (hr : f.relation = some .facts)
    (hfacts : b.schema.hasColumn Relation.facts.table f.column = true)
    (hflat : f.column ∈ columns) (hplain : "lemmac" ∈ columns → f.strip = none)

/-- The field `form` lives in the column `form` on both sides, so a predicate on it shares this
column however it asks. -/
theorem SharedColumn.form_mem {p : Predicate} (h : SharedColumn b columns p)
    (hcatalog : b.catalog = .relational b.schema) (hname : p.field = "form") :
    b.schema.hasColumn Relation.facts.table "form" = true ∧ "form" ∈ columns := by
  cases h with
  | place _ hfacts hflat => exact ⟨hfacts, hflat⟩
  | @field f hf hr hfacts hflat hplain =>
    rw [hcatalog, hname] at hf
    obtain ⟨g, -, ht⟩ := Catalog.exists_twin (by decide) hf hr hflat hplain
    have hf' : f.name = "form" := Catalog.name_of_get? hf
    have hcolumn : f.column = "form" := by
      cases ht with
      | text h => exact hf'
      | stripped => exact absurd hf' (by decide)
      | count h => exact hf'
    rw [hcolumn] at hfacts hflat
    exact ⟨hfacts, hflat⟩

/-- The translations of a predicate, and their agreement on every row that both tables hold. -/
def TranslationsAgree (b : Backend) (columns : List String) (p : Predicate) : Prop :=
  ∃ c touched unanchored step, b.plan p = .ok (.shared c .facts touched unanchored) ∧
    RowFilter.compileStep (.columnar columns) p = .ok step ∧
    ∀ row scope, SameRow b columns row scope → step.expr.truth row = .ok (c.truth scope)

theorem translationsAgree_of_position {p : Predicate} {place : Position}
    (hcatalog : b.catalog = .relational b.schema) (hfield : p.field = "form")
    (hop : p.operator = place.operator) (htexts : p.operand.asTexts ≠ [])
    (hfacts : b.schema.hasColumn Relation.facts.table "form" = true) (hflat : "form" ∈ columns) :
    TranslationsAgree b columns p := by
  have hbacked := Backend.backed_of_catalog_eq hcatalog (Schema.hasTable_of_hasColumn hfacts)
  obtain ⟨f, hf⟩ : ∃ f, b.catalog.get? p.field = some f := by
    rw [hfield, hcatalog]
    exact Catalog.exists_get?_of_contains (Catalog.contains_relational_core _ (by simp))
  obtain ⟨r, hr, htable⟩ := hbacked f (Catalog.mem_of_get? hf)
  have hg : (Catalog.columnar columns).get? p.field = some (Catalog.flatField .text "form") := by
    rw [hfield]
    exact Catalog.get?_columnar_text (by simp) hflat
  obtain ⟨c, hc⟩ : ∃ c, Sql.Expr.orAll? (p.operand.asTexts.map
      (b.positionalCondition p.operator)) = some c := Backend.exists_orAll?_eq_some htexts
  obtain ⟨e, he⟩ : ∃ e, RowExpr.any? (p.operand.asTexts.map
      (positionTest (.column "form") place)) = some e := RowFilter.exists_any?_eq_some htexts
  have hpositional : p.operator.isPositional = true := by
    rw [hop]
    cases place <;> rfl
  have hplan : b.plan p = .ok (.shared (if p.negated then c.negate else c) .facts
      (b.positionalTouch p) (p.operator == .middle)) := by
    rw [Backend.plan_of_get? hf hr htable, if_pos hpositional, Backend.planPositional, hc]
  have hstep := RowFilter.compileStep_of_get? hg
    ((RowFilter.positiveExpr_of_position hop _).trans (RowFilter.anyText_eq_ok_iff.mpr he))
  refine ⟨_, _, _, _, hplan, hstep, ?_⟩
  intro row scope hsame
  obtain ⟨v, hrow, hshow⟩ := hsame.cell "form" hflat hfacts
  have hv : v.TextCell := hsame.text "form" (by decide) v hrow
  have hany : Agrees row scope e c := by
    refine Agrees.any (fun s _ ↦ ?_) he hc
    rw [hop]
    exact agrees_position hrow hv hshow.hasCell
      (fun h ↦ (hsame.reversed h v hrow).hasCell) place s
  exact hany.negated p.negated

theorem translationsAgree_of_compares {p : Predicate} {f g : Field}
    (hposx : b.posx = false) (hf : b.catalog.get? p.field = some f)
    (hr : f.relation = some .facts) (hg : (Catalog.columnar columns).get? p.field = some g)
    (ht : Catalog.Twins f g) (hp : p.Compares f.kind)
    (hint : ∀ v, p.operand = .number v → ∃ n, v = .int n)
    (hfacts : b.schema.hasColumn Relation.facts.table f.column = true)
    (hflat : f.column ∈ columns) : TranslationsAgree b columns p := by
  obtain ⟨c, e, hc, he, hagree⟩ := exists_agreeing_of_compares (b := b) hp ht hint
  have hplace := hp.not_positional
  have hsatellite : Backend.satelliteFor? p f = none := by
    have hnone : f.satellite = none := by cases ht <;> rfl
    rw [Backend.satelliteFor?, hnone, ite_self]
  have hplan : b.plan p = .ok (.shared (if p.negated then c.negate else c) .facts
      (if Backend.touchesColumn p f .facts then some f.column else none)
      p.isUnanchoredLike) := by
    rw [Backend.plan_of_get? hf hr (Schema.hasTable_of_hasColumn hfacts), hplace,
      if_neg Bool.false_ne_true, hsatellite]
    dsimp only
    rw [Backend.planColumn, hc]
    rfl
  refine ⟨_, _, _, _, hplan, RowFilter.compileStep_of_get? hg he, ?_⟩
  intro row scope hsame
  obtain ⟨v, heval, hcell, htext, hcount⟩ := hsame.exists_cell ht hposx hfacts hflat
  exact (hagree row scope v heval hcell htext hcount).negated p.negated

/-- **Agreement.** Take any predicate other than a `LIKE` pattern that a query was read as, over a
relational corpus or over a flat table, on a field that the facts table backs there and a column of
the same name backs here, with whole numbers for counts. Its condition and its expression have the
same truth on every row. -/
theorem translations_agree {totals : Totals} {input : String} {q : Query} {p : Predicate}
    (hcatalog : b.catalog = .relational b.schema) (hposx : b.posx = false)
    (hread : Query.read b.catalog totals input = .ok q ∨
      Query.read (.columnar columns) totals input = .ok q)
    (hp : p ∈ q.predicates) (hfield : p.field ∈ Catalog.textNames ++ Catalog.countNames)
    (hlike : p.operator ≠ .like) (hint : ∀ v, p.operand = .number v → ∃ n, v = .int n)
    (hshared : SharedColumn b columns p) :
    ∃ c touched unanchored step, b.plan p = .ok (.shared c .facts touched unanchored) ∧
      RowFilter.compileStep (.columnar columns) p = .ok step ∧
      ∀ row scope, SameRow b columns row scope → step.expr.truth row = .ok (c.truth scope) := by
  have hadmits : b.catalog.Admits p ∨ (Catalog.columnar columns).Admits p :=
    hread.imp (fun h ↦ Query.admits_of_mem_read h hp) (fun h ↦ Query.admits_of_mem_read h hp)
  have htexts : p.operand.asTexts ≠ [] := by
    rcases hadmits with h | h <;> exact h.asTexts_ne_nil
  cases hop : p.operator.isPositional with
  | true =>
    have hform : p.field = "form" ∧ ∃ place : Position, p.operator = place.operator := by
      rcases hadmits with h | h <;> exact h.position_of_isPositional hop
    obtain ⟨hname, place, hplace⟩ := hform
    obtain ⟨hfacts, hflat⟩ := hshared.form_mem hcatalog hname
    exact translationsAgree_of_position hcatalog hname hplace htexts hfacts hflat
  | false =>
    cases hshared with
    | place hop' => exact absurd (hop.symm.trans hop') Bool.false_ne_true
    | @field f hf hr hfacts hflat hplain =>
      obtain ⟨g, hg, ht⟩ := Catalog.exists_twin hfield (hcatalog ▸ hf) hr hflat hplain
      have hkind := ht.kind_cases
      rw [Catalog.name_of_get? hf] at hkind
      -- A field and its twin are of one kind, so it does not matter which catalog was read over.
      have hcompares : p.Compares f.kind := by
        rcases hadmits with h | h
        · refine h.compares ?_ hf hkind hlike hop
          rw [hcatalog]
          exact Catalog.not_mem_textNames_of_relative fun _ ↦
            Catalog.relative_of_mem_relationalFields
        · rw [← ht.kind_eq] at hkind ⊢
          refine h.compares ?_ hg hkind hlike hop
          exact Catalog.not_mem_textNames_of_relative fun _ ↦ Catalog.relative_of_mem_flatFields
      exact translationsAgree_of_compares hposx hf hr hg ht hcompares hint hfacts hflat

/-- Statements over a facts table with reversed forms. -/
def reversedBackend : Backend where
  catalog := .relational { tables := [("wordfreqs", ["form", "revform", "lemma", "frequency"])] }
  schema := { tables := [("wordfreqs", ["form", "revform", "lemma", "frequency"])] }
  settings := { posx := false }

/-- A form with characters that patterns are written with. -/
def bracketRow : Row := Row.ofCells ["form", "lemma", "frequency"] [.text "b[*a", .null, .int 7]

/-- The same form in the facts table. -/
def bracketScope : Sql.Scope := fun c ↦
  ([("form", ⟨.text, .text "b[*a"⟩), ("revform", ⟨.text, .text "a*[b"⟩), ("lemma", ⟨.text, .null⟩),
    ("frequency", ⟨.numeric, .int 7⟩)] : List (String × Sql.Bound)).lookup c.name

theorem sameRow_bracket :
    SameRow reversedBackend ["form", "lemma", "frequency"] bracketRow bracketScope where
  cell := by
    intro name hname _
    simp only [List.mem_cons, List.not_mem_nil, or_false] at hname
    rcases hname with rfl | rfl | rfl
    · exact ⟨.text "b[*a", rfl, .text, rfl, rfl⟩
    · exact ⟨.null, rfl, .text, rfl, rfl⟩
    · exact ⟨.int 7, rfl, .numeric, rfl, rfl⟩
  text := by
    intro name hname v hv
    simp only [Catalog.textNames, List.mem_cons, List.not_mem_nil, or_false] at hname
    rcases hname with rfl | rfl | rfl | rfl | rfl
    · obtain rfl : Value.null = v := Option.some.inj hv
      exact .null
    · obtain rfl : Value.text "b[*a" = v := Option.some.inj hv
      exact .text _
    · cases hv
    · cases hv
    · cases hv
  count := by
    intro name hname v hv
    simp only [Catalog.countNames, List.mem_cons, List.not_mem_nil, or_false] at hname
    rcases hname with rfl | rfl | rfl
    · obtain rfl : Value.int 7 = v := Option.some.inj hv
      exact .int 7
    · cases hv
    · cases hv
  reversed := by
    intro _ v hv
    obtain rfl : Value.text "b[*a" = v := Option.some.inj hv
    exact ⟨.text, rfl, rfl⟩

/-- What `end notin ([*a,x)` is read as. -/
def bracketPredicate : Predicate := ⟨"form", .endsWith, .texts ["[*a", "x"], true⟩

/-- Wildcards in a text are looked for as they are. -/
theorem translations_agree_on_brackets :
    Query.read reversedBackend.catalog {} "end notin ([*a,x)"
        = .ok { predicates := [bracketPredicate] } ∧
      ∃ c touched unanchored step,
        reversedBackend.plan bracketPredicate = .ok (.shared c .facts touched unanchored) ∧
        RowFilter.compileStep (.columnar ["form", "lemma", "frequency"]) bracketPredicate
          = .ok step ∧
        step.expr.truth bracketRow = .ok (c.truth bracketScope) := by
  have hread : Query.read reversedBackend.catalog {} "end notin ([*a,x)"
      = .ok { predicates := [bracketPredicate] } := rfl
  have hshared : SharedColumn reversedBackend ["form", "lemma", "frequency"] bracketPredicate :=
    .place rfl (by decide) (by decide)
  obtain ⟨c, touched, unanchored, step, hplan, hstep, hagree⟩ :=
    translations_agree (b := reversedBackend) rfl (by decide) (.inl hread)
      (List.mem_singleton_self _) (by decide) (by decide) (fun v h ↦ by cases h) hshared
  exact ⟨hread, c, touched, unanchored, step, hplan, hstep,
    hagree bracketRow bracketScope sameRow_bracket⟩

end CorpusQuery

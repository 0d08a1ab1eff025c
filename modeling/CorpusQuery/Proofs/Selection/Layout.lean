import CorpusQuery.Proofs.Selection.Combinations
import CorpusQuery.Proofs.Sql.Connectives
import CorpusQuery.Statement

/-!
# The layout of a corpus

A corpus has one row per word form in its facts table, which we call a word. What else is known of a
word hangs off it: rows of other tables that agree with it in their key. The layout says how many
rows may do so. There is exactly one row of features, at most one row of the lemmas and of each
n-gram table, and any number of rows of a satellite, but then with different values.

The layout speaks of equality as the engine has it, with the affinities of the columns that are
compared; nothing is asked of the data besides. In particular a corpus without a table of features
follows the layout, and so does one where words lack lemmas or n-grams.

The second half of the file ties this to the joins of statements: the condition of every join picks
the rows that hang off a word.
-/

namespace CorpusQuery

open Sql (Datum Expr Join JoinKind)

/-! ## Columns of parts -/

namespace Part

/-- Whether a column is equal to a datum that stands in no column. -/
def columnIs (p : Part) (name : String) (d : Datum) : Bool :=
  (p.column? name).any fun a ↦ a.datum.equals a.affinity d

/-- Whether two parts are equal in the columns of one name. -/
def sameColumn (p q : Part) (name : String) : Bool :=
  (p.column? name).any fun a ↦ (q.column? name).any fun b ↦
    a.datum.equals (Datum.commonAffinity (some a.affinity) (some b.affinity)) b.datum

/-- The datum in a column; a column that is not there is missing. -/
def datum (p : Part) (name : String) : Datum := ((p.column? name).map (·.datum)).getD .null

/-- The part under another alias. -/
def under (aliasName : String) (p : Part) : Part := { p with aliasName := aliasName }

end Part

/-! ## What hangs off a word -/

namespace Relation

/-- Whether a row of a table hangs off a word. Features and satellites share the number of the
features, lemmas the lemma and the part of speech, and n-grams are a part of the word form. -/
def hangsOff (w : Part) : Relation → Part → Bool
  | .lemmas, p => p.sameColumn w "lemma" && p.sameColumn w "pos"
  | .initGrams, p => p.columnIs "form" (Sql.substrDatum (w.datum "form") (.int 1) (.int 3))
  | .finGrams, p => p.columnIs "form" (Sql.substrDatum (w.datum "form") (.int (-3)) (.int 3))
  | .bigrams, p => p.sameColumn w "form"
  | _, p => p.sameColumn w "featid"

/-- The tables that have at most one row for a word. -/
def singles : List Relation := [.facts, .features, .lemmas, .initGrams, .finGrams, .bigrams]

end Relation

namespace Database

/-- The rows of the facts table. -/
def words (db : Database) : List Part :=
  db.parts Relation.facts.table (some Relation.facts.aliasName)

/-- The rows of a table that hang off a word, under an alias. -/
def hanging (db : Database) (w : Part) (r : Relation) (aliasName : String) : List Part :=
  (db.parts r.table (some aliasName)).filter (r.hangsOff w)

/-- The one row of a table that hangs off a word, or the missing row. -/
def companion (db : Database) (w : Part) (r : Relation) : Part :=
  if r = .facts then w
  else (db.hanging w r r.aliasName).headD (db.missingPart r.table (some r.aliasName))

/-- A word with its row of every table that is no satellite. -/
def entry (db : Database) (w : Part) : Combination := Relation.singles.map (db.companion w)

/-- **The layout of a corpus.** -/
structure FollowsLayout (db : Database) : Prop where
  /-- If there are features, every word has one row of them. -/
  features : db.schema.hasTable Relation.features.table = true → ∀ w ∈ db.words,
    (db.hanging w .features Relation.features.aliasName).length = 1
  /-- There is at most one row for a lemma with a part of speech. -/
  lemmas : ∀ w ∈ db.words, (db.hanging w .lemmas Relation.lemmas.aliasName).length ≤ 1
  /-- There is at most one row for an n-gram. -/
  ngrams : ∀ r ∈ Relation.ngrams, ∀ w ∈ db.words, (db.hanging w r r.aliasName).length ≤ 1
  /-- A value stands in a satellite at most once for a word. -/
  satellites : ∀ column r, Relation.satelliteOf? column = some r → ∀ w ∈ db.words, ∀ v : Value,
    ((db.hanging w r r.aliasName).filter (·.columnIs column (.ofValue v))).length ≤ 1

variable {db : Database} {w : Part}

theorem aliasName_of_mem_words (h : w ∈ db.words) : w.aliasName = Relation.facts.aliasName := by
  obtain ⟨row, -, rfl⟩ := List.mem_map.mp h
  rfl

theorem aliasName_of_mem_hanging {r : Relation} {aliasName : String} {p : Part}
    (h : p ∈ db.hanging w r aliasName) : p.aliasName = aliasName := by
  obtain ⟨row, -, rfl⟩ := List.mem_map.mp (List.mem_filter.mp h).1
  rfl

/-- Which rows hang off a word does not depend on the alias they are joined under. -/
theorem hanging_eq_map_under (db : Database) (w : Part) (r : Relation) (aliasName other : String) :
    db.hanging w r aliasName = (db.hanging w r other).map (Part.under aliasName) := by
  have hparts : db.parts r.table (some aliasName)
      = (db.parts r.table (some other)).map (Part.under aliasName) := by
    rw [parts, parts, List.map_map]
    rfl
  have hsame : r.hangsOff w ∘ Part.under aliasName = r.hangsOff w := by
    funext p
    cases r <;> rfl
  rw [hanging, hparts, List.filter_map, hsame, hanging]

theorem aliasName_companion (hw : w ∈ db.words) (r : Relation) :
    (db.companion w r).aliasName = r.aliasName := by
  rw [companion]
  split
  case isTrue hr => rw [hr, aliasName_of_mem_words hw]
  case isFalse =>
    cases h : db.hanging w r r.aliasName with
    | nil => rfl
    | cons p ps => exact aliasName_of_mem_hanging (h ▸ List.mem_cons_self)

theorem separate_entry (hw : w ∈ db.words) : (db.entry w).Separate := by
  have hkey : Part.key ∘ db.companion w = fun r ↦ Text.asciiLower r.aliasName := by
    funext r
    exact congrArg Text.asciiLower (aliasName_companion hw r)
  rw [Combination.Separate, entry, List.map_map, hkey]
  decide +kernel

theorem scope_entry (hw : w ∈ db.words) {r : Relation} (hr : r ∈ Relation.singles)
    (name : String) :
    (db.entry w).scope ⟨some r.aliasName, name⟩ = (db.companion w r).column? name := by
  rw [← aliasName_companion hw r]
  exact Combination.scope_of_mem (separate_entry hw) (List.mem_map_of_mem hr) name

end Database

/-! ## Texts in satellites -/

/-- Whether a part has a text in a column of texts. -/
def Part.hasText (p : Part) (column : String) : Bool :=
  (p.column? column).any fun a ↦ a.affinity == .text && a.datum.isText

theorem Part.column?_of_hasText {p : Part} {column : String} (h : p.hasText column = true) :
    ∃ s, p.column? column = some ⟨.text, .text s⟩ := by
  rw [hasText] at h
  cases hcolumn : p.column? column with
  | none =>
    rw [hcolumn] at h
    cases h
  | some bound =>
    rw [hcolumn, Option.any_some, Bool.and_eq_true, beq_iff_eq] at h
    obtain ⟨affinity, datum⟩ := bound
    obtain ⟨rfl, htext⟩ := h
    cases datum with
    | text s => exact ⟨s, rfl⟩
    | null | int | real | bytes => cases htext

/-- A text column is equal to a value that stands in no column only if the value is spelled the
same. -/
theorem Part.spelled_of_columnIs {p : Part} {column s : String} {d : Datum}
    (hcolumn : p.column? column = some ⟨.text, .text s⟩) (h : p.columnIs column d = true) :
    d.spelled = .text s := by
  have hequals : Datum.equals .text (.text s) d = true := by
    rw [columnIs, hcolumn] at h
    exact h
  have hcompare : Datum.compareAs .text (.text s) d = some .eq := beq_iff_eq.mp hequals
  by_cases hnull : d = .null
  · rw [hnull, Datum.compareAs_null_right] at hcompare
    cases hcompare
  · have horder : (Datum.text s).order d.spelled = .eq := by
      rw [Datum.compareAs, if_neg (by simp [hnull])] at hcompare
      exact Option.some.inj hcompare
    cases hd : d.spelled with
    | text t =>
      rw [hd, Datum.order] at horder
      rw [Std.LawfulEqCmp.eq_of_compare horder]
    | null | int | real | bytes =>
      rw [hd] at horder
      cases horder

theorem Part.length_filter_columnIs_le_one {column : String} {ps : List Part}
    (htext : ∀ p ∈ ps, p.hasText column = true)
    (hdifferent : ps.Pairwise fun p q ↦ p.datum column ≠ q.datum column) (d : Datum) :
    (ps.filter (·.columnIs column d)).length ≤ 1 := by
  have hsame : ∀ p ∈ ps.filter (·.columnIs column d), p.datum column = d.spelled := by
    intro p hp
    obtain ⟨hmem, hcolumn⟩ := List.mem_filter.mp hp
    obtain ⟨s, hs⟩ := column?_of_hasText (htext p hmem)
    rw [spelled_of_columnIs hs hcolumn, datum, hs]
    rfl
  -- So two of the rows that are kept would have the same text.
  have hpairwise := hdifferent.sublist (List.filter_sublist (p := fun p ↦ p.columnIs column d))
  generalize ps.filter (·.columnIs column d) = kept at hsame hpairwise ⊢
  match kept with
  | [] => exact Nat.zero_le 1
  | [p] => exact Nat.le_refl 1
  | p :: q :: rest =>
    have hne := (List.pairwise_cons.mp hpairwise).1 q List.mem_cons_self
    exact absurd ((hsame p List.mem_cons_self).trans
      (hsame q (List.mem_cons_of_mem _ List.mem_cons_self)).symm) hne

/-! ## Conditions of joins -/

section Conditions

variable {scope : Sql.Scope} {p w : Part} {left right : String}

theorem eval_of (hleft : ∀ name, scope ⟨some left, name⟩ = p.column? name) (name : String) :
    (Expr.of left name).eval scope = p.datum name := by
  rw [Expr.of, Expr.eval, hleft, Part.datum]

theorem affinity?_of (hleft : ∀ name, scope ⟨some left, name⟩ = p.column? name) (name : String) :
    (Expr.of left name).affinity? scope = (p.column? name).map (·.affinity) := by
  rw [Expr.of, Expr.affinity?, hleft]

theorem holds_sameColumn (hleft : ∀ name, scope ⟨some left, name⟩ = p.column? name)
    (hright : ∀ name, scope ⟨some right, name⟩ = w.column? name) (name : String) :
    ((Backend.sameColumn (.of left name) (.of right name)).truth scope).holds
      = p.sameColumn w name := by
  rw [Backend.sameColumn, Expr.truth, Expr.eval, Datum.truth_ofTruth, eval_of hleft,
    eval_of hright, affinity?_of hleft, affinity?_of hright, Part.datum, Part.datum,
    Part.sameColumn]
  cases p.column? name with
  | none => rfl
  | some a =>
    cases w.column? name with
    | none =>
      -- A column that is not there is missing, and nothing is equal to what is missing.
      have hnull := Datum.compareAs_null_right
        (Datum.commonAffinity (some a.affinity) none) a.datum
      exact congrArg (fun o ↦ Truth.holds (o.map Sql.BinaryOp.eq.accepts)) hnull
    | some b => exact Datum.holds_compareAs_eq _ _ _

theorem holds_columnIs (hleft : ∀ name, scope ⟨some left, name⟩ = p.column? name) {e : Expr}
    (he : e.affinity? scope = none) (name : String) :
    ((Expr.binary (.of left name) .eq e).truth scope).holds
      = p.columnIs name (e.eval scope) := by
  rw [Expr.truth, Expr.eval, Datum.truth_ofTruth, eval_of hleft, affinity?_of hleft, he,
    Part.datum, Part.columnIs]
  cases p.column? name with
  | none => rfl
  | some a => exact Datum.holds_compareAs_eq _ _ _

theorem holds_inValues (hleft : ∀ name, scope ⟨some left, name⟩ = p.column? name) (name : String)
    (values : List Value) :
    ((Expr.inList (.of left name) (values.map .value) false).truth scope).holds
      = values.any fun v ↦ p.columnIs name (.ofValue v) := by
  have hmember : (Expr.inList (.of left name) (values.map .value) false).truth scope
      = (p.datum name).memberTruth (((p.column? name).map (·.affinity)).getD .raw)
        (values.map .ofValue) := by
    rw [Expr.truth, Expr.eval, Datum.truth_ofTruth, eval_of hleft, affinity?_of hleft,
      Expr.evalAll_eq_map, List.map_map]
    rfl
  rw [hmember, Datum.holds_memberTruth, List.any_map, Part.datum]
  refine congrArg (List.any _) ?_
  funext v
  rw [Part.columnIs]
  cases p.column? name with
  | none => rfl
  | some a => rfl

theorem eval_trigram (hright : ∀ name, scope ⟨some right, name⟩ = w.column? name) (start : Int) :
    (Backend.trigram (.of right "form") start).eval scope
      = Sql.substrDatum (w.datum "form") (.int start) (.int 3) := by
  rw [Backend.trigram, Expr.eval, Expr.evalAll, Expr.evalAll, Expr.evalAll, Expr.evalAll,
    eval_of hright]
  rfl

end Conditions

namespace Backend

/-- How a table is joined to the facts table. -/
def linkKind : Relation → JoinKind
  | .lemmas | .initGrams | .finGrams | .bigrams => .left
  | _ => .inner

/-- The condition that a table is joined under. -/
def linkCondition (b : Backend) (r : Relation) (aliasName : String) : Expr :=
  match r with
  | .lemmas => b.sameLemma
  | .initGrams | .finGrams | .bigrams => sameColumn (.of r.aliasName "form") (gramKey r)
  | _ => sameFeatures aliasName

/-- The join of a table under an alias. -/
def linkJoin (b : Backend) (link : Relation × String) : Join :=
  joinOf (linkKind link.1) link.1 link.2 (b.linkCondition link.1 link.2)

/-- **Conditions of joins.** A row that is joined to a word under the alias that its table has
satisfies the condition of the join if it hangs off the word. -/
theorem holds_linkCondition {b : Backend} {c : Combination} (hc : c.Separate) {w p : Part}
    (hw : w ∈ c) (hp : p ∈ c) (hfacts : w.aliasName = Relation.facts.aliasName) (r : Relation)
    (hposx : r = .lemmas → b.posx = false)
    (halias : r.isSatellite = false → p.aliasName = r.aliasName) :
    ((b.linkCondition r p.aliasName).truth c.scope).holds = r.hangsOff w p := by
  have hright (name : String) : c.scope ⟨some Relation.facts.aliasName, name⟩ = w.column? name :=
    hfacts ▸ Combination.scope_of_mem hc hw name
  have hleft (name : String) : c.scope ⟨some p.aliasName, name⟩ = p.column? name :=
    Combination.scope_of_mem hc hp name
  have hnone (start : Int) : (trigram (.of Relation.facts.aliasName "form") start).affinity?
      c.scope = none := rfl
  cases r with
  | facts | features | derivations | clitics | nounCases =>
    exact holds_sameColumn hleft hright "featid"
  | lemmas =>
    rw [halias rfl] at hleft
    have hlemma := holds_sameColumn hleft hright "lemma"
    have hpos := holds_sameColumn hleft hright "pos"
    rw [linkCondition, sameLemma, hposx rfl, Expr.truth_and, Truth.holds_and, Relation.hangsOff,
      ← hlemma, ← hpos]
    rfl
  | initGrams =>
    rw [halias rfl] at hleft
    refine (holds_columnIs hleft (hnone 1) "form").trans ?_
    rw [eval_trigram hright]
    rfl
  | finGrams =>
    rw [halias rfl] at hleft
    refine (holds_columnIs hleft (hnone (-3)) "form").trans ?_
    rw [eval_trigram hright]
    rfl
  | bigrams =>
    rw [halias rfl] at hleft
    exact holds_sameColumn hleft hright "form"

end Backend

end CorpusQuery

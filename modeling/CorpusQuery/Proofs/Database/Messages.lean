import CorpusQuery.Database.Error
import CorpusQuery.Proofs.Lists
import CorpusQuery.Proofs.Text.Trimming
import Mathlib.Logic.Relation

/-!
# Messages without prefixes

The prefixes in front of a message are dropped one by one, with the white space behind each. No
prefix is the beginning of another, although one is the end of another, so what a round drops does
not depend on the order in which the prefixes are tried. A round can therefore be described without
the order, and what it preserves is carried through all of them by induction. The result is a text
on which no round is possible.

Trimming looks at the whole text first. A prefix that is put in front of a message keeps the white
space that the message begins with from being trimmed, and the round that drops the prefix drops it
too.

## Main statements

* `dropEnginePrefix?_eq_some_iff`: what is dropped in one round.
* `rounds_dropEnginePrefixes`: the loop is a sequence of rounds that stops.
* `engine_prefixes_dropped`: the message that is left.
-/

namespace CorpusQuery

open Text (Trimmed isBlank trimChars)

variable {cs rest next : List Char} {part part' : String}

/-! ## The prefixes -/

theorem eq_of_enginePrefix_begins (h : part ∈ enginePrefixes) (h' : part' ∈ enginePrefixes)
    (hbegins : part.toList <+: part'.toList) : part = part' := by
  have hall : ∀ part ∈ enginePrefixes, ∀ part' ∈ enginePrefixes,
      part.toList <+: part'.toList → part = part' := by decide
  exact hall part h part' h' hbegins

theorem exists_head_of_enginePrefix (h : part ∈ enginePrefixes) :
    ∃ c, part.toList.head? = some c ∧ isBlank c = false := by
  have hall : ∀ part ∈ enginePrefixes, part.toList.head?.map isBlank = some false := by decide
  exact Option.map_eq_some_iff.mp (hall part h)

/-- **One prefix.** At most one prefix stands in front of a text. -/
theorem dropEnginePrefix?_eq_some_iff :
    dropEnginePrefix? cs = some rest ↔ ∃ part ∈ enginePrefixes, cs = part.toList ++ rest := by
  constructor
  · intro h
    obtain ⟨part, hpart, hrest⟩ := List.exists_of_findSome?_eq_some h
    exact ⟨part, hpart, Text.dropPrefix?_eq_some_iff.mp hrest⟩
  · rintro ⟨part, hpart, rfl⟩
    cases hdrop : dropEnginePrefix? (part.toList ++ rest) with
    | none =>
      have hnone := List.findSome?_eq_none_iff.mp hdrop part hpart
      rw [Text.dropPrefix?_eq_some_iff.mpr rfl] at hnone
      cases hnone
    | some rest' =>
      obtain ⟨part', hpart', hrest'⟩ := List.exists_of_findSome?_eq_some hdrop
      have heq := Text.dropPrefix?_eq_some_iff.mp hrest'
      -- Of two prefixes of one text one is the beginning of the other.
      obtain rfl : part = part' := by
        rcases List.prefix_or_prefix_of_prefix (List.prefix_append part.toList rest)
          ⟨rest', heq.symm⟩ with h | h
        · exact eq_of_enginePrefix_begins hpart hpart' h
        · exact (eq_of_enginePrefix_begins hpart' hpart h).symm
      rw [List.append_cancel_left heq]

/-! ## Rounds -/

/-- A round drops a prefix and the white space behind it. -/
def Round (cs next : List Char) : Prop :=
  ∃ part ∈ enginePrefixes, ∃ rest, cs = part.toList ++ rest ∧ next = rest.dropWhile isBlank

/-- A text that consists of prefixes and white space. -/
def Removable (cs : List Char) : Prop :=
  ∃ pieces : List (List Char), cs = pieces.flatten ∧ ∀ piece ∈ pieces,
    (∃ part ∈ enginePrefixes, piece = part.toList) ∨ ∀ c ∈ piece, isBlank c = true

theorem Removable.append {front front' : List Char} (h : Removable front) (h' : Removable front') :
    Removable (front ++ front') := by
  obtain ⟨pieces, rfl, hpieces⟩ := h
  obtain ⟨pieces', rfl, hpieces'⟩ := h'
  exact ⟨pieces ++ pieces', List.flatten_append.symm,
    List.forall_mem_append.mpr ⟨hpieces, hpieces'⟩⟩

theorem Removable.blank (h : ∀ c ∈ cs, isBlank c = true) : Removable cs :=
  ⟨[cs], by simp, fun piece hpiece ↦ .inr (List.mem_singleton.mp hpiece ▸ h)⟩

theorem Removable.enginePrefix (h : part ∈ enginePrefixes) : Removable part.toList :=
  ⟨[part.toList], by simp, fun _ hpiece ↦ .inl ⟨part, h, List.mem_singleton.mp hpiece⟩⟩

namespace Round

theorem length_lt (h : Round cs next) : next.length < cs.length := by
  obtain ⟨part, hpart, rest, rfl, rfl⟩ := h
  have hpos := enginePrefixes_ne_empty hpart
  have hle := (List.dropWhile_sublist isBlank (l := rest)).length_le
  rw [List.length_append]
  omega

theorem exists_front (h : Round cs next) : ∃ front, Removable front ∧ cs = front ++ next := by
  obtain ⟨part, hpart, rest, rfl, rfl⟩ := h
  refine ⟨part.toList ++ rest.takeWhile isBlank,
    (Removable.enginePrefix hpart).append (.blank fun c ↦ List.mem_takeWhile_imp), ?_⟩
  rw [List.append_assoc, List.takeWhile_append_dropWhile]

theorem trimmed (h : Round cs next) (hcs : Trimmed cs) : Trimmed next := by
  obtain ⟨part, hpart, rest, rfl, rfl⟩ := h
  refine ⟨fun c ↦ Text.isBlank_of_head?_dropWhile, fun c hc ↦ hcs.last c ?_⟩
  exact getLast?_of_suffix ((List.dropWhile_suffix isBlank).trans (List.suffix_append _ _)) hc

theorem wellFounded : WellFounded (flip Round) :=
  Subrelation.wf (fun h ↦ h.length_lt) (InvImage.wf List.length Nat.lt_wfRel.wf)

end Round

/-! ## All rounds -/

theorem dropEnginePrefixes_of_none (h : dropEnginePrefix? cs = none) :
    dropEnginePrefixes cs = cs := by
  rw [dropEnginePrefixes]
  split
  · rfl
  · next h' => cases h.symm.trans h'

theorem dropEnginePrefixes_append (h : part ∈ enginePrefixes) (rest : List Char) :
    dropEnginePrefixes (part.toList ++ rest) = dropEnginePrefixes (rest.dropWhile isBlank) := by
  have hdrop : dropEnginePrefix? (part.toList ++ rest) = some rest :=
    dropEnginePrefix?_eq_some_iff.mpr ⟨part, h, rfl⟩
  rw [dropEnginePrefixes]
  split
  · next h' => cases hdrop.symm.trans h'
  · next h' =>
    obtain rfl := Option.some.inj (h'.symm.trans hdrop)
    rfl

theorem dropEnginePrefix?_dropEnginePrefixes (cs : List Char) :
    dropEnginePrefix? (dropEnginePrefixes cs) = none := by
  fun_induction dropEnginePrefixes cs with
  | case1 cs h => exact h
  | case2 cs rest h _ ih => exact ih

/-- **The loop.** It is a sequence of rounds. -/
theorem rounds_dropEnginePrefixes (cs : List Char) :
    Relation.ReflTransGen Round cs (dropEnginePrefixes cs) := by
  fun_induction dropEnginePrefixes cs with
  | case1 cs h => exact .refl
  | case2 cs rest h _ ih =>
    obtain ⟨part, hpart, hcs⟩ := dropEnginePrefix?_eq_some_iff.mp h
    exact .head ⟨part, hpart, rest, hcs, rfl⟩ ih

theorem not_enginePrefix_begins (h : part ∈ enginePrefixes) (cs : List Char) :
    ¬part.toList <+: dropEnginePrefixes cs := by
  rintro ⟨rest, hrest⟩
  have hnone := dropEnginePrefix?_dropEnginePrefixes cs
  rw [dropEnginePrefix?_eq_some_iff.mpr ⟨part, h, hrest.symm⟩] at hnone
  cases hnone

theorem not_round_dropEnginePrefixes (cs : List Char) : ¬Round (dropEnginePrefixes cs) next := by
  rintro ⟨part, hpart, rest, hcs, -⟩
  exact not_enginePrefix_begins hpart cs ⟨rest, hcs.symm⟩

theorem exists_front_of_rounds (h : Relation.ReflTransGen Round cs next) :
    ∃ front, Removable front ∧ cs = front ++ next := by
  induction h using Relation.ReflTransGen.head_induction_on with
  | refl => exact ⟨[], .blank nofun, rfl⟩
  | head hround _ ih =>
    obtain ⟨front, hfront, rfl⟩ := hround.exists_front
    obtain ⟨front', hfront', hnext⟩ := ih
    exact ⟨front ++ front', hfront.append hfront', by rw [hnext, List.append_assoc]⟩

theorem trimmed_of_rounds (h : Relation.ReflTransGen Round cs next) (hcs : Trimmed cs) :
    Trimmed next := by
  induction h with
  | refl => exact hcs
  | tail _ hround ih => exact hround.trimmed ih

/-! ## Messages -/

theorem toList_withoutEnginePrefixes (message : String) :
    (withoutEnginePrefixes message).toList = dropEnginePrefixes (trimChars message.toList) :=
  String.toList_ofList

theorem trimmed_withoutEnginePrefixes (message : String) :
    Trimmed (withoutEnginePrefixes message).toList := by
  rw [toList_withoutEnginePrefixes]
  exact trimmed_of_rounds (rounds_dropEnginePrefixes _) (Text.trimmed_trimChars _)

theorem trimmed_enginePrefix_append (h : part ∈ enginePrefixes) (front : List Char)
    (hcs : Trimmed cs) (hne : cs ≠ []) : Trimmed (part.toList ++ (front ++ cs)) where
  head := by
    intro c hc
    obtain ⟨d, hd, hblank⟩ := exists_head_of_enginePrefix h
    rw [List.head?_append, hd, Option.some_or] at hc
    obtain rfl := Option.some.inj hc
    exact hblank
  last := by
    intro c hc
    have hlast := List.getLast?_eq_some_getLast hne
    have hsuffix : cs <:+ part.toList ++ (front ++ cs) :=
      (List.suffix_append _ _).trans (List.suffix_append _ _)
    obtain rfl := Option.some.inj ((getLast?_of_suffix hsuffix hlast).symm.trans hc)
    exact hcs.last _ hlast

theorem withoutEnginePrefixes_append (h : part ∈ enginePrefixes) {message : String}
    (hmessage : ∃ c ∈ message.toList, isBlank c = false) :
    withoutEnginePrefixes (part ++ message) = withoutEnginePrefixes message := by
  obtain ⟨front, back, hcut, hfront, hback⟩ := Text.exists_cut message.toList
  have hne : trimChars message.toList ≠ [] := by
    intro hnil
    obtain ⟨c, hc, hblank⟩ := hmessage
    rw [Text.trimChars_eq_nil_iff.mp hnil c hc] at hblank
    cases hblank
  have htrimmed := Text.trimmed_trimChars message.toList
  -- Behind the prefix the white space in front of the message is kept until the next round.
  have htrim : trimChars (part ++ message).toList
      = part.toList ++ (front ++ trimChars message.toList) := by
    have hcut' : (part ++ message).toList
        = [] ++ (part.toList ++ (front ++ trimChars message.toList)) ++ back := by
      rw [String.toList_append, List.nil_append, List.append_assoc, ← hcut]
    rw [hcut']
    exact Text.trimChars_of_cut nofun hback (trimmed_enginePrefix_append h front htrimmed hne)
  rw [withoutEnginePrefixes, withoutEnginePrefixes, htrim, dropEnginePrefixes_append h,
    List.dropWhile_append_of_pos hfront, Text.dropWhile_of_head? htrimmed.head]

theorem withoutEnginePrefixes_join_append {parts : List String} {message : String}
    (h : ∀ part ∈ parts, part ∈ enginePrefixes)
    (hmessage : ∃ c ∈ message.toList, isBlank c = false) :
    withoutEnginePrefixes (String.join parts ++ message) = withoutEnginePrefixes message := by
  induction parts with
  | nil => rw [String.join_nil, String.empty_append]
  | cons part parts ih =>
    obtain ⟨hpart, hparts⟩ := List.forall_mem_cons.mp h
    have hrest : ∃ c ∈ (String.join parts ++ message).toList, isBlank c = false := by
      obtain ⟨c, hc, hblank⟩ := hmessage
      exact ⟨c, by rw [String.toList_append]; exact List.mem_append_right _ hc, hblank⟩
    rw [String.join_cons, String.append_assoc, withoutEnginePrefixes_append hpart hrest, ih hparts]

theorem withoutEnginePrefixes_withoutEnginePrefixes (message : String) :
    withoutEnginePrefixes (withoutEnginePrefixes message) = withoutEnginePrefixes message := by
  have htrim := (trimmed_withoutEnginePrefixes message).trimChars_eq
  have hnone := dropEnginePrefix?_dropEnginePrefixes (trimChars message.toList)
  rw [← toList_withoutEnginePrefixes] at hnone
  refine String.toList_inj.mp ?_
  rw [toList_withoutEnginePrefixes (withoutEnginePrefixes message), htrim,
    dropEnginePrefixes_of_none hnone]

theorem exists_cut_withoutEnginePrefixes (message : String) : ∃ front back,
    message.toList = front ++ (withoutEnginePrefixes message).toList ++ back ∧
      Removable front ∧ ∀ c ∈ back, isBlank c = true := by
  obtain ⟨front, back, hcut, hfront, hback⟩ := Text.exists_cut message.toList
  obtain ⟨front', hfront', hrounds⟩ :=
    exists_front_of_rounds (rounds_dropEnginePrefixes (trimChars message.toList))
  refine ⟨front ++ front', back, ?_, (Removable.blank hfront).append hfront', hback⟩
  rw [toList_withoutEnginePrefixes, List.append_assoc front, ← hrounds]
  exact hcut

/-- **Messages.** Dropping prefixes stops, after rounds that each drop one. What is left is a piece
of the message: in front of it there were only prefixes and white space, and behind it there was
only white space. It has no prefix in front and no white space around it, and dropping prefixes from
it does nothing. Prefixes that are put in front of a message that says something do not matter. -/
theorem engine_prefixes_dropped (message : String) :
    (WellFounded (flip Round) ∧
      Relation.ReflTransGen Round (trimChars message.toList)
        (withoutEnginePrefixes message).toList ∧
      ∀ next, ¬Round (withoutEnginePrefixes message).toList next) ∧
    (∃ front back, message.toList = front ++ (withoutEnginePrefixes message).toList ++ back ∧
      Removable front ∧ ∀ c ∈ back, isBlank c = true) ∧
    (∀ part ∈ enginePrefixes, ¬part.toList <+: (withoutEnginePrefixes message).toList) ∧
    Trimmed (withoutEnginePrefixes message).toList ∧
    withoutEnginePrefixes (withoutEnginePrefixes message) = withoutEnginePrefixes message ∧
    ∀ parts : List String, (∀ part ∈ parts, part ∈ enginePrefixes) →
      (∃ c ∈ message.toList, isBlank c = false) →
        withoutEnginePrefixes (String.join parts ++ message) = withoutEnginePrefixes message := by
  have htoList := toList_withoutEnginePrefixes message
  refine ⟨⟨Round.wellFounded, ?_, ?_⟩, exists_cut_withoutEnginePrefixes message, ?_,
    trimmed_withoutEnginePrefixes message, withoutEnginePrefixes_withoutEnginePrefixes message,
    fun parts ↦ withoutEnginePrefixes_join_append⟩
  · rw [htoList]
    exact rounds_dropEnginePrefixes _
  · rw [htoList]
    exact fun next ↦ not_round_dropEnginePrefixes _
  · rw [htoList]
    exact fun part hpart ↦ not_enginePrefix_begins hpart _

/-- A prefix that ends like another one, before a message with white space around it. -/
theorem engine_prefixes_dropped_stacked :
    let parts := ["SQL error: ", "sqlite3.OperationalError: ", "OperationalError: "]
    let message := " no such column: w.foo "
    (∀ part ∈ parts, part ∈ enginePrefixes) ∧ (∃ c ∈ message.toList, isBlank c = false) ∧
      withoutEnginePrefixes (String.join parts ++ message) = withoutEnginePrefixes message := by
  intro parts message
  have hparts : ∀ part ∈ parts, part ∈ enginePrefixes := by decide
  have hmessage : ∃ c ∈ message.toList, isBlank c = false := ⟨'n', by decide, rfl⟩
  obtain ⟨-, -, -, -, -, hjoin⟩ := engine_prefixes_dropped message
  exact ⟨hparts, hmessage, hjoin parts hparts hmessage⟩

end CorpusQuery

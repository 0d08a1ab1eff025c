import CorpusQuery.Proofs.RowExpr.WildcardPass
import Mathlib.Logic.Relation

/-!
# The wildcard pass stays in range

A look-up in the pass has no character where its position is out of range, and the pass is defined
by recursion on a measure, so neither can be seen to go wrong. Here the pass is written as a loop
whose accesses fail out of range. A turn makes them from left to right and only as far as it needs
them, and behind the loop the end of the pattern is cut off, which fails beyond its end.

A return to the last wildcard moves both positions back. What has grown then is the reach of the
wildcard, and a new wildcard stands further on in the pattern than the one before. So the measure of
a cursor is lexicographic, with the position in the text in the last place only.

Inside the loop the accesses are guarded, but nothing guards the cut behind it. That it is in range
is due to the invariant.

## Main statements

* `Wildcard.accessStep_eq`: the accesses of one turn.
* `Wildcard.ends_iff`: how the loop ends.
* `wildcard_pass_in_range`: what holds of every cursor that comes up, and of the loop as a whole.
-/

namespace CorpusQuery

namespace Wildcard

/-! ## Accesses -/

/-- A position that is out of range, and the number of characters. -/
structure OutOfRange where
  position : Nat
  size : Nat
deriving DecidableEq, Repr

/-- The character at a position, which has to be in range. -/
def access (cs : Array Char) (i : Nat) : Except OutOfRange Char :=
  match cs[i]? with
  | some c => .ok c
  | none => .error ⟨i, cs.size⟩

/-- The characters from a position on, which may be the end but not beyond it. -/
def cut (cs : Array Char) (i : Nat) : Except OutOfRange (List Char) :=
  if i ≤ cs.size then .ok (cs.toList.drop i) else .error ⟨i, cs.size⟩

theorem access_of_getElem? {cs : Array Char} {i : Nat} {c : Char} (h : cs[i]? = some c) :
    access cs i = .ok c := by
  rw [access, h]

theorem cut_of_le {cs : Array Char} {i : Nat} (h : i ≤ cs.size) :
    cut cs i = .ok (cs.toList.drop i) :=
  if_pos h

/-! ## The loop with accesses -/

variable (text pattern : Array Char)

/-- A test on the character of the pattern at a cursor. At its end nothing is looked at. -/
def atPattern (c : Cursor) (test : Char → Except OutOfRange Bool) : Except OutOfRange Bool :=
  if c.pattern < pattern.size then access pattern c.pattern >>= test else .ok false

/-- Whether two characters are used up together. For a `_` the text is not looked at. -/
def takes (c : Cursor) : Except OutOfRange Bool :=
  atPattern pattern c fun p ↦ if p = '_' then .ok true else return p == (← access text c.text)

/-- Whether a run of characters begins. -/
def opens (c : Cursor) : Except OutOfRange Bool := atPattern pattern c fun p ↦ .ok (p == '%')

/-- A turn of the loop. -/
def accessStep (c : Cursor) : Except OutOfRange (Option Cursor) := do
  if ← takes text pattern c then
    return some { c with text := c.text + 1, pattern := c.pattern + 1 }
  if ← opens pattern c then
    return some { c with pattern := c.pattern + 1, wildcard := some (c.pattern, c.text) }
  return c.wildcard.map fun (mark, reach) ↦
    { text := reach + 1, pattern := mark + 1, wildcard := some (mark, reach + 1) }

/-- Inside the text, a turn of the loop leads from one cursor to another. -/
def Turn (c c' : Cursor) : Prop := c.text < text.size ∧ accessStep text pattern c = .ok (some c')

/-- The cursor comes up in the loop. -/
def Reached (c : Cursor) : Prop := Relation.ReflTransGen (Turn text pattern) {} c

/-- How the loop ends from a cursor on: with an answer, or with an access that failed. -/
inductive Ends : Cursor → Except OutOfRange Bool → Prop
  | turn {c c' : Cursor} {result : Except OutOfRange Bool} (h : Turn text pattern c c')
    (hends : Ends c' result) : Ends c result
  | refuse {c : Cursor} (hc : c.text < text.size) (h : accessStep text pattern c = .ok none) :
    Ends c (.ok false)
  | fault {c : Cursor} {err : OutOfRange} (hc : c.text < text.size)
    (h : accessStep text pattern c = .error err) : Ends c (.error err)
  | leave {c : Cursor} (hc : text.size ≤ c.text) :
    Ends c ((cut pattern c.pattern).map (·.all (· == '%')))

variable {text pattern} {c c' : Cursor} {result : Except OutOfRange Bool}

/-! ## Turns -/

theorem atPattern_of_getElem? {p : Char} (h : pattern[c.pattern]? = some p)
    (test : Char → Except OutOfRange Bool) : atPattern pattern c test = test p := by
  rw [atPattern, if_pos (Array.getElem?_eq_some_iff.mp h).1, access_of_getElem? h]
  rfl

theorem atPattern_of_eq_none (h : pattern[c.pattern]? = none)
    (test : Char → Except OutOfRange Bool) : atPattern pattern c test = .ok false :=
  if_neg (Nat.not_lt.mpr (Array.getElem?_eq_none_iff.mp h))

theorem takes_eq (hc : c.text < text.size) : takes text pattern c
    = .ok (decide (pattern[c.pattern]? = some '_'
      ∨ pattern[c.pattern]?.isSome ∧ pattern[c.pattern]? = text[c.text]?)) := by
  have htext := Array.getElem?_eq_getElem hc
  cases hp : pattern[c.pattern]? with
  | none => simp [takes, atPattern_of_eq_none hp]
  | some p =>
    rw [takes, atPattern_of_getElem? hp, access_of_getElem? htext, htext]
    by_cases hany : p = '_'
    · simp [hany]
    · simp [hany, bind, Except.bind, pure, Except.pure, beq_eq_decide]

theorem opens_eq (c : Cursor) :
    opens pattern c = .ok (decide (pattern[c.pattern]? = some '%')) := by
  cases hp : pattern[c.pattern]? with
  | none => simp [opens, atPattern_of_eq_none hp]
  | some p => simp [opens, atPattern_of_getElem? hp, beq_eq_decide]

/-- **One turn.** Inside the text no access of a turn fails, and the turn is a step of the pass. -/
theorem accessStep_eq (hc : c.text < text.size) :
    accessStep text pattern c = .ok (step text pattern c) := by
  rw [accessStep, takes_eq hc, opens_eq, step]
  split
  · next htakes =>
    rw [decide_eq_true htakes]
    rfl
  · next htakes =>
    rw [decide_eq_false htakes]
    split
    · next hopens =>
      rw [decide_eq_true hopens]
      rfl
    · next hopens =>
      rw [decide_eq_false hopens]
      cases c.wildcard with
      | none => rfl
      | some w => rfl

theorem Turn.step_eq (h : Turn text pattern c c') : step text pattern c = some c' :=
  Except.ok.inj ((accessStep_eq h.1).symm.trans h.2)

theorem Reached.valid (h : Reached text pattern c) : c.Valid text pattern := by
  induction h with
  | refl => exact .start
  | tail _ hturn ih => exact ih.step hturn.1 hturn.step_eq

/-! ## The end of the loop -/

theorem run_of_step (h : c.Valid text pattern) (hc : c.text < text.size)
    (hs : step text pattern c = some c') :
    run text pattern c h = run text pattern c' (h.step hc hs) := by
  rw [run, dif_pos hc]
  split
  · next hs' =>
    obtain rfl := Option.some.inj (hs.symm.trans hs')
    rfl
  · next hs' => cases hs.symm.trans hs'

theorem run_of_stop (h : c.Valid text pattern) (hc : c.text < text.size)
    (hs : step text pattern c = none) : run text pattern c h = false := by
  rw [run, dif_pos hc]
  split
  · next hs' => cases hs.symm.trans hs'
  · rfl

theorem cut_map_eq (h : c.Valid text pattern) (hc : text.size ≤ c.text) :
    (cut pattern c.pattern).map (·.all (· == '%')) = .ok (run text pattern c h) := by
  rw [cut_of_le h.pattern_le, run, dif_neg (Nat.not_lt.mpr hc)]
  rfl

theorem Ends.eq_run (hends : Ends text pattern c result) (h : c.Valid text pattern) :
    result = .ok (run text pattern c h) := by
  induction hends with
  | turn hturn _ ih => rw [ih (h.step hturn.1 hturn.step_eq), run_of_step h hturn.1 hturn.step_eq]
  | refuse hc hs => rw [run_of_stop h hc (Except.ok.inj ((accessStep_eq hc).symm.trans hs))]
  | fault hc hs => cases (accessStep_eq hc).symm.trans hs
  | leave hc => exact cut_map_eq h hc

theorem ends_run (h : c.Valid text pattern) :
    Ends text pattern c (.ok (run text pattern c h)) := by
  fun_induction run text pattern c h with
  | case1 c h hc c' hs ih => exact .turn ⟨hc, (accessStep_eq hc).trans (congrArg _ hs)⟩ ih
  | case2 c h hc hs => exact .refuse hc ((accessStep_eq hc).trans (congrArg _ hs))
  | case3 c h hc =>
    have hleave : Ends text pattern c _ := .leave (Nat.not_lt.mp hc)
    rw [cut_of_le h.pattern_le] at hleave
    exact hleave

/-- **The loop.** It ends, and in one way only: with the answer of the pass. -/
theorem ends_iff (h : c.Valid text pattern) :
    Ends text pattern c result ↔ result = .ok (run text pattern c h) := by
  constructor
  · exact fun hends ↦ hends.eq_run h
  · rintro rfl
    exact ends_run h

end Wildcard

open Wildcard (Cursor Ends Reached Turn access accessStep cut)

/-- **In range.** At every cursor that comes up in the loop a turn makes the measure smaller, no
access fails, the recorded wildcard is a `%` and reaches no further than the position in the text,
and behind the text the position in the pattern is at most its end. So the loop ends, and it does so
with the answer of the pass. -/
theorem wildcard_pass_in_range (text pattern : String) :
    let t := (foldedChars text).toArray
    let p := (foldedChars pattern).toArray
    WellFounded (Prod.Lex (· < ·) (Prod.Lex (· < ·) (· < ·)) : ℕ × ℕ × ℕ → ℕ × ℕ × ℕ → Prop) ∧
    (∀ c, Reached t p c →
      (∀ c', Turn t p c c' →
        Prod.Lex (· < ·) (Prod.Lex (· < ·) (· < ·)) (c'.rank t p) (c.rank t p)) ∧
      (c.text < t.size → accessStep t p c = .ok (Wildcard.step t p c)) ∧
      (∀ mark reach, c.wildcard = some (mark, reach) → access p mark = .ok '%' ∧ reach ≤ c.text) ∧
      (t.size ≤ c.text → c.pattern ≤ p.size ∧ cut p c.pattern = .ok (p.toList.drop c.pattern))) ∧
    ∀ result, Ends t p {} result ↔ result = .ok (wildcardMatch text pattern) := by
  intro t p
  refine ⟨(Prod.lex Nat.lt_wfRel (Prod.lex Nat.lt_wfRel Nat.lt_wfRel)).wf, fun c hc ↦ ?_,
    fun result ↦ Wildcard.ends_iff .start⟩
  have hvalid := hc.valid
  refine ⟨fun c' hturn ↦ hvalid.rank_step_lt hturn.1 hturn.step_eq, Wildcard.accessStep_eq,
    fun mark reach hw ↦ ?_, fun _ ↦ ⟨hvalid.pattern_le, Wildcard.cut_of_le hvalid.pattern_le⟩⟩
  obtain ⟨hmark, -, hreach⟩ := hvalid.wildcard_spec mark reach hw
  exact ⟨Wildcard.access_of_getElem? hmark, hreach⟩

/-- Two letters behind the wildcard are used up before the pass returns to it. Both positions go
back, and the measure becomes smaller all the same. -/
theorem wildcard_pass_in_range_return :
    let t := (foldedChars "Aaab").toArray
    let p := (foldedChars "%aAb").toArray
    let c : Cursor := ⟨2, 3, some (0, 0)⟩
    let c' : Cursor := ⟨1, 1, some (0, 1)⟩
    Reached t p c ∧ Turn t p c c' ∧
      Prod.Lex (· < ·) (Prod.Lex (· < ·) (· < ·)) (c'.rank t p) (c.rank t p) ∧
      Ends t p {} (.ok (wildcardMatch "Aaab" "%aAb")) := by
  intro t p c c'
  have hopened : Turn t p {} ⟨0, 1, some (0, 0)⟩ := ⟨by decide, rfl⟩
  have hfirst : Turn t p ⟨0, 1, some (0, 0)⟩ ⟨1, 2, some (0, 0)⟩ := ⟨by decide, rfl⟩
  have hsecond : Turn t p ⟨1, 2, some (0, 0)⟩ c := ⟨by decide, rfl⟩
  have hreached : Reached t p c := .head hopened (.head hfirst (.single hsecond))
  have hturn : Turn t p c c' := ⟨by decide, rfl⟩
  obtain ⟨-, hcursor, hends⟩ := wildcard_pass_in_range "Aaab" "%aAb"
  exact ⟨hreached, hturn, (hcursor c hreached).1 c' hturn, (hends _).mpr rfl⟩

end CorpusQuery

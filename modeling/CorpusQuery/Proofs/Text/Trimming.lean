import CorpusQuery.Text.Blank
import Mathlib.Data.List.DropRight

/-!
# White space around a text

Trimming cuts a text into three: white space, a text without white space at either end, and white
space again. There is only one such cut if the middle is not empty, and the middle is what trimming
leaves in any case. So a text is trimmed by finding a cut, and no cut needs to be computed.
-/

namespace CorpusQuery.Text

variable {cs front back : List Char}

/-- The text has no white space at either end. -/
structure Trimmed (cs : List Char) : Prop where
  head : ∀ c, cs.head? = some c → isBlank c = false
  last : ∀ c, cs.getLast? = some c → isBlank c = false

theorem Trimmed.of_forall (h : ∀ c ∈ cs, isBlank c = false) : Trimmed cs :=
  ⟨fun c hc ↦ h c (List.mem_of_head? hc), fun c hc ↦ h c (List.mem_of_getLast? hc)⟩

theorem isBlank_of_head?_dropWhile {c : Char} (h : (cs.dropWhile isBlank).head? = some c) :
    isBlank c = false := by
  have hnot := List.head?_dropWhile_not isBlank cs
  rwa [h] at hnot

theorem dropWhile_of_head? (h : ∀ c, cs.head? = some c → isBlank c = false) :
    cs.dropWhile isBlank = cs := by
  cases cs with
  | nil => rfl
  | cons c cs => exact List.dropWhile_cons_of_neg (by rw [h c rfl]; exact Bool.false_ne_true)

/-- **Cuts.** What stands between white space is what trimming leaves. -/
theorem trimChars_of_cut (hfront : ∀ c ∈ front, isBlank c = true)
    (hback : ∀ c ∈ back, isBlank c = true) (hcs : Trimmed cs) :
    trimChars (front ++ cs ++ back) = cs := by
  rw [trimChars, dropAround, List.append_assoc, List.dropWhile_append_of_pos hfront]
  cases cs with
  | nil =>
    rw [List.nil_append, List.dropWhile_eq_nil_iff.mpr hback]
    rfl
  | cons c cs =>
    have hhead : (c :: cs ++ back).dropWhile isBlank = c :: cs ++ back :=
      dropWhile_of_head? fun d hd ↦ hcs.head d hd
    have hlast : (c :: cs).reverse.dropWhile isBlank = (c :: cs).reverse :=
      dropWhile_of_head? fun d hd ↦ hcs.last d (List.head?_reverse ▸ hd)
    rw [hhead, List.reverse_append, List.dropWhile_append_of_pos, hlast, List.reverse_reverse]
    exact fun d hd ↦ hback d (List.mem_reverse.mp hd)

theorem Trimmed.trimChars_eq (h : Trimmed cs) : trimChars cs = cs := by
  have hcut : trimChars ([] ++ cs ++ []) = cs := trimChars_of_cut nofun nofun h
  rwa [List.nil_append, List.append_nil] at hcut

theorem dropWhile_eq_append (cs : List Char) :
    cs.dropWhile isBlank = trimChars cs ++ (cs.dropWhile isBlank).rtakeWhile isBlank :=
  List.rdropWhile_append_rtakeWhile.symm

theorem trimmed_trimChars (cs : List Char) : Trimmed (trimChars cs) where
  head := by
    intro c hc
    have hfront : (cs.dropWhile isBlank).head? = some c := by
      rw [dropWhile_eq_append, List.head?_append, hc, Option.some_or]
    exact isBlank_of_head?_dropWhile hfront
  last := by
    intro c hc
    rw [trimChars, dropAround, List.getLast?_reverse] at hc
    exact isBlank_of_head?_dropWhile hc

theorem exists_cut (cs : List Char) : ∃ front back, cs = front ++ trimChars cs ++ back ∧
    (∀ c ∈ front, isBlank c = true) ∧ ∀ c ∈ back, isBlank c = true := by
  refine ⟨cs.takeWhile isBlank, (cs.dropWhile isBlank).rtakeWhile isBlank, ?_,
    fun c ↦ List.mem_takeWhile_imp, fun c ↦ List.mem_rtakeWhile_imp⟩
  rw [List.append_assoc, ← dropWhile_eq_append, List.takeWhile_append_dropWhile]

theorem trimChars_eq_nil_iff : trimChars cs = [] ↔ ∀ c ∈ cs, isBlank c = true := by
  constructor
  · intro h
    obtain ⟨front, back, hcs, hfront, hback⟩ := exists_cut cs
    rw [h, List.append_nil] at hcs
    rw [hcs]
    exact List.forall_mem_append.mpr ⟨hfront, hback⟩
  · intro h
    have hcut : trimChars (cs ++ [] ++ []) = [] := trimChars_of_cut h nofun ⟨nofun, nofun⟩
    rwa [List.append_nil, List.append_nil] at hcut

end CorpusQuery.Text

import CorpusQuery.RowExpr
import Mathlib.Data.List.Basic

/-!
# The columns of a row expression

The columns of an expression are collected from left to right, and a column that was met before is
not collected again. So every column that the expression mentions is collected once, and in the
order in which the columns come up first. Which columns are collected does not depend on that order:
they are those that the expression names.

## Main statements

* `RowExpr.firstMentions_columns`: the list of columns.
* `RowExpr.mem_columns`: what is in it.
-/

namespace CorpusQuery.RowExpr

/-- The expression names a column. -/
def Names (c : String) : RowExpr → Prop
  | .column name => c = name
  | .literal _ => False
  | .strip e _ | .test e _ _ | .isIn e _ | .not e => e.Names c
  | .compare l _ r | .and l r | .or l r => l.Names c ∨ r.Names c

/-- The columns from left to right, once for each time that they are mentioned. -/
def mentions : RowExpr → List String
  | .column name => [name]
  | .literal _ => []
  | .strip e _ | .test e _ _ | .isIn e _ | .not e => e.mentions
  | .compare l _ r | .and l r | .or l r => l.mentions ++ r.mentions

variable {c : String} {e : RowExpr} {seen all : List String}

theorem mem_mentions : c ∈ e.mentions ↔ e.Names c := by
  induction e with
  | column name => exact List.mem_singleton
  | literal v => exact List.mem_nil_iff c
  | strip e _ ih | test e _ _ ih | isIn e _ ih | not e ih => exact ih
  | compare l _ r ihl ihr | and l r ihl ihr | or l r ihl ihr =>
    rw [mentions, List.mem_append, ihl, ihr, Names]

/-! ## Collecting -/

/-- What was seen are the names of a list in the order in which they come up first there. -/
structure FirstMentions (seen all : List String) : Prop where
  mem_iff : ∀ {c}, c ∈ seen ↔ c ∈ all
  ordered : seen.Pairwise fun c d ↦ all.idxOf c < all.idxOf d

namespace FirstMentions

theorem nil : FirstMentions [] [] := ⟨Iff.rfl, .nil⟩

theorem nodup (h : FirstMentions seen all) : seen.Nodup := by
  refine h.ordered.imp fun hlt heq ↦ ?_
  rw [heq] at hlt
  exact Nat.lt_irrefl _ hlt

/-- What comes behind does not change where the names that were seen come up first. -/
theorem ordered_append (h : FirstMentions seen all) (more : List String) :
    seen.Pairwise fun c d ↦ (all ++ more).idxOf c < (all ++ more).idxOf d := by
  refine h.ordered.imp_of_mem fun hc hd hlt ↦ ?_
  rwa [List.idxOf_append_of_mem (h.mem_iff.mp hc), List.idxOf_append_of_mem (h.mem_iff.mp hd)]

theorem skip (h : FirstMentions seen all) (hc : c ∈ seen) : FirstMentions seen (all ++ [c]) where
  mem_iff := by
    intro d
    rw [List.mem_append, List.mem_singleton, ← h.mem_iff]
    refine ⟨.inl, ?_⟩
    rintro (hd | rfl)
    · exact hd
    · exact hc
  ordered := h.ordered_append [c]

theorem add (h : FirstMentions seen all) (hc : c ∉ seen) :
    FirstMentions (seen ++ [c]) (all ++ [c]) where
  mem_iff := by
    intro d
    rw [List.mem_append, List.mem_append, h.mem_iff]
  ordered := by
    refine List.pairwise_append.mpr ⟨h.ordered_append [c], List.pairwise_singleton _ _, ?_⟩
    intro b hb d hd
    obtain rfl := List.mem_singleton.mp hd
    have hb : b ∈ all := h.mem_iff.mp hb
    -- The new name stands behind everything that was there before.
    rw [List.idxOf_append_of_mem hb, List.idxOf_append_of_notMem (mt h.mem_iff.mpr hc)]
    exact Nat.lt_add_right _ (List.idxOf_lt_length_of_mem hb)

/-- **Collecting.** An expression goes on where the collection before it stopped. -/
theorem collect (h : FirstMentions seen all) (e : RowExpr) :
    FirstMentions (e.collectColumns seen) (all ++ e.mentions) := by
  induction e generalizing seen all with
  | column name =>
    rw [collectColumns, mentions]
    split
    · next hseen => exact h.skip (List.contains_iff_mem.mp hseen)
    · next hseen => exact h.add (mt List.contains_iff_mem.mpr hseen)
  | literal v =>
    rw [collectColumns, mentions, List.append_nil]
    exact h
  | strip e _ ih | test e _ _ ih | isIn e _ ih | not e ih => exact ih h
  | compare l _ r ihl ihr | and l r ihl ihr | or l r ihl ihr =>
    rw [collectColumns, mentions, ← List.append_assoc]
    exact ihr (ihl h)

end FirstMentions

/-- **The list of columns.** It has every column that is mentioned once, by first mention. -/
theorem firstMentions_columns (e : RowExpr) : FirstMentions e.columns e.mentions :=
  FirstMentions.nil.collect e

theorem mem_columns : c ∈ e.columns ↔ e.Names c :=
  (firstMentions_columns e).mem_iff.trans mem_mentions

end CorpusQuery.RowExpr

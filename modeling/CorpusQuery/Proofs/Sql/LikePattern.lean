import CorpusQuery.Proofs.RowExpr.WildcardPass
import CorpusQuery.Proofs.Sql.StoredCell

/-!
# Both readings of `LIKE`

A statement reads a pattern part by part and tries every end of the text behind a run; a flat table
is searched in one pass. The first is the search for pieces that the characters of the pattern stand
for, so where the text has no `%` that the pass could take for one of the pattern, both find the
same texts. Compound words, which have the compound marker somewhere in their lemma, are asked for
in this way.
-/

namespace CorpusQuery

open Wildcard (Like StandsFor)

namespace Sql

namespace Pattern

theorem ofLike_char {p : Char} (hp : p ≠ '%') (ps : List Char) :
    ∃ part, part ≠ .run ∧ ofLike (p :: ps) = part :: ofLike ps ∧
      ∀ c : Char, part.takes c = true ↔ StandsFor p.toLower [c.toLower] := by
  have hnot : p.toLower ≠ '%' := mt (toLower_eq_iff (by decide)).mp hp
  by_cases hany : p = '_'
  · subst hany
    exact ⟨.any, nofun, rfl, fun c ↦ iff_of_true rfl (.inr (.inl ⟨rfl, rfl⟩))⟩
  · have hnotAny : p.toLower ≠ '_' := mt (toLower_eq_iff (by decide)).mp hany
    refine ⟨.folded p, nofun, ?_, fun c ↦ ?_⟩
    · rw [ofLike, List.map_cons, if_neg (mt beq_iff_eq.mp hp), if_neg (mt beq_iff_eq.mp hany)]
      rfl
    · simp [PatternPart.takes, StandsFor, hnot, hnotAny]

theorem covers_char {part : PatternPart} (hpart : part ≠ .run) (parts : Pattern) (cs : List Char) :
    covers (part :: parts) cs = true ↔
      ∃ c rest, cs = c :: rest ∧ part.takes c = true ∧ covers parts rest = true := by
  cases cs with
  | nil =>
    rw [covers]
    · simp
    · exact hpart
  | cons c cs =>
    have hcons : covers (part :: parts) (c :: cs) = (part.takes c && covers parts cs) := by
      rw [covers]
      exact hpart
    rw [hcons, Bool.and_eq_true]
    constructor
    · rintro ⟨htakes, hrest⟩
      exact ⟨c, cs, rfl, htakes, hrest⟩
    · rintro ⟨_, _, heq, htakes, hrest⟩
      obtain ⟨rfl, rfl⟩ := List.cons.inj heq
      exact ⟨htakes, hrest⟩

/-- **As `LIKE`.** A text is covered by a pattern if it is like it up to the case of letters. -/
theorem covers_ofLike_iff (ps cs : List Char) :
    (ofLike ps).covers cs = true ↔ Like (ps.map Char.toLower) (cs.map Char.toLower) := by
  induction ps generalizing cs with
  | nil =>
    rw [List.map_nil, Wildcard.like_nil_iff, List.map_eq_nil_iff]
    exact List.isEmpty_iff
  | cons p ps ih =>
    rw [List.map_cons, Wildcard.like_cons_iff]
    by_cases hrun : p = '%'
    · subst hrun
      have hread : ofLike ('%' :: ps) = .run :: ofLike ps := rfl
      rw [hread, covers, anyEnd_iff]
      constructor
      · rintro ⟨rest, ⟨piece, rfl⟩, hrest⟩
        exact ⟨_, _, .inl rfl, (ih rest).mp hrest, List.map_append⟩
      · rintro ⟨piece, rest, -, hrest, heq⟩
        obtain ⟨front, back, rfl, rfl, rfl⟩ := List.map_eq_append_iff.mp heq
        exact ⟨back, List.suffix_append _ _, (ih back).mpr hrest⟩
    · obtain ⟨part, hpart, hread, htakes⟩ := ofLike_char hrun ps
      rw [hread, covers_char hpart]
      constructor
      · rintro ⟨c, rest, rfl, hc, hrest⟩
        exact ⟨_, _, (htakes c).mp hc, (ih rest).mp hrest, rfl⟩
      · rintro ⟨piece, rest, hp, hrest, heq⟩
        obtain ⟨d, rfl⟩ := hp.eq_singleton (mt (toLower_eq_iff (by decide)).mp hrun)
        obtain ⟨c, back, rfl, rfl, rfl⟩ := List.map_eq_cons_iff.mp heq
        exact ⟨c, back, rfl, (htakes c).mpr hp, (ih back).mpr hrest⟩

end Pattern

end Sql

/-- **Both readings.** The pass finds a pattern in a text without `%` if a statement does. -/
theorem wildcardMatch_eq_covers {text pattern : String} (h : '%' ∉ text.toList) :
    wildcardMatch text pattern = (Sql.Pattern.ofLike pattern.toList).covers text.toList := by
  rw [Bool.eq_iff_iff, wildcardMatch_iff_like (.inl h), Sql.Pattern.covers_ofLike_iff]
  rfl

namespace Sql

variable {scope : Scope} {e : Expr} {v : Value}

/-- **In a cell.** The condition and the test find the same cells. -/
theorem HasCell.truth_like (h : HasCell scope e v) (hv : v.TextCell) (pattern : String)
    (hpercent : ∀ s, v = .text s → Text.hasChar s '%' = false) :
    (Expr.binary e .like (.value (.text pattern))).truth scope = v.testTruth .like pattern := by
  rw [truth_binary_value, h.eval]
  cases hv with
  | null => rfl
  | text s =>
    have hs : '%' ∉ s.toList := by simpa [Text.hasChar] using hpercent s rfl
    exact congrArg some (wildcardMatch_eq_covers hs).symm

end Sql

end CorpusQuery

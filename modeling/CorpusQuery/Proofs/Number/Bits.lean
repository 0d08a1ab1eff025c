import CorpusQuery.Proofs.Number.Exact

/-!
# Equal doubles and equal bits

A double that is a number is determined by its sign and its magnitude. Equal doubles agree in both,
and so in their bits, unless they are the two zeros.
-/

namespace CorpusQuery.Number

open Float.Model (UnpackedFloat)
open Float.Model.UnpackedFloat (Sign)

variable {x y : Float}

theorem eq_of_magnitude_eq (hsign : isNegative x = isNegative y)
    (hmagnitude : magnitude x = magnitude y) (hnumber : magnitude x ≠ .undefined) : x = y := by
  have hx : x.toBits.toNat < 2 ^ 64 := x.toBits.toNat_lt
  have hy : y.toBits.toNat < 2 ^ 64 := y.toBits.toNat_lt
  have hnegative : x.toBits.toNat / 2 ^ 63 = 1 ↔ y.toBits.toNat / 2 ^ 63 = 1 := by
    rwa [isNegative, isNegative, Bool.eq_iff_iff, beq_iff_eq, beq_iff_eq] at hsign
  have hfields : x.toBits.toNat / 2 ^ 52 % 2 ^ 11 = y.toBits.toNat / 2 ^ 52 % 2 ^ 11 ∧
      x.toBits.toNat % 2 ^ 52 = y.toBits.toNat % 2 ^ 52 := by
    rw [magnitude_eq] at hmagnitude hnumber
    rw [magnitude_eq] at hmagnitude
    split_ifs at hmagnitude hnumber <;> simp_all <;> omega
  rw [← Float.toBits_inj, ← UInt64.toNat_inj]
  omega

/-- What is read from equal doubles is the same, unless it is a zero each time. -/
theorem eq_or_zeros_of_compare_eq {u v : UnpackedFloat} (h : u.compare v = some .eq) :
    u = v ∨ ∃ s s', u = .zero s ∧ v = .zero s' := by
  cases u with
  | notANumber => cases h
  | infinity s =>
    cases v with
    | infinity s' => cases s <;> cases s' <;> first | exact .inl rfl | cases h
    | notANumber | zero | finite => cases s <;> cases h
  | zero s =>
    cases v with
    | zero s' => exact .inr ⟨s, s', rfl, rfl⟩
    | notANumber => cases h
    | infinity s' | finite s' => cases s' <;> cases h
  | finite s m e hm =>
    cases v with
    | notANumber | zero => cases s <;> cases h
    | infinity s' => cases s <;> cases s' <;> cases h
    | finite s' m' e' hm' =>
      cases s <;> cases s'
      case negative.positive | positive.negative => cases h
      all_goals
        simp only [UnpackedFloat.compare, Option.some.injEq, Ordering.swap_eq_eq,
          Ordering.then_eq_eq, compare_eq_iff_eq] at h
        obtain ⟨rfl, rfl⟩ := h
        exact .inl rfl

theorem magnitude_eq_of_beq (h : (x == y) = true) :
    magnitude x = .finite 0 (-1074) ∧ magnitude y = .finite 0 (-1074) ∨
      isNegative x = isNegative y ∧ magnitude x = magnitude y ∧ magnitude x ≠ .undefined := by
  have hsign : sign x = sign y → isNegative x = isNegative y := by
    rw [sign, sign]
    cases isNegative x <;> cases isNegative y <;> simp
  have hx := reads_unpack x
  have hy := reads_unpack y
  rw [beq_iff] at h
  generalize magnitude x = mx, x.toModel.unpack = u at h hx ⊢
  generalize magnitude y = my, y.toModel.unpack = v at h hy ⊢
  rcases eq_or_zeros_of_compare_eq h with hsame | ⟨s, s', rfl, rfl⟩
  · cases hx with
    | undefined =>
      rw [← hsame] at h
      cases h
    | infinite =>
      cases hy with
      | infinite => exact .inr ⟨hsign (UnpackedFloat.infinity.inj hsame), rfl, by simp⟩
      | undefined | zero | finite => cases hsame
    | zero =>
      cases hy with
      | zero => exact .inl ⟨rfl, rfl⟩
      | undefined | infinite | finite => cases hsame
    | finite =>
      cases hy with
      | finite =>
        obtain ⟨hs, rfl, rfl⟩ := UnpackedFloat.finite.inj hsame
        exact .inr ⟨hsign hs, rfl, by simp⟩
      | undefined | infinite | zero => cases hsame
  · cases hx
    cases hy
    exact .inl ⟨rfl, rfl⟩

theorem eq_zero_of_magnitude (h : magnitude x = .finite 0 (-1074)) : x = 0 ∨ x = -0 := by
  have hpositive : magnitude 0 = .finite 0 (-1074) ∧ isNegative 0 = false := by decide
  have hnegative : magnitude (-0) = .finite 0 (-1074) ∧ isNegative (-0) = true := by decide
  have hnumber : magnitude x ≠ .undefined := h ▸ nofun
  cases hsign : isNegative x with
  | false =>
    have hsame := hsign.trans hpositive.2.symm
    exact .inl (eq_of_magnitude_eq hsame (h.trans hpositive.1.symm) hnumber)
  | true =>
    have hsame := hsign.trans hnegative.2.symm
    exact .inr (eq_of_magnitude_eq hsame (h.trans hnegative.1.symm) hnumber)

theorem beq_self_iff : (x == x) = true ↔ x.isNaN = false := by
  rw [beq_iff_value?, ← Bool.not_eq_true, isNaN_iff]
  simp [Option.ne_none_iff_exists']

/-- **Equal doubles.** They have the same bits, or are the two zeros. -/
theorem beq_iff_eq_or_zeros :
    (x == y) = true ↔ x = y ∧ x.isNaN = false ∨ x = 0 ∧ y = -0 ∨ x = -0 ∧ y = 0 := by
  constructor
  · intro h
    have heq (hxy : x = y) : x = y ∧ x.isNaN = false := ⟨hxy, beq_self_iff.mp (hxy ▸ h)⟩
    rcases magnitude_eq_of_beq h with ⟨hx, hy⟩ | ⟨hsign, hmagnitude, hnumber⟩
    · rcases eq_zero_of_magnitude hx with rfl | rfl <;>
        rcases eq_zero_of_magnitude hy with rfl | rfl
      · exact .inl (heq rfl)
      · exact .inr (.inl ⟨rfl, rfl⟩)
      · exact .inr (.inr ⟨rfl, rfl⟩)
      · exact .inl (heq rfl)
    · exact .inl (heq (eq_of_magnitude_eq hsign hmagnitude hnumber))
  · rintro (⟨rfl, hx⟩ | ⟨rfl, rfl⟩ | ⟨rfl, rfl⟩)
    · exact beq_self_iff.mpr hx
    · decide
    · decide

/-- Doubles that are equal and have the same bits are the same number. -/
theorem beq_and_toBits_iff :
    (x == y && x.toBits == y.toBits) = true ↔ x = y ∧ x.isNaN = false := by
  rw [Bool.and_eq_true, beq_iff_eq (a := x.toBits), Float.toBits_inj]
  constructor
  · rintro ⟨h, rfl⟩
    exact ⟨rfl, beq_self_iff.mp h⟩
  · rintro ⟨rfl, hx⟩
    exact ⟨beq_self_iff.mpr hx, rfl⟩

end CorpusQuery.Number

import CorpusQuery.Proofs.Number.Exact
import Mathlib.Tactic.NormNum

/-!
# Whole numbers become doubles

A row expression that compares a whole number with a double converts the whole number first, while a
database compares the two as they are. Conversion rounds: a significand of 53 bits is kept, and the
bits behind it decide whether it is increased by one. So a whole number of at most 53 bits stays
what it is, and a longer one may move, but not out of the range between `2 ^ 53` and `2 ^ 63`.

This is enough to see where rounding shows. A double that stands for no whole number is smaller than
`2 ^ 53`, so no number crosses it; and of the whole numbers behind those of 64 bits only the first
one can be reached.

## Main statements

* `exists_value?_ofInt`: what a whole number is converted to.
* `order_ofInt`: how it compares with a double afterwards.
-/

namespace CorpusQuery.Number

open Float.Model (UnpackedFloat Format totalExponent)
open Float.Model.UnpackedFloat (Sign ExtendedMantissa roundWithAccuracy shiftToTargetExponent
  packComponents)

/-! ## Rounding -/

theorem mantissa_shiftRight (em : ExtendedMantissa) (k : ℕ) :
    (em >>> k).mantissa = em.mantissa / 2 ^ k := by
  induction k with
  | zero => exact (Nat.div_one _).symm
  | succ k ih =>
    change (em >>> k).mantissa / 2 = _
    rw [ih, Nat.div_div_eq_div_mul, Nat.pow_succ]

theorem shiftRight_of_dvd {m k : ℕ} (h : 2 ^ k ∣ m) :
    (⟨m, false, false⟩ : ExtendedMantissa) >>> k = ⟨m / 2 ^ k, false, false⟩ := by
  induction k with
  | zero =>
    rw [pow_zero, Nat.div_one]
    rfl
  | succ k ih =>
    obtain ⟨l, rfl⟩ := h
    have hdiv : 2 ^ (k + 1) * l / 2 ^ k = 2 * l := by
      rw [pow_succ, mul_assoc, Nat.mul_div_cancel_left _ (Nat.two_pow_pos k)]
    have hprev := ih (Dvd.dvd.mul_right (pow_dvd_pow 2 (Nat.le_succ k)) l)
    rw [hdiv] at hprev
    change ((⟨2 ^ (k + 1) * l, false, false⟩ : ExtendedMantissa) >>> k).shiftRightOne = _
    rw [hprev, Nat.mul_div_cancel_left _ (Nat.two_pow_pos (k + 1)), ExtendedMantissa.shiftRightOne]
    simp

theorem le_roundedMantissa (em : ExtendedMantissa) :
    em.mantissa ≤ em.roundedMantissa ∧ em.roundedMantissa ≤ em.mantissa + 1 := by
  obtain ⟨m, roundBit, stickyBit⟩ := em
  have hmod := Nat.mod_lt m Nat.two_pos
  cases roundBit <;> cases stickyBit <;>
    simp only [ExtendedMantissa.roundedMantissa, ExtendedMantissa.accuracy,
      UnpackedFloat.Accuracy.roundToNearestEven] <;> omega

/-- A significand of full length, with an exponent that doubles have. -/
structure Normal (m : ℕ) (e : ℤ) : Prop where
  full : 2 ^ 52 ≤ m
  short : m < 2 ^ 53
  least : -1074 ≤ e
  greatest : e ≤ 971

/-- A number is shifted so that its significand has full length. -/
theorem shiftToTargetExponent_eq {m k : ℕ} {e : ℤ} (hm : m.log2 = 52 + k) (he : -1074 ≤ e + k) :
    shiftToTargetExponent .binary64 m e .exact
      = ((⟨m, false, false⟩ : ExtendedMantissa) >>> k, e + k) := by
  have htarget : Format.binary64.targetExponent (totalExponent m e) = e + k := by
    simp only [Format.targetExponent, totalExponent, Format.mantissaBits, Format.minExponent, hm]
    norm_num
    omega
  have hshift : (e + k - e).toNat = k := by omega
  rw [shiftToTargetExponent, htarget, UnpackedFloat.shiftToExponent, hshift]
  rfl

theorem log2_of_full {m k : ℕ} (hfull : 2 ^ k ≤ m) (hshort : m < 2 ^ (k + 1)) : m.log2 = k := by
  have hne : m ≠ 0 := Nat.pos_iff_ne_zero.mp (lt_of_lt_of_le (Nat.two_pow_pos k) hfull)
  exact (Nat.log2_eq_iff hne).mpr ⟨hfull, hshort⟩

theorem div_full_of_log2 {m k : ℕ} (hm : m.log2 = 52 + k) :
    2 ^ 52 ≤ m / 2 ^ k ∧ m / 2 ^ k < 2 ^ 53 := by
  have hne : m ≠ 0 := by
    rintro rfl
    rw [Nat.log2_zero] at hm
    omega
  constructor
  · rw [Nat.le_div_iff_mul_le (Nat.two_pow_pos k), ← pow_add, ← hm]
    exact Nat.log2_self_le hne
  · rw [Nat.div_lt_iff_lt_mul (Nat.two_pow_pos k), ← pow_add]
    refine lt_of_lt_of_le (Nat.lt_log2_self (n := m)) ?_
    rw [hm]
    exact Nat.pow_le_pow_right Nat.two_pos (by omega)

/-- Rounded to its leading bits, a long significand has full length or is the least one that is
longer, and nothing is lost if the bits behind them are zero. -/
theorem roundedMantissa_of_log2 {m k : ℕ} (hm : m.log2 = 52 + k) :
    let r := ((⟨m, false, false⟩ : ExtendedMantissa) >>> k).roundedMantissa
    2 ^ 52 ≤ r ∧ r ≤ 2 ^ 53 ∧ (2 ^ k ∣ m → r * 2 ^ k = m) := by
  intro r
  obtain ⟨hlow, hhigh⟩ := div_full_of_log2 hm
  obtain ⟨hdown, hup⟩ := le_roundedMantissa ((⟨m, false, false⟩ : ExtendedMantissa) >>> k)
  rw [mantissa_shiftRight] at hdown hup
  refine ⟨hlow.trans hdown, hup.trans hhigh, fun hdvd ↦ ?_⟩
  have hr : r = m / 2 ^ k := congrArg ExtendedMantissa.roundedMantissa (shiftRight_of_dvd hdvd)
  rw [hr, Nat.div_mul_cancel hdvd]

/-- **Rounding.** A number with a long significand is rounded to one of the two nearest numbers with
a significand of full length, and to itself if it is one. -/
theorem exists_roundWithAccuracy (s : Sign) {m k : ℕ} {e : ℤ} (hm : m.log2 = 52 + k)
    (hleast : -1074 ≤ e + k) (hgreatest : e + k ≤ 970) :
    ∃ m' e', ∃ hpos : 0 < m', roundWithAccuracy .binary64 s m e .exact = .finite s m' e' hpos ∧
      Normal m' e' ∧ ∃ r, 2 ^ 52 ≤ r ∧ r ≤ 2 ^ 53 ∧ (2 ^ k ∣ m → r * 2 ^ k = m) ∧
        scaled m' e' = r * 2 ^ (e + k + 1074).toNat := by
  obtain ⟨hfull, hlong, hexact⟩ := roundedMantissa_of_log2 hm
  have hround : ∀ second, shiftToTargetExponent .binary64
        ((⟨m, false, false⟩ : ExtendedMantissa) >>> k).roundedMantissa (e + k) .exact = second →
      roundWithAccuracy .binary64 s m e .exact
        = if h : second.1.mantissa = 0 then .zero s
          else .finite s second.1.mantissa second.2 (Nat.pos_of_ne_zero h) := by
    rintro second rfl
    rw [roundWithAccuracy, shiftToTargetExponent_eq hm hleast]
  generalize ((⟨m, false, false⟩ : ExtendedMantissa) >>> k).roundedMantissa = r
    at hfull hlong hexact hround
  -- Rounding up can make the significand one bit too long, and then it ends with a zero.
  rcases hlong.lt_or_eq with hr | rfl
  · have hlog : r.log2 = 52 + 0 := log2_of_full hfull hr
    have hpos : 0 < r := lt_of_lt_of_le (Nat.two_pow_pos 52) hfull
    have hsecond : shiftToTargetExponent .binary64 r (e + k) .exact = (⟨r, false, false⟩, e + k) :=
      (shiftToTargetExponent_eq hlog (by omega)).trans (congrArg (Prod.mk _) (by omega))
    refine ⟨r, e + k, hpos, ?_, ⟨hfull, hr, hleast, by omega⟩, r, hfull, hlong, hexact, rfl⟩
    rw [hround _ hsecond]
    exact dif_neg hpos.ne'
  · have hlog : (2 ^ 53).log2 = 52 + 1 := by rw [Nat.log2_two_pow]
    have hsecond : shiftToTargetExponent .binary64 (2 ^ 53) (e + k) .exact
        = (⟨2 ^ 52, false, false⟩, e + k + 1) := shiftToTargetExponent_eq hlog (by omega)
    refine ⟨2 ^ 52, e + k + 1, by decide, ?_, ⟨le_rfl, by decide, by omega, by omega⟩, 2 ^ 53,
      hfull, le_rfl, hexact, ?_⟩
    · rw [hround _ hsecond]
      exact dif_neg (Nat.two_pow_pos 52).ne'
    · have hexponent : (e + k + 1 + 1074).toNat = (e + k + 1074).toNat + 1 := by omega
      rw [scaled, hexponent]
      ring

/-! ## Packing -/

theorem unpackSign_packComponents (s : Sign) (e : BitVec 11) (m : BitVec 52) :
    @UnpackedFloat.unpackSign .binary64 (@packComponents .binary64 s e m) = s.toBitVec := by
  simp only [UnpackedFloat.unpackSign, packComponents, BitVec.extractLsb]
  rw [BitVec.extractLsb'_append_eq_of_le (by omega),
    BitVec.extractLsb'_append_eq_of_le (by omega)]
  cases s <;> rfl

theorem unpack_pack {s : Sign} {m : ℕ} {e : ℤ} (hpos : 0 < m) (h : Normal m e) :
    (Float.Model.pack (.finite s m e hpos)).unpack = .finite s m e hpos := by
  obtain ⟨hfull, hshort, hleast, hgreatest⟩ := h
  have hlog : m.log2 = 52 := log2_of_full hfull hshort
  have hbias : Format.binary64.exponentBias = 1023 := rfl
  have hbits : Format.binary64.mantissaBits = 53 := rfl
  obtain ⟨biased, hbiased⟩ : ∃ biased : ℕ, (biased : ℤ) = e + 1075 := ⟨(e + 1075).toNat, by omega⟩
  have htoNat : (e + (1023 : ℕ) + (52 : ℕ)).toNat = biased := by omega
  have hexponent : (BitVec.ofNat 11 biased).toNat = biased := by
    rw [BitVec.toNat_ofNat, Nat.mod_eq_of_lt (by omega)]
  have hones : BitVec.ofNat 11 biased ≠ -1#11 := by
    intro h
    have := congrArg BitVec.toNat h
    rw [hexponent] at this
    have hones : (-1#11).toNat = 2047 := rfl
    omega
  have hzero : BitVec.ofNat 11 biased ≠ 0#11 := by
    intro h
    have := congrArg BitVec.toNat h
    rw [hexponent, BitVec.toNat_zero] at this
    omega
  have hmantissa : (1#1 ++ BitVec.ofNat 52 m).toNat = m := by
    rw [toNat_one_append, BitVec.toNat_ofNat]
    omega
  have hpack : UnpackedFloat.pack .binary64 (.finite s m e hpos)
      = @packComponents .binary64 s (BitVec.ofNat 11 biased) (BitVec.ofNat 52 m) := by
    simp only [UnpackedFloat.pack, hbias, hbits, hlog, htoNat]
    rw [if_neg (by omega), if_pos trivial]
  have hsign : Sign.ofBitVec s.toBitVec = s := by cases s <;> rfl
  rw [Float.Model.unpack, Float.Model.pack]
  change UnpackedFloat.unpack .binary64 (UnpackedFloat.pack .binary64 (.finite s m e hpos)) = _
  rw [hpack, UnpackedFloat.unpack]
  simp only [UnpackedFloat.unpackMantissa_packComponents,
    UnpackedFloat.unpackExponent_packComponents, unpackSign_packComponents, hsign, hones, hzero,
    if_false, hmantissa, hexponent, hbias]
  congr 1
  omega

/-- A double that is a normal number, in units of the least positive one. -/
def IsNormal (x : Float) (s : Sign) (l : ℕ) : Prop :=
  ∃ m e, ∃ hpos : 0 < m,
    x.toModel.unpack = .finite s m e hpos ∧ Normal m e ∧ scaled m e = l

variable {x : Float} {s : Sign} {l : ℕ}

theorem IsNormal.value? (h : IsNormal x s l) :
    value? x = some (((s.apply (l : ℤ) : ℤ) : WithTop ℤ) : WithBot (WithTop ℤ)) := by
  obtain ⟨m, e, hpos, hunpack, -, rfl⟩ := h
  have hx := reads_unpack x
  have hreads : ∀ mx u, Reads x mx u → u = .finite s m e hpos →
      s = sign x ∧ mx = .finite m e := by
    intro mx u hu heq
    cases hu with
    | undefined | infinite | zero => cases heq
    | finite hm hc =>
      cases heq
      exact ⟨rfl, rfl⟩
  obtain ⟨hsign, hmagnitude⟩ := hreads _ _ hx hunpack
  rw [Number.value?, hmagnitude, hsign, sign]
  cases isNegative x <;> rfl

theorem exists_isNormal_of_round {m k : ℕ} {e : ℤ}
    (hx : x.toModel = .pack (roundWithAccuracy .binary64 s m e .exact)) (hm : m.log2 = 52 + k)
    (hleast : -1074 ≤ e + k) (hgreatest : e + k ≤ 970) :
    ∃ r, 2 ^ 52 ≤ r ∧ r ≤ 2 ^ 53 ∧ (2 ^ k ∣ m → r * 2 ^ k = m) ∧
      IsNormal x s (r * 2 ^ (e + k + 1074).toNat) := by
  obtain ⟨m', e', hpos, hround, hnormal, r, hlow, hhigh, hexact, hscaled⟩ :=
    exists_roundWithAccuracy s hm hleast hgreatest
  refine ⟨r, hlow, hhigh, hexact, m', e', hpos, ?_, hnormal, hscaled⟩
  rw [hx, hround, unpack_pack hpos hnormal]

/-! ## Whole numbers -/

theorem log2_mul_two_pow {m : ℕ} (hm : m ≠ 0) (k : ℕ) : (m * 2 ^ k).log2 = m.log2 + k := by
  have hne : m * 2 ^ k ≠ 0 := Nat.mul_ne_zero hm (Nat.two_pow_pos k).ne'
  refine (Nat.log2_eq_iff hne).mpr ⟨?_, ?_⟩
  · rw [pow_add]
    exact Nat.mul_le_mul_right _ (Nat.log2_self_le hm)
  · rw [show m.log2 + k + 1 = m.log2 + 1 + k by omega, pow_add]
    exact Nat.mul_lt_mul_of_pos_right Nat.lt_log2_self (Nat.two_pow_pos k)

theorem isNormal_toFloat {n : ℕ} (hpos : 0 < n) (hn : n < 2 ^ 53) :
    IsNormal n.toUInt64.toFloat .positive (n * 2 ^ 1074) := by
  have htoNat : n.toUInt64.toNat = n := Nat.mod_eq_of_lt (by omega)
  have hlog : n.log2 ≤ 52 := Nat.lt_succ_iff.mp ((Nat.log2_lt hpos.ne').mpr hn)
  obtain ⟨j, hj⟩ : ∃ j, n.log2 + j = 52 := ⟨52 - n.log2, by omega⟩
  have htarget : Format.binary64.targetExponent (totalExponent n 0) = -(j : ℤ) := by
    simp only [Format.targetExponent, totalExponent, Format.mantissaBits, Format.minExponent]
    norm_num
    omega
  have hgt : compare (n : ℤ) 0 = .gt := compare_gt_iff_gt.mpr (Int.natCast_pos.mpr hpos)
  have hmodel : n.toUInt64.toFloat.toModel
      = .pack (roundWithAccuracy .binary64 .positive (n * 2 ^ j) (-j) .exact) := by
    change Float.Model.pack
      (UnpackedFloat.normalize .binary64 (n.toUInt64.toNat : ℤ) 0 .positive) = _
    have hshift : (0 - -(j : ℤ)).toNat = j := by omega
    have hexponent : (0 : ℤ) - (j : ℕ) = -j := by omega
    rw [htoNat, UnpackedFloat.normalize, hgt]
    simp only [UnpackedFloat.round, Int.toNat_natCast, htarget, UnpackedFloat.decreaseExponent,
      hshift, hexponent, Nat.shiftLeft_eq]
  obtain ⟨r, -, -, hexact, hnormal⟩ := exists_isNormal_of_round (k := 0) hmodel
    ((log2_mul_two_pow hpos.ne' j).trans hj) (by omega) (by omega)
  have hr : r = n * 2 ^ j := by simpa using hexact (one_dvd _)
  have hscaled : r * 2 ^ (-(j : ℤ) + (0 : ℕ) + 1074).toNat = n * 2 ^ 1074 := by
    rw [hr, mul_assoc, ← pow_add]
    congr 2
    omega
  rwa [hscaled] at hnormal

theorem unpack_one : (Float.exactlyRepresentablePowersOfTen[0]).toModel.unpack
    = .finite .positive (2 ^ 52) (-52) (by decide) := by
  rfl

theorem IsNormal.mul_one {b : ℕ} (h : IsNormal x s l) (hl : l < 2 ^ b) (hb : b ≤ 2000) :
    IsNormal (x * Float.exactlyRepresentablePowersOfTen[0]) s l := by
  obtain ⟨m, e, hpos, hunpack, hnormal, rfl⟩ := h
  have hlog : m.log2 = 52 := log2_of_full hnormal.full hnormal.short
  have hmodel : (x * Float.exactlyRepresentablePowersOfTen[0]).toModel
      = .pack (roundWithAccuracy .binary64 s (m * 2 ^ 52) (e - 52) .exact) := by
    change Float.Model.pack (UnpackedFloat.mul .binary64 x.toModel.unpack _) = _
    rw [hunpack, unpack_one]
    cases s <;> rfl
  have hleast := hnormal.least
  have hgreatest : (e + 1074).toNat < b :=
    (Nat.pow_lt_pow_iff_right Nat.one_lt_two).mp
      (lt_of_le_of_lt (Nat.le_mul_of_pos_left _ hpos) hl)
  obtain ⟨r, -, -, hexact, hrounded⟩ := exists_isNormal_of_round hmodel
    ((log2_mul_two_pow hpos.ne' 52).trans (congrArg (· + 52) hlog)) (by omega) (by omega)
  have hr : r = m := Nat.eq_of_mul_eq_mul_right (Nat.two_pow_pos 52) (hexact (Nat.dvd_mul_left _ _))
  have hexponent : e - 52 + (52 : ℕ) + 1074 = e + 1074 := by omega
  rwa [hr, hexponent] at hrounded

theorem exists_isNormal_ofScientific {n k : ℕ} (hlog : n.log2 = 52 + k) (hk : k ≤ 900)
    (hx : x.toModel = .ofScientific n 0) :
    ∃ r, 2 ^ 52 ≤ r ∧ r ≤ 2 ^ 53 ∧ (2 ^ k ∣ n → r * 2 ^ k = n) ∧
      IsNormal x .positive (r * 2 ^ k * 2 ^ 1074) := by
  have hne : n ≠ 0 := by
    rintro rfl
    rw [Nat.log2_zero] at hlog
    omega
  have hmodel : x.toModel
      = .pack (roundWithAccuracy .binary64 .positive (n * 2 ^ 53) (-53) .exact) := by
    have hnegative : ¬ (0 : ℤ) < -((2 ^ Format.binary64.exponentBits : ℤ) + n.log2) := by
      have hpow : (0 : ℤ) < 2 ^ Format.binary64.exponentBits := Int.pow_pos (by decide)
      omega
    rw [hx, Float.Model.ofScientific, UnpackedFloat.ofScientific, dif_neg hne, if_neg (by decide),
      if_neg hnegative, if_pos le_rfl, UnpackedFloat.mul, Nat.shiftLeft_eq]
    have hone : n * 2 ^ Format.binary64.mantissaBits * 10 ^ Int.toNat 0 = n * 2 ^ 53 :=
      Nat.mul_one _
    rw [hone]
    rfl
  obtain ⟨r, hlow, hhigh, hexact, hnormal⟩ := exists_isNormal_of_round (k := k + 53) hmodel
    (by rw [log2_mul_two_pow hne, hlog]; omega) (by omega) (by omega)
  refine ⟨r, hlow, hhigh, fun hdvd ↦ ?_, ?_⟩
  · have h := hexact (by rw [pow_add]; exact Nat.mul_dvd_mul_right hdvd _)
    rw [pow_add, ← mul_assoc] at h
    exact Nat.eq_of_mul_eq_mul_right (Nat.two_pow_pos 53) h
  · have hexponent : (-53 + ((k + 53 : ℕ) : ℤ) + 1074).toNat = k + 1074 := by omega
    rwa [hexponent, pow_add, ← mul_assoc] at hnormal

theorem IsNormal.neg (h : IsNormal x .positive l) : IsNormal x.neg .negative l := by
  obtain ⟨m, e, hpos, hunpack, hnormal, rfl⟩ := h
  refine ⟨m, e, hpos, ?_, hnormal, rfl⟩
  change (Float.Model.pack x.toModel.unpack.neg).unpack = _
  rw [hunpack]
  exact unpack_pack hpos hnormal

/-- A number that a significand of 53 bits is enough for. -/
def Short (n : ℕ) : Prop := ∃ m k, m < 2 ^ 53 ∧ n = m * 2 ^ k

theorem dvd_of_short {n k : ℕ} (h : Short n) (hlog : n.log2 = 52 + k) (hne : n ≠ 0) :
    2 ^ k ∣ n := by
  obtain ⟨m, k', hm, rfl⟩ := h
  have hlow : 2 ^ (52 + k) ≤ m * 2 ^ k' := hlog ▸ Nat.log2_self_le hne
  have hhigh : m * 2 ^ k' < 2 ^ (53 + k') := by
    rw [pow_add]
    exact Nat.mul_lt_mul_of_pos_right hm (Nat.two_pow_pos k')
  have hk : 52 + k < 53 + k' :=
    (Nat.pow_lt_pow_iff_right Nat.one_lt_two).mp (lt_of_le_of_lt hlow hhigh)
  exact Nat.dvd_mul_left_of_dvd (pow_dvd_pow 2 (by omega)) m

theorem exists_isNormal_ofNat {n : ℕ} (hpos : 0 < n) (hn : n ≤ 2 ^ 63) :
    ∃ l, IsNormal (Float.ofNat n) .positive (l * 2 ^ 1074) ∧ (Short n → l = n) ∧
      (2 ^ 53 ≤ n → 2 ^ 53 ≤ l ∧ l ≤ 2 ^ 63) := by
  rcases Nat.lt_or_ge n (2 ^ 53) with hsmall | hlarge
  · have hof : Float.ofNat n
        = n.toUInt64.toFloat * Float.exactlyRepresentablePowersOfTen[0] :=
      dif_pos ⟨hsmall, by decide⟩
    have hbound (b : ℕ) : n * 2 ^ b < 2 ^ (53 + b) := by
      rw [pow_add]
      exact Nat.mul_lt_mul_of_pos_right hsmall (Nat.two_pow_pos b)
    refine ⟨n, ?_, fun _ ↦ rfl, fun h ↦ absurd hsmall (Nat.not_lt.mpr h)⟩
    rw [hof]
    exact (isNormal_toFloat hpos hsmall).mul_one (hbound 1074) (by omega)
  · have hlog : 53 ≤ n.log2 := (Nat.le_log2 hpos.ne').mpr hlarge
    have hlog' : n.log2 ≤ 63 := by
      refine Nat.lt_succ_iff.mp ((Nat.log2_lt hpos.ne').mpr ?_)
      omega
    obtain ⟨k, hk⟩ : ∃ k, n.log2 = 52 + k := ⟨n.log2 - 52, by omega⟩
    have hof : (Float.ofNat n).toModel = .ofScientific n 0 :=
      congrArg Float.toModel (dif_neg fun h ↦ absurd h.1 (Nat.not_lt.mpr hlarge))
    obtain ⟨r, hlow, hhigh, hexact, hnormal⟩ := exists_isNormal_ofScientific hk (by omega) hof
    refine ⟨r * 2 ^ k, hnormal, fun hshort ↦ hexact (dvd_of_short hshort hk hpos.ne'), fun _ ↦ ?_⟩
    have htwo : 2 ^ 1 ≤ 2 ^ k := Nat.pow_le_pow_right Nat.two_pos (by omega)
    refine ⟨?_, ?_⟩
    · calc 2 ^ 53 = 2 ^ 52 * 2 ^ 1 := by norm_num
        _ ≤ r * 2 ^ k := Nat.mul_le_mul hlow htwo
    · rcases Nat.lt_or_ge k 11 with hk' | hk'
      · have hten : 2 ^ k ≤ 2 ^ 10 := Nat.pow_le_pow_right Nat.two_pos (by omega)
        calc r * 2 ^ k ≤ 2 ^ 53 * 2 ^ 10 := Nat.mul_le_mul hhigh hten
          _ = 2 ^ 63 := by norm_num
      · -- The only such number is the bound itself.
        have hbound : 2 ^ 63 ≤ n := by
          have := Nat.log2_self_le hpos.ne'
          rwa [show n.log2 = 63 by omega] at this
        have hshort : Short n := ⟨1, 63, by decide, by omega⟩
        rw [hexact (dvd_of_short hshort hk hpos.ne')]
        exact hn

/-- A whole number among the numbers that doubles stand for. -/
def wholeValue (n : ℤ) : WithBot (WithTop ℤ) := (units n : WithTop ℤ)

theorem compare_wholeValue (a b : ℤ) : compare (wholeValue a) (wholeValue b) = compare a b :=
  (compare_coe _ _).trans (compare_map units_strictMono a b)

/-- What is known of the whole number `l` that a whole number `n` is rounded to. -/
structure Rounds (n l : ℤ) : Prop where
  exact : Short n.natAbs → l = n
  large : 2 ^ 53 ≤ n → 2 ^ 53 ≤ l ∧ l ≤ 2 ^ 63
  small : n ≤ -2 ^ 53 → -2 ^ 63 ≤ l ∧ l ≤ -2 ^ 53

theorem Rounds.zero : Rounds 0 0 where
  exact _ := rfl
  large h := absurd h (by decide)
  small h := absurd h (by decide)

/-- **Converting whole numbers.** A whole number of 64 bits becomes a double that stands for a whole
number: the same one if a short significand is enough for it. -/
theorem exists_value?_ofInt {n : ℤ} (hn : n.natAbs ≤ 2 ^ 63) :
    ∃ l : ℤ, value? (Float.ofInt n) = some (wholeValue l) ∧ Rounds n l := by
  have hunits (l : ℕ) : ((l * 2 ^ 1074 : ℕ) : ℤ) = units l := by
    rw [units, Nat.cast_mul, Nat.cast_pow, Nat.cast_ofNat]
  rcases n with n | n
  · rcases Nat.eq_zero_or_pos n with rfl | hpos
    · have hzero : units 0 = 0 := Int.zero_mul _
      refine ⟨0, ?_, .zero⟩
      rw [wholeValue, hzero]
      rfl
    · obtain ⟨l, hnormal, hshort, hlarge⟩ := exists_isNormal_ofNat hpos hn
      refine ⟨l, ?_, fun h ↦ congrArg Nat.cast (hshort h), fun h ↦ ?_, fun h ↦ ?_⟩
      · rw [wholeValue, ← hunits]
        exact hnormal.value?
      · have hn' : (Int.ofNat n : ℤ) = (n : ℤ) := rfl
        obtain ⟨hlow, hhigh⟩ := hlarge (by omega)
        omega
      · have hnonneg : (0 : ℤ) ≤ Int.ofNat n := Int.natCast_nonneg n
        omega
  · have habs : (Int.negSucc n).natAbs = n + 1 := rfl
    rw [habs] at hn
    obtain ⟨l, hnormal, hshort, hlarge⟩ := exists_isNormal_ofNat n.succ_pos hn
    refine ⟨-l, ?_, fun h ↦ ?_, fun h ↦ ?_, fun h ↦ ?_⟩
    · have hneg : units (-l) = -units l := Int.neg_mul _ _
      rw [wholeValue, hneg, ← hunits]
      exact hnormal.neg.value?
    · rw [hshort h]
      rfl
    · omega
    · obtain ⟨hlow, hhigh⟩ := hlarge (by omega)
      omega

theorem Rounds.natAbs_le {n l : ℤ} (h : Rounds n l) : l.natAbs ≤ 2 ^ 63 := by
  rcases Nat.lt_or_ge n.natAbs (2 ^ 53) with hsmall | hlarge
  · have hl := h.exact ⟨n.natAbs, 0, hsmall, (Nat.mul_one _).symm⟩
    omega
  · rcases Int.natAbs_eq n with hn | hn
    · have hl := h.large (by omega)
      omega
    · have hl := h.small (by omega)
      omega

/-! ## Comparing with whole numbers -/

variable {m : ℕ} {e : ℤ}

theorem short_of_magnitude (h : magnitude x = .finite m e) : m < 2 ^ 53 := by
  have hx := reads_unpack x
  rw [h] at hx
  generalize x.toModel.unpack = u at hx
  cases hx with
  | zero => decide
  | finite hm hc => exact hc.short

theorem short_of_exactInt? {n : ℤ} (h : exactInt? x = some n) : Short n.natAbs := by
  rw [exactInt?] at h
  cases hx : magnitude x with
  | undefined | infinite =>
    rw [hx] at h
    cases h
  | finite m e =>
    have hm := short_of_magnitude hx
    have habs (l : ℕ) : (if isNegative x then -(l : ℤ) else (l : ℤ)).natAbs = l := by
      split
      · exact Int.natAbs_neg l
      · rfl
    rw [hx] at h
    dsimp only at h
    split at h
    case isTrue =>
      obtain rfl := Option.some.inj h
      exact ⟨m, e.toNat, hm, habs _⟩
    case isFalse =>
      split at h
      case isTrue =>
        obtain rfl := Option.some.inj h
        exact ⟨m / 2 ^ (-e).toNat, 0, lt_of_le_of_lt (Nat.div_le_self _ _) hm,
          (habs _).trans (Nat.mul_one _).symm⟩
      case isFalse => cases h

theorem value?_ofInt {n : ℤ} (h : exactInt? x = some n) (hn : n.natAbs ≤ 2 ^ 63) :
    value? (Float.ofInt n) = some (wholeValue n) := by
  obtain ⟨l, hvalue, hrounds⟩ := exists_value?_ofInt hn
  rw [hvalue, hrounds.exact (short_of_exactInt? h)]

/-- A finite double that stands for no whole number is small. -/
theorem value?_of_not_whole (h : magnitude x = .finite m e) (hwhole : exactInt? x = none) :
    ∃ b : ℤ, value? x = some ((b : WithTop ℤ) : WithBot (WithTop ℤ)) ∧
      units (-2 ^ 53) < b ∧ b < units (2 ^ 53) := by
  have hm := short_of_magnitude h
  have hexponent : e < 0 := by
    rw [exactInt?, h] at hwhole
    dsimp only at hwhole
    split at hwhole
    · cases hwhole
    · omega
  have hle : (2 : ℤ) ^ (e + 1074).toNat ≤ 2 ^ 1074 :=
    pow_le_pow_right₀ (by decide) (by omega)
  have hscaled : (scaled m e : ℤ) < units (2 ^ 53) := by
    rw [scaled, units, Nat.cast_mul, Nat.cast_pow, Nat.cast_ofNat]
    exact mul_lt_mul (by exact_mod_cast hm) hle (Int.pow_pos (by decide)) (by decide)
  have hneg : units (-2 ^ 53) = -units (2 ^ 53) := Int.neg_mul _ _
  refine ⟨signed (isNegative x) (scaled m e), ?_, ?_, ?_⟩
  · rw [value?, h]
    rfl
  · rw [signed, hneg]
    split <;> omega
  · rw [signed]
    split <;> omega

/-- **Whole numbers beside doubles.** Rounding a whole number of 64 bits does not change how it
compares with a double, unless the double stands for a whole number itself. It must not be the first
one behind those of 64 bits, which the last of them are rounded to. -/
theorem order_ofInt {n : ℤ} (hn : n.natAbs ≤ 2 ^ 63)
    (hx : ∀ k, exactInt? x = some k → 2 ^ 63 < k.natAbs) :
    order (Float.ofInt n) x = (value? x).map (compare (wholeValue n)) := by
  obtain ⟨l, hvalue, hrounds⟩ := exists_value?_ofInt hn
  have hle := hrounds.natAbs_le
  rw [order_eq, hvalue, Option.bind_some]
  cases hmagnitude : magnitude x with
  | undefined =>
    have hnone : value? x = none := by
      rw [value?, hmagnitude]
      rfl
    rw [hnone]
    rfl
  | infinite =>
    rw [value?, hmagnitude]
    cases isNegative x <;> rfl
  | finite m e =>
    cases hexact : exactInt? x with
    | some k =>
      have hk := hx k hexact
      have hvalue' : value? x = some (wholeValue k) := value?_of_exactInt? hexact
      rw [hvalue', Option.map_some, Option.map_some, compare_wholeValue, compare_wholeValue]
      rcases Int.natAbs_eq k with h | h
      · rw [compare_lt_iff_lt.mpr (show l < k by omega),
          compare_lt_iff_lt.mpr (show n < k by omega)]
      · rw [compare_gt_iff_gt.mpr (show k < l by omega),
          compare_gt_iff_gt.mpr (show k < n by omega)]
    | none =>
      obtain ⟨b, hb, hlow, hhigh⟩ := value?_of_not_whole hmagnitude hexact
      rw [hb, Option.map_some, Option.map_some, wholeValue, wholeValue, compare_coe, compare_coe]
      have hmono {c d : ℤ} (h : c ≤ d) : units c ≤ units d := units_strictMono.monotone h
      rcases Nat.lt_or_ge n.natAbs (2 ^ 53) with hsmall | hlarge
      · rw [hrounds.exact ⟨n.natAbs, 0, hsmall, (Nat.mul_one _).symm⟩]
      · rcases Int.natAbs_eq n with h | h
        · have hn' : (2 : ℤ) ^ 53 ≤ n := by omega
          have hl := hmono (hrounds.large hn').1
          have hn'' := hmono hn'
          rw [compare_gt_iff_gt.mpr (hhigh.trans_le hl),
            compare_gt_iff_gt.mpr (hhigh.trans_le hn'')]
        · have hn' : n ≤ -2 ^ 53 := by omega
          have hl := hmono (hrounds.small hn').2
          have hn'' := hmono hn'
          rw [compare_lt_iff_lt.mpr (hl.trans_lt hlow),
            compare_lt_iff_lt.mpr (hn''.trans_lt hlow)]

end CorpusQuery.Number

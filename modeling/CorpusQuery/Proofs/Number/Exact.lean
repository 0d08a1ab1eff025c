import CorpusQuery.Sql.Datum
import Mathlib

/-!
# Doubles compare as the numbers they stand for

Every finite double is a whole multiple of the least positive one, `2 ^ -1074`. In this unit a
double stands for a whole number or for one of two infinities, unless it is no number, and whole
numbers have their place in the same order. How two doubles compare, and how a whole number compares
with a double, is how these numbers compare.

The engine compares exponents first and significands second. That is the order of the numbers only
because a double is written in one way: with a significand of full length, or with the least
exponent.
-/

namespace CorpusQuery.Number

open Float.Model (UnpackedFloat Format)
open Float.Model.UnpackedFloat (Sign)

/-! ## Reading a double -/

/-- The sign of a double. -/
def sign (x : Float) : Sign := if isNegative x then .negative else .positive

/-- A significand is of full length unless its exponent is the least one. -/
structure Canonical (m : ℕ) (e : ℤ) : Prop where
  least : -1074 ≤ e
  short : m < 2 ^ 53
  full : -1074 < e → 2 ^ 52 ≤ m

/-- A double, its magnitude and what the engine reads it as. -/
inductive Reads (x : Float) : Magnitude → UnpackedFloat → Prop
  | undefined : Reads x .undefined .notANumber
  | infinite : Reads x .infinite (.infinity (sign x))
  | zero : Reads x (.finite 0 (-1074)) (.zero (sign x))
  | finite {m : ℕ} {e : ℤ} (hm : 0 < m) (h : Canonical m e) :
    Reads x (.finite m e) (.finite (sign x) m e hm)

section Fields

variable (x : Float)

theorem toNat_unpackMantissa :
    (@UnpackedFloat.unpackMantissa .binary64 x.toModel.toBits.toBitVec).toNat
      = x.toBits.toNat % 2 ^ 52 := by
  simp [UnpackedFloat.unpackMantissa, Float.toBits]

theorem toNat_unpackExponent :
    (@UnpackedFloat.unpackExponent .binary64 x.toModel.toBits.toBitVec).toNat
      = x.toBits.toNat / 2 ^ 52 % 2 ^ 11 := by
  simp [UnpackedFloat.unpackExponent, Float.toBits, Nat.shiftRight_eq_div_pow]

theorem ofBitVec_unpackSign :
    Sign.ofBitVec
        (@UnpackedFloat.unpackSign .binary64 x.toModel.toBits.toBitVec) = sign x := by
  have hbits := x.toModel.toBits.toNat_lt
  have htoNat : (@UnpackedFloat.unpackSign .binary64
      x.toModel.toBits.toBitVec).toNat = x.toBits.toNat / 2 ^ 63 := by
    simp [UnpackedFloat.unpackSign, Float.toBits, Nat.shiftRight_eq_div_pow]
    omega
  have hzero : @UnpackedFloat.unpackSign .binary64 x.toModel.toBits.toBitVec = 0#1
      ↔ x.toBits.toNat / 2 ^ 63 = 0 := by
    rw [← BitVec.toNat_inj, htoNat]
    rfl
  have hone : isNegative x = true ↔ x.toBits.toNat / 2 ^ 63 = 1 := beq_iff_eq
  rw [Sign.ofBitVec, sign]
  have hlt : x.toBits.toNat / 2 ^ 63 < 2 := by
    have hbits' : x.toBits.toNat < 2 ^ 64 := hbits
    omega
  by_cases h : x.toBits.toNat / 2 ^ 63 = 0
  · rw [if_pos (hzero.mpr h), if_neg (by rw [hone]; omega)]
  · rw [if_neg (by rw [hzero]; exact h), if_pos (hone.mpr (by omega))]

end Fields

theorem toNat_one_append (v : BitVec 52) : (1#1 ++ v).toNat = 2 ^ 52 + v.toNat := by
  rw [BitVec.toNat_append, ← Nat.shiftLeft_add_eq_or_of_lt v.isLt]
  rfl

theorem magnitude_eq (x : Float) : magnitude x =
    if x.toBits.toNat / 2 ^ 52 % 2 ^ 11 = 2047 then
      if x.toBits.toNat % 2 ^ 52 = 0 then .infinite else .undefined
    else if x.toBits.toNat / 2 ^ 52 % 2 ^ 11 = 0 then
      .finite (x.toBits.toNat % 2 ^ 52) (-1074)
    else .finite (2 ^ 52 + x.toBits.toNat % 2 ^ 52)
      ((x.toBits.toNat / 2 ^ 52 % 2 ^ 11 : ℕ) - 1075) := by
  simp only [magnitude, beq_iff_eq]
  rfl

/-- **Reading.** The magnitude is what the engine reads. -/
theorem reads_unpack (x : Float) : Reads x (magnitude x) x.toModel.unpack := by
  have hfraction := toNat_unpackMantissa x
  have hexponent := toNat_unpackExponent x
  have hshort : x.toBits.toNat % 2 ^ 52 < 2 ^ 52 := Nat.mod_lt _ (by decide)
  have hbounded : x.toBits.toNat / 2 ^ 52 % 2 ^ 11 < 2 ^ 11 := Nat.mod_lt _ (by decide)
  have hones : (-1#11).toNat = 2047 := rfl
  have hbias : Format.binary64.exponentBias = 1023 := rfl
  rw [magnitude_eq, Float.Model.unpack, UnpackedFloat.unpack]
  simp only [ofBitVec_unpackSign, toNat_one_append, ← BitVec.toNat_inj, hfraction, hexponent,
    hones, hbias, BitVec.toNat_zero]
  by_cases hgreatest : x.toBits.toNat / 2 ^ 52 % 2 ^ 11 = 2047
  · rw [if_pos hgreatest, if_pos hgreatest]
    by_cases hzero : x.toBits.toNat % 2 ^ 52 = 0
    · rw [if_pos hzero, if_pos hzero]
      exact .infinite
    · rw [if_neg hzero, if_neg hzero]
      exact .undefined
  rw [if_neg hgreatest, if_neg hgreatest]
  by_cases hleast : x.toBits.toNat / 2 ^ 52 % 2 ^ 11 = 0
  · rw [if_pos hleast, if_pos hleast]
    by_cases hzero : x.toBits.toNat % 2 ^ 52 = 0
    · rw [dif_pos hzero, hzero]
      exact .zero
    · rw [dif_neg hzero]
      simp only [hleast]
      exact .finite (by omega) ⟨by decide, by omega, fun h ↦ absurd h (by decide)⟩
  · rw [if_neg hleast, if_neg hleast]
    exact .finite (by omega) ⟨by omega, by omega, fun _ ↦ by omega⟩

/-! ## The number that a double stands for -/

/-- The number `m · 2 ^ e` as a multiple of the least positive double. -/
def scaled (m : ℕ) (e : ℤ) : ℕ := m * 2 ^ (e + 1074).toNat

/-- A number with a sign. -/
def signed (negative : Bool) (n : ℕ) : ℤ := if negative then -n else n

/-- The number of a magnitude with a sign, in units of the least positive double. -/
def Magnitude.signed? (negative : Bool) : Magnitude → Option (WithBot (WithTop ℤ))
  | undefined => none
  | infinite => some (if negative then ⊥ else ⊤)
  | finite m e => some (signed negative (scaled m e) : WithTop ℤ)

/-- The number that a double stands for, in units of the least positive double. -/
def value? (x : Float) : Option (WithBot (WithTop ℤ)) := (magnitude x).signed? (isNegative x)

theorem scaled_lt_scaled {m m' : ℕ} {e e' : ℤ} (h : Canonical m e) (h' : Canonical m' e')
    (he : e < e') : scaled m e < scaled m' e' := by
  have hleast := h.least
  have hfull : 2 ^ 52 ≤ m' := h'.full (by omega)
  have hexponent : (e + 1074).toNat + 1 ≤ (e' + 1074).toNat := by omega
  calc scaled m e < 2 ^ 53 * 2 ^ (e + 1074).toNat :=
        Nat.mul_lt_mul_of_pos_right h.short (Nat.two_pow_pos _)
    _ = 2 ^ 52 * 2 ^ ((e + 1074).toNat + 1) := by ring
    _ ≤ 2 ^ 52 * 2 ^ (e' + 1074).toNat :=
        Nat.mul_le_mul_left _ (Nat.pow_le_pow_right Nat.two_pos hexponent)
    _ ≤ scaled m' e' := Nat.mul_le_mul_right _ hfull

theorem compare_map {α β : Type} [LinearOrder α] [LinearOrder β] {f : α → β} (hf : StrictMono f)
    (a b : α) : compare (f a) (f b) = compare a b := by
  rw [← cmp_eq_compare, hf.cmp_map_eq, cmp_eq_compare]

/-- **Canonical forms.** Numbers in canonical form compare by exponent first. -/
theorem compare_scaled {m m' : ℕ} {e e' : ℤ} (h : Canonical m e) (h' : Canonical m' e') :
    compare (scaled m e) (scaled m' e') = (compare e e').then (compare m m') := by
  rcases lt_trichotomy e e' with he | rfl | he
  · rw [compare_lt_iff_lt.mpr he, compare_lt_iff_lt.mpr (scaled_lt_scaled h h' he)]
    rfl
  · have hself : compare e e = .eq := compare_eq_iff_eq.mpr rfl
    have hmono : StrictMono fun m ↦ scaled m e :=
      fun m m' hm ↦ Nat.mul_lt_mul_of_pos_right hm (Nat.two_pow_pos _)
    rw [hself, compare_map hmono]
    rfl
  · rw [compare_gt_iff_gt.mpr he, compare_gt_iff_gt.mpr (scaled_lt_scaled h' h he)]
    rfl

theorem compare_coe (a b : ℤ) :
    compare ((a : WithTop ℤ) : WithBot (WithTop ℤ)) (b : WithTop ℤ) = compare a b :=
  compare_map (WithBot.coe_strictMono.comp WithTop.coe_strictMono) a b

/-- Signs come first, and turn the order around where they agree. -/
theorem compare_signed {a b : ℕ} (h : 0 < a ∨ 0 < b) (negative negative' : Bool) :
    compare (signed negative a) (signed negative' b) =
      match negative, negative' with
      | false, false => compare a b
      | true, true => (compare a b).swap
      | true, false => .lt
      | false, true => .gt := by
  have hcast : compare (a : ℤ) b = compare a b := compare_map Nat.strictMono_cast a b
  cases negative with
  | false =>
    cases negative' with
    | false => exact hcast
    | true =>
      refine compare_gt_iff_gt.mpr ?_
      change -(b : ℤ) < a
      omega
  | true =>
    cases negative' with
    | false =>
      refine compare_lt_iff_lt.mpr ?_
      change -(a : ℤ) < b
      omega
    | true =>
      have hanti : StrictAnti fun n : ℤ ↦ -n := fun _ _ h ↦ Int.neg_lt_neg h
      calc compare (-(a : ℤ)) (-b) = cmp (-(a : ℤ)) (-b) := (cmp_eq_compare _ _).symm
        _ = cmp (b : ℤ) a := hanti.cmp_map_eq _ _
        _ = compare (b : ℤ) a := cmp_eq_compare _ _
        _ = (compare (a : ℤ) b).swap := (Int.compare_swap _ _).symm
        _ = (compare a b).swap := congrArg Ordering.swap hcast

theorem scaled_pos {m : ℕ} (hm : 0 < m) (e : ℤ) : 0 < scaled m e :=
  Nat.mul_pos hm (Nat.two_pow_pos _)

theorem bind_signed?_finite (negative negative' : Bool) (m m' : ℕ) (e e' : ℤ) :
    (((Magnitude.finite m e).signed? negative).bind fun a ↦
        ((Magnitude.finite m' e').signed? negative').map (compare a))
      = some (compare (signed negative (scaled m e)) (signed negative' (scaled m' e'))) :=
  congrArg some (compare_coe _ _)

/-- **Comparing doubles.** The engine compares doubles as the numbers they stand for. -/
theorem compare_unpack (x y : Float) :
    x.toModel.unpack.compare y.toModel.unpack
      = (value? x).bind fun a ↦ (value? y).map (compare a) := by
  have hx := reads_unpack x
  have hy := reads_unpack y
  rw [value?, value?]
  generalize magnitude x = mx, x.toModel.unpack = u at hx ⊢
  generalize magnitude y = my, y.toModel.unpack = v at hy ⊢
  cases hx with
  | undefined => cases v <;> rfl
  | infinite =>
    rw [sign]
    cases hy with
    | undefined => cases isNegative x <;> rfl
    | infinite | zero | finite => rw [sign]; cases isNegative x <;> cases isNegative y <;> rfl
  | zero =>
    rw [sign]
    cases hy with
    | undefined => cases isNegative x <;> rfl
    | infinite | zero => rw [sign]; cases isNegative x <;> cases isNegative y <;> rfl
    | @finite m e hm h =>
      have hless : compare (scaled 0 (-1074)) (scaled m e) = .lt :=
        compare_lt_iff_lt.mpr (scaled_pos hm e)
      rw [sign, bind_signed?_finite, compare_signed (.inr (scaled_pos hm e)), hless]
      cases isNegative x <;> cases isNegative y <;> rfl
  | @finite m e hm h =>
    rw [sign]
    cases hy with
    | undefined => cases isNegative x <;> rfl
    | infinite => rw [sign]; cases isNegative x <;> cases isNegative y <;> rfl
    | zero =>
      have hgreater : compare (scaled m e) (scaled 0 (-1074)) = .gt :=
        compare_gt_iff_gt.mpr (scaled_pos hm e)
      rw [sign, bind_signed?_finite, compare_signed (.inl (scaled_pos hm e)), hgreater]
      cases isNegative x <;> cases isNegative y <;> rfl
    | @finite m' e' hm' h' =>
      rw [sign, bind_signed?_finite, compare_signed (.inl (scaled_pos hm e)),
        compare_scaled h h']
      cases isNegative x <;> cases isNegative y <;> rfl

theorem lt_iff (x y : Float) : x < y ↔ x.toModel.unpack.compare y.toModel.unpack = some .lt :=
  decide_eq_true_iff.trans beq_iff_eq

theorem beq_iff (x y : Float) :
    (x == y) = true ↔ x.toModel.unpack.compare y.toModel.unpack = some .eq := by
  change (x.toModel.unpack.compare y.toModel.unpack == some .eq) = true ↔ _
  exact beq_iff_eq

/-- **The order of doubles** is the order of the numbers they stand for. -/
theorem order_eq (x y : Float) :
    order x y = (value? x).bind fun a ↦ (value? y).map (compare a) := by
  rw [order]
  simp only [lt_iff, beq_iff, compare_unpack]
  cases value? x with
  | none => cases value? y <;> rfl
  | some a =>
    cases value? y with
    | none => rfl
    | some b =>
      simp only [Option.bind_some, Option.map_some, Option.some.injEq, compare_lt_iff_lt,
        compare_eq_iff_eq]
      rcases lt_trichotomy a b with h | rfl | h
      · rw [if_pos h, compare_lt_iff_lt.mpr h]
      · rw [if_neg (lt_irrefl a), if_neg (lt_irrefl a), if_pos rfl, compare_eq_iff_eq.mpr rfl]
      · rw [if_neg (lt_asymm h), if_pos h, compare_gt_iff_gt.mpr h]

theorem beq_iff_value? {x y : Float} :
    (x == y) = true ↔ ∃ a, value? x = some a ∧ value? y = some a := by
  rw [beq_iff, compare_unpack]
  constructor
  · intro h
    obtain ⟨a, ha, h⟩ := Option.bind_eq_some_iff.mp h
    obtain ⟨b, hb, hab⟩ := Option.map_eq_some_iff.mp h
    obtain rfl := compare_eq_iff_eq.mp hab
    exact ⟨a, ha, hb⟩
  · rintro ⟨a, ha, hb⟩
    rw [ha, hb]
    exact congrArg some (compare_eq_iff_eq.mpr rfl)

theorem isNaN_iff (x : Float) : x.isNaN = true ↔ value? x = none := by
  have hx := reads_unpack x
  change x.toModel.unpack.isNaN = true ↔ (magnitude x).signed? (isNegative x) = none
  generalize magnitude x = mx, x.toModel.unpack = u at hx ⊢
  cases hx with
  | undefined => exact iff_of_true rfl rfl
  | infinite | zero | finite => exact iff_of_false Bool.false_ne_true (Option.some_ne_none _)

/-! ## Whole numbers among the doubles -/

/-- A whole number in units of the least positive double. -/
def units (n : ℤ) : ℤ := n * 2 ^ 1074

theorem units_strictMono : StrictMono units :=
  fun _ _ h ↦ Int.mul_lt_mul_of_pos_right h (Int.pow_pos (by decide))

theorem signed_mul (negative : Bool) (m k : ℕ) :
    signed negative (m * k) = signed negative m * k := by
  cases negative with
  | false => exact Int.natCast_mul m k
  | true => 
    change -((m * k : ℕ) : ℤ) = -(m : ℤ) * k
    rw [Int.natCast_mul, Int.neg_mul]

theorem exponent_of_magnitude {x : Float} {m : ℕ} {e : ℤ} (h : magnitude x = .finite m e) :
    -1074 ≤ e := by
  have hx := reads_unpack x
  rw [h] at hx
  generalize x.toModel.unpack = u at hx
  cases hx with
  | zero => exact le_rfl
  | finite hm hc => exact hc.least

/-- **Whole numbers and doubles** compare as numbers. -/
theorem compareInt_eq {x : Float} {a : WithBot (WithTop ℤ)} (h : value? x = some a) (n : ℤ) :
    compareInt n x = compare ((units n : WithTop ℤ) : WithBot (WithTop ℤ)) a := by
  rw [value?] at h
  rw [compareInt]
  cases hx : magnitude x with
  | undefined =>
    rw [hx] at h
    cases h
  | infinite =>
    rw [hx] at h
    obtain rfl := Option.some.inj h
    cases isNegative x <;> rfl
  | finite m e =>
    rw [hx] at h
    obtain rfl := Option.some.inj h
    have hleast := exponent_of_magnitude hx
    -- Both sides are the compared numbers up to a common power of two.
    obtain ⟨k, hk⟩ : ∃ k : ℕ, (k : ℤ) = 1074 + min e 0 := ⟨(1074 + min e 0).toNat, by omega⟩
    have hn : units n = n * 2 ^ (-e).toNat * 2 ^ k := by
      rw [units, mul_assoc, ← pow_add]
      congr 2
      omega
    have hm : signed (isNegative x) (scaled m e)
        = signed (isNegative x) m * 2 ^ e.toNat * 2 ^ k := by
      rw [scaled, signed_mul, mul_assoc, ← pow_add]
      push_cast
      congr 2
      omega
    have hpos : (0 : ℤ) < 2 ^ k := Int.pow_pos (by decide)
    have hmono : StrictMono fun z : ℤ ↦ z * 2 ^ k :=
      fun _ _ hz ↦ Int.mul_lt_mul_of_pos_right hz hpos
    rw [compare_coe, hn, hm]
    exact (compare_map hmono (n * 2 ^ (-e).toNat) (signed (isNegative x) m * 2 ^ e.toNat)).symm

theorem value?_of_exactInt? {x : Float} {n : ℤ} (h : exactInt? x = some n) :
    value? x = some ((units n : WithTop ℤ) : WithBot (WithTop ℤ)) := by
  rw [exactInt?] at h
  rw [value?]
  cases hx : magnitude x with
  | undefined | infinite =>
    rw [hx] at h
    cases h
  | finite m e =>
    rw [hx] at h
    have hleast := exponent_of_magnitude hx
    -- The number without its sign, as it is read off above and below the point.
    obtain ⟨l, hl, hscaled⟩ : ∃ l, n = signed (isNegative x) l ∧ scaled m e = l * 2 ^ 1074 := by
      dsimp only at h
      split at h
      case isTrue he =>
        refine ⟨m * 2 ^ e.toNat, (Option.some.inj h).symm, ?_⟩
        rw [scaled, mul_assoc, ← pow_add]
        congr 2
        omega
      case isFalse he =>
        split at h
        case isTrue hdvd =>
          refine ⟨m / 2 ^ (-e).toNat, (Option.some.inj h).symm, ?_⟩
          have hm : m = m / 2 ^ (-e).toNat * 2 ^ (-e).toNat :=
            (Nat.div_mul_cancel (Nat.dvd_of_mod_eq_zero (beq_iff_eq.mp hdvd))).symm
          have hsum : (-e).toNat + (e + 1074).toNat = 1074 := by omega
          calc scaled m e = m / 2 ^ (-e).toNat * 2 ^ (-e).toNat * 2 ^ (e + 1074).toNat := by
                rw [← hm, scaled]
            _ = m / 2 ^ (-e).toNat * 2 ^ 1074 := by rw [mul_assoc, ← pow_add, hsum]
        case isFalse => cases h
    rw [Magnitude.signed?, hscaled, signed_mul, hl, units, Nat.cast_pow, Nat.cast_ofNat]

end CorpusQuery.Number

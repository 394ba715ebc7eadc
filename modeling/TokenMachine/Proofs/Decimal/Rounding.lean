/-
  TokenMachine.Proofs.Decimal.Rounding — when rounding stays finite.

  A float that is a number is a mantissa of 53 bits and an exponent, and 971 is the largest
  exponent that has a bit pattern. Rounding shifts a mantissa to the right until it has 53 bits
  (`excess`) and decides by what was shifted out; only where that makes a power of two of the
  greatest mantissa does the exponent go up once more (`exponentLe_roundWithAccuracy`). The
  greatest mantissa is odd, so this happens from the middle on. Hence what is rounded has an
  exponent of at most `k` exactly below the middle between the last float of that exponent and
  the next power of two (`exponentLe_round_iff`), whatever was rounded before
  (`exponentLe_mul_iff`, `exponentLe_div_iff`).

  A bit pattern is a number unless its stored exponent is the greatest one, and packing stores
  that for exponents past 971 alone: the float of what was rounded is finite exactly if the
  exponent is at most 971 (`isFinite_pack_iff`).
-/

import Mathlib
import TokenMachine.Decimal.Numeral

namespace TokenMachine.Decimal

open Float.Model Float.Model.UnpackedFloat

variable {s s' : Sign} {m m' n : Nat} {e e' k : Int} {acc : Accuracy} {em : ExtendedMantissa}
  {u v : UnpackedFloat} {b : BitVec 64}

/-! ## Mantissas -/

theorem mantissa_shiftRight (em : ExtendedMantissa) (n : Nat) :
    (em >>> n).mantissa = em.mantissa / 2 ^ n := by
  induction n with
  | zero => exact (Nat.div_one _).symm
  | succ n ih =>
    show (em >>> n).mantissa / 2 = _
    rw [ih, Nat.div_div_eq_div_mul, Nat.pow_succ]

/-- The last bit that is shifted out decides on which side of the middle the rest is. -/
theorem roundBit_shiftRight (em : ExtendedMantissa) (n : Nat) :
    (em >>> (n + 1)).roundBit = (em.mantissa / 2 ^ n % 2 != 0) := by
  rw [← mantissa_shiftRight em n]
  rfl

theorem mantissa_ofMantissaAndAccuracy (m : Nat) (acc : Accuracy) :
    (ExtendedMantissa.ofMantissaAndAccuracy m acc).mantissa = m := by
  cases acc with
  | exact => rfl
  | inexact o => cases o <;> rfl

theorem roundedMantissa_bounds (em : ExtendedMantissa) :
    em.mantissa ≤ em.roundedMantissa ∧ em.roundedMantissa ≤ em.mantissa + 1 := by
  obtain ⟨mantissa, round, sticky⟩ := em
  cases round <;> cases sticky <;>
    simp only [ExtendedMantissa.roundedMantissa, ExtendedMantissa.accuracy,
      Accuracy.roundToNearestEven] <;> omega

/-- An odd mantissa is rounded up exactly if the rest is at least one half. -/
theorem roundedMantissa_of_odd (h : em.mantissa % 2 = 1) :
    em.roundedMantissa = em.mantissa + em.roundBit.toNat := by
  obtain ⟨mantissa, round, sticky⟩ := em
  have hodd : mantissa % 2 = 1 := h
  cases round <;> cases sticky <;>
    simp [ExtendedMantissa.roundedMantissa, ExtendedMantissa.accuracy,
      Accuracy.roundToNearestEven, hodd]

/-! ## Rounding to 53 bits -/

def excess (m : Nat) (e : Int) : Nat := (max (m.log2 + 1 + e - 53) (-1074) - e).toNat

def roundedTo (m : Nat) (e : Int) (acc : Accuracy) : Nat :=
  (ExtendedMantissa.ofMantissaAndAccuracy m acc >>> excess m e).roundedMantissa

/-- The exponent of a float, if it has one, is at most `k`; it is no infinity and not NaN. -/
def ExponentLe (k : Int) : UnpackedFloat → Prop
  | .zero _ => True
  | .finite _ _ e _ => e ≤ k
  | .infinity _ | .notANumber => False

theorem shiftToTargetExponent_eq (m : Nat) (e : Int) (acc : Accuracy) :
    shiftToTargetExponent Format.binary64 m e acc =
      (ExtendedMantissa.ofMantissaAndAccuracy m acc >>> excess m e, e + excess m e) := rfl

theorem add_excess (m : Nat) (e : Int) :
    e + excess m e = max e (max (m.log2 + e - 52) (-1074)) := by
  unfold excess
  omega

theorem div_excess_lt (m : Nat) (e : Int) : m / 2 ^ excess m e < 2 ^ 53 := by
  have hlog : m.log2 + 1 ≤ 53 + excess m e := by
    unfold excess
    omega
  rw [Nat.div_lt_iff_lt_mul (Nat.two_pow_pos _), ← Nat.pow_add]
  exact Nat.lt_of_lt_of_le Nat.lt_log2_self (Nat.pow_le_pow_right (by decide) hlog)

theorem excess_eq_zero (h : m < 2 ^ 53) (he : -1074 ≤ e) : excess m e = 0 := by
  have hlog : m.log2 ≤ 52 := by
    by_cases hm : m = 0
    · simp [hm]
    · have := (Nat.log2_lt hm).mpr h
      omega
  unfold excess
  omega

theorem excess_two_pow (he : -1074 ≤ e) : excess (2 ^ 53) e = 1 := by
  unfold excess
  rw [Nat.log2_two_pow]
  omega

theorem roundedTo_bounds (m : Nat) (e : Int) (acc : Accuracy) :
    m / 2 ^ excess m e ≤ roundedTo m e acc ∧ roundedTo m e acc ≤ m / 2 ^ excess m e + 1 := by
  have h := roundedMantissa_bounds (ExtendedMantissa.ofMantissaAndAccuracy m acc >>> excess m e)
  rw [mantissa_shiftRight, mantissa_ofMantissaAndAccuracy] at h
  exact h

/-- The exponent goes up once more where the mantissa is rounded up to a power of two. -/
theorem exponentLe_roundWithAccuracy :
    ExponentLe k (roundWithAccuracy Format.binary64 s m e acc) ↔
      roundedTo m e acc = 0 ∨ e + excess m e < k ∨
        e + excess m e = k ∧ roundedTo m e acc < 2 ^ 53 := by
  have hbounds := roundedTo_bounds m e acc
  have hlt := div_excess_lt m e
  have he : -1074 ≤ e + excess m e := by
    rw [add_excess]
    omega
  have hround : roundWithAccuracy Format.binary64 s m e acc =
      if h : roundedTo m e acc / 2 ^ excess (roundedTo m e acc) (e + excess m e) = 0 then .zero s
      else .finite s (roundedTo m e acc / 2 ^ excess (roundedTo m e acc) (e + excess m e))
        (e + excess m e + excess (roundedTo m e acc) (e + excess m e)) (Nat.pos_of_ne_zero h) := by
    unfold roundWithAccuracy
    simp only [shiftToTargetExponent_eq, mantissa_shiftRight, mantissa_ofMantissaAndAccuracy]
    rfl
  rw [hround]
  generalize e + excess m e = e' at *
  generalize roundedTo m e acc = r at *
  by_cases hr : r < 2 ^ 53
  · rw [excess_eq_zero hr he]
    by_cases hzero : r = 0
    · simp [hzero, ExponentLe]
    · simp [hzero, ExponentLe]
      omega
  · obtain rfl : r = 2 ^ 53 := by omega
    rw [excess_two_pow he]
    simp [ExponentLe]

/-- A mantissa is rounded up to a power of two if it is at least halfway there from the last float
below. -/
theorem roundedTo_lt_iff (h : excess m e = n + 1) :
    roundedTo m e acc < 2 ^ 53 ↔ m < (2 ^ 54 - 1) * 2 ^ n := by
  have hbounds := roundedTo_bounds m e acc
  have hlt := div_excess_lt m e
  have hhalf : m / 2 ^ excess m e = m / 2 ^ n / 2 := by
    rw [h, Nat.pow_succ, Nat.div_div_eq_div_mul]
  have hbit : (m / 2 ^ n % 2 != 0).toNat = m / 2 ^ n % 2 := by
    rcases Nat.mod_two_eq_zero_or_one (m / 2 ^ n) with hmod | hmod <;> rw [hmod] <;> rfl
  -- The greatest mantissa is odd, so half a unit is rounded up.
  have hodd (hmod : m / 2 ^ n / 2 % 2 = 1) :
      roundedTo m e acc = m / 2 ^ n / 2 + m / 2 ^ n % 2 := by
    have hmantissa : (ExtendedMantissa.ofMantissaAndAccuracy m acc >>> (n + 1)).mantissa =
        m / 2 ^ n / 2 := by
      rw [mantissa_shiftRight, mantissa_ofMantissaAndAccuracy, ← h, hhalf]
    unfold roundedTo
    rw [h, roundedMantissa_of_odd (hmantissa ▸ hmod), hmantissa, roundBit_shiftRight,
      mantissa_ofMantissaAndAccuracy, hbit]
  rw [← Nat.div_lt_iff_lt_mul (Nat.two_pow_pos n)]
  rw [hhalf] at hbounds hlt
  generalize m / 2 ^ n = q at *
  by_cases hq : q / 2 = 2 ^ 53 - 1
  · have hround := hodd (by omega)
    omega
  · omega

/-- What is rounded has an exponent of at most `k` if it is below the middle between the last such
float and the next power of two. -/
theorem exponentLe_round_iff (he : e < k) (hk : -1074 ≤ k) :
    ExponentLe k (roundWithAccuracy Format.binary64 s m e acc) ↔
      m < (2 ^ 54 - 1) * 2 ^ (k - 1 - e).toNat := by
  rw [exponentLe_roundWithAccuracy]
  have hexcess := add_excess m e
  rcases Int.lt_trichotomy (e + excess m e) k with hlt | heq | hgt
  · have hbits : m.log2 + 1 ≤ 53 + (k - 1 - e).toNat := by omega
    refine iff_of_true (.inr (.inl hlt)) ?_
    calc m < 2 ^ (m.log2 + 1) := Nat.lt_log2_self
      _ ≤ 2 ^ (53 + (k - 1 - e).toNat) := Nat.pow_le_pow_right (by decide) hbits
      _ = 2 ^ 53 * 2 ^ (k - 1 - e).toNat := Nat.pow_add ..
      _ ≤ (2 ^ 54 - 1) * 2 ^ (k - 1 - e).toNat := Nat.mul_le_mul_right _ (by decide)
  · have hn : excess m e = (k - 1 - e).toNat + 1 := by omega
    rw [← @roundedTo_lt_iff _ _ _ acc hn]
    omega
  · have hbits : 54 + (k - 1 - e).toNat ≤ m.log2 := by omega
    have hm : m ≠ 0 := by
      rintro rfl
      simp at hbits
    have hmiddle : (2 ^ 54 - 1) * 2 ^ (k - 1 - e).toNat ≤ m := by
      calc (2 ^ 54 - 1) * 2 ^ (k - 1 - e).toNat
        _ ≤ 2 ^ 54 * 2 ^ (k - 1 - e).toNat := Nat.mul_le_mul_right _ (by decide)
        _ = 2 ^ (54 + (k - 1 - e).toNat) := (Nat.pow_add ..).symm
        _ ≤ 2 ^ m.log2 := Nat.pow_le_pow_right (by decide) hbits
        _ ≤ m := Nat.log2_self_le hm
    have hfull : 2 ^ 52 ≤ m / 2 ^ excess m e := by
      rw [Nat.le_div_iff_mul_le (Nat.two_pow_pos _), ← Nat.pow_add]
      have hle : 52 + excess m e ≤ m.log2 := by omega
      exact Nat.le_trans (Nat.pow_le_pow_right (by decide) hle) (Nat.log2_self_le hm)
    have hbounds := roundedTo_bounds m e acc
    omega

/-! ## Products and quotients -/

theorem exponentLe_mul_iff {hm : 0 < m} {hm' : 0 < m'} (h : e + e' ≤ 970) :
    ExponentLe 971 (UnpackedFloat.mul Format.binary64 (.finite s m e hm) (.finite s' m' e' hm')) ↔
      m * m' < (2 ^ 54 - 1) * 2 ^ (970 - (e + e')).toNat :=
  exponentLe_round_iff (Int.lt_add_one_of_le h) (by decide)

theorem exponentLe_div_iff {hm : 0 < m} {hm' : 0 < m'} (h : e - e' ≤ 970) :
    ExponentLe 971 (UnpackedFloat.div Format.binary64 (.finite s m e hm) (.finite s' m' e' hm')) ↔
      m < (2 ^ 54 - 1) * 2 ^ (970 - (e - e')).toNat * m' := by
  show ExponentLe 971 (roundWithAccuracy _ _ (divCore Format.binary64 m e m' e').1
    (divCore Format.binary64 m e m' e').2.1 _) ↔ _
  unfold divCore
  dsimp only
  generalize htarget : min (e - e') (Format.binary64.targetExponent _) = t
  have ht : t ≤ e - e' := by omega
  rw [exponentLe_round_iff (by omega) (by decide), Nat.shiftLeft_eq,
    Nat.div_lt_iff_lt_mul hm']
  -- The quotient has as many bits behind its point as the numerator was shifted by.
  have hsplit : (971 - 1 - t).toNat = (970 - (e - e')).toNat + (e - e' - t).toNat := by omega
  rw [hsplit, Nat.pow_add, ← Nat.mul_assoc, Nat.mul_right_comm]
  exact Nat.mul_lt_mul_right (Nat.two_pow_pos _)

/-- The float has a mantissa of at most 53 bits and an exponent of at most `k`, or is zero. -/
def Fits (k : Int) : UnpackedFloat → Prop
  | .zero _ => True
  | .finite _ m e _ => m < 2 ^ 53 ∧ e ≤ k
  | .infinity _ | .notANumber => False

theorem Fits.exponentLe (h : Fits k u) : ExponentLe k u := by
  cases u with
  | infinity | notANumber | zero => exact h
  | finite => exact h.2

theorem Fits.isFinite (h : Fits k u) : u.isFinite = true := by
  cases u with
  | infinity | notANumber => exact h.elim
  | zero | finite => rfl

theorem exponentLe_mul_of_fits {k' : Int} (hu : Fits k u) (hv : Fits k' v) (h : k + k' ≤ 917) :
    ExponentLe 971 (UnpackedFloat.mul Format.binary64 u v) := by
  cases u with
  | infinity | notANumber => exact hu.elim
  | zero =>
    cases v with
    | infinity | notANumber => exact hv.elim
    | zero | finite => trivial
  | finite s m e hm =>
    cases v with
    | infinity | notANumber => exact hv.elim
    | zero => trivial
    | finite s' m' e' hm' =>
      obtain ⟨hbits, he⟩ := hu
      obtain ⟨hbits', he'⟩ := hv
      have hplaces : 53 ≤ (970 - (e + e')).toNat := by omega
      rw [exponentLe_mul_iff (by omega)]
      calc m * m' < 2 ^ 53 * 2 ^ 53 := Nat.mul_lt_mul'' hbits hbits'
        _ ≤ (2 ^ 54 - 1) * 2 ^ (970 - (e + e')).toNat :=
          Nat.mul_le_mul (by decide) (Nat.pow_le_pow_right (by decide) hplaces)

theorem exponentLe_div_of_fits {hm' : 0 < m'} (hu : Fits k u) (h : k - e' ≤ 970) :
    ExponentLe 971 (UnpackedFloat.div Format.binary64 u (.finite s' m' e' hm')) := by
  cases u with
  | infinity | notANumber => exact hu.elim
  | zero => trivial
  | finite s m e hm =>
    obtain ⟨hbits, he⟩ := hu
    rw [exponentLe_div_iff (by omega), Nat.mul_assoc]
    calc m < 2 ^ 54 - 1 := Nat.lt_trans hbits (by decide)
      _ ≤ (2 ^ 54 - 1) * (2 ^ (970 - (e - e')).toNat * m') :=
        Nat.le_mul_of_pos_right _ (Nat.mul_pos (Nat.two_pow_pos _) hm')

/-! ## Bit patterns -/

/-- The exponent that a bit pattern holds; the greatest is that of infinities and NaN. -/
def storedExponent (b : BitVec 64) : Nat := (@unpackExponent Format.binary64 b).toNat

theorem unpackExponent_eq_iff {x : BitVec 11} :
    @unpackExponent Format.binary64 b = x ↔ storedExponent b = x.toNat :=
  BitVec.toNat_inj.symm

theorem fits_unpack (hb : storedExponent b ≠ 2047) (hk : storedExponent b ≤ k + 1075)
    (hmin : -1074 ≤ k) : Fits k (UnpackedFloat.unpack Format.binary64 b) := by
  have hmax : ¬ @unpackExponent Format.binary64 b = -1#11 :=
    mt unpackExponent_eq_iff.mp hb
  simp only [UnpackedFloat.unpack, hmax, if_false]
  by_cases hx : @unpackExponent Format.binary64 b = 0#11
  · simp only [hx, if_true]
    split
    · trivial
    · have hlt : (@unpackMantissa Format.binary64 b).toNat < 2 ^ 52 := BitVec.isLt _
      exact ⟨by omega, hmin⟩
  · simp only [hx, if_false]
    refine ⟨BitVec.isLt (1#1 ++ @unpackMantissa Format.binary64 b), ?_⟩
    show (storedExponent b : Int) - (1023 + 52) ≤ k
    omega

theorem isFinite_unpack_of_eq (hb : storedExponent b = 2047) :
    (UnpackedFloat.unpack Format.binary64 b).isFinite = false := by
  have hmax : @unpackExponent Format.binary64 b = -1#11 := unpackExponent_eq_iff.mpr hb
  simp only [UnpackedFloat.unpack, hmax, if_true]
  split <;> rfl

theorem storedExponent_pack (h : ExponentLe k u) (hk : k ≤ 971) (hmin : -1074 ≤ k) :
    storedExponent (UnpackedFloat.pack Format.binary64 u) < 2047 ∧
      storedExponent (UnpackedFloat.pack Format.binary64 u) ≤ k + 1075 := by
  have hzero : (0 : Int) ≤ k + 1075 := by omega
  cases u with
  | infinity | notANumber => exact h.elim
  | zero s =>
    rw [storedExponent, UnpackedFloat.pack, packedZero, unpackExponent_packComponents]
    exact ⟨by decide, hzero⟩
  | finite s m e hm =>
    have he : e ≤ k := h
    have hsmall : ¬ 2 ^ 11 ≤ (e + 1023 + 52).toNat + 1 := by omega
    have hpack : UnpackedFloat.pack Format.binary64 (.finite s m e hm) =
        if m.log2 + 1 = 53 then
          packComponents Format.binary64 s (BitVec.ofNat 11 (e + 1023 + 52).toNat)
            (BitVec.ofNat 52 m)
        else packComponents Format.binary64 s 0#11 (BitVec.ofNat 52 m) := if_neg hsmall
    rw [hpack]
    by_cases hnormal : m.log2 + 1 = 53
    · have hstored : (BitVec.ofNat 11 (e + 1023 + 52).toNat).toNat = (e + 1023 + 52).toNat := by
        rw [BitVec.toNat_ofNat, Nat.mod_eq_of_lt (by omega)]
      rw [if_pos hnormal, storedExponent, unpackExponent_packComponents]
      show (BitVec.ofNat 11 _).toNat < 2047 ∧ ((BitVec.ofNat 11 _).toNat : Int) ≤ k + 1075
      rw [hstored]
      omega
    · rw [if_neg hnormal, storedExponent, unpackExponent_packComponents]
      exact ⟨by decide, hzero⟩

theorem storedExponent_pack_of_not (h : ¬ ExponentLe 971 u) :
    storedExponent (UnpackedFloat.pack Format.binary64 u) = 2047 := by
  cases u with
  | infinity s =>
    rw [storedExponent, UnpackedFloat.pack, packedInfinity, unpackExponent_packComponents]
    rfl
  | notANumber =>
    rw [storedExponent, UnpackedFloat.pack, packedNaN, unpackExponent_packComponents]
    rfl
  | zero s => exact absurd trivial h
  | finite s m e hm =>
    have he : ¬ e ≤ 971 := h
    have hlarge : 2 ^ 11 ≤ (e + 1023 + 52).toNat + 1 := by omega
    have hpack : UnpackedFloat.pack Format.binary64 (.finite s m e hm) =
        packedInfinity Format.binary64 s := if_pos hlarge
    rw [hpack, storedExponent, packedInfinity, unpackExponent_packComponents]
    rfl

theorem fits_pack (h : ExponentLe k u) (hk : k ≤ 971) (hmin : -1074 ≤ k) :
    Fits k (Float.Model.pack u).unpack := by
  obtain ⟨hlt, hle⟩ := storedExponent_pack h hk hmin
  exact fits_unpack (Nat.ne_of_lt hlt) hle hmin

/-! ## Floats -/

theorem isFinite_pack_iff :
    (Float.ofModel (Float.Model.pack u)).isFinite = true ↔ ExponentLe 971 u := by
  by_cases h : ExponentLe 971 u
  · exact iff_of_true (fits_pack h (by decide) (by decide)).isFinite h
  · have hinfinite := isFinite_unpack_of_eq (storedExponent_pack_of_not h)
    exact iff_of_false (ne_true_of_eq_false hinfinite) h

theorem exponentLe_neg_iff : ExponentLe k u.neg ↔ ExponentLe k u := by
  cases u <;> rfl

theorem exponentLe_unpack_iff :
    ExponentLe 971 (UnpackedFloat.unpack Format.binary64 b) ↔
      (UnpackedFloat.unpack Format.binary64 b).isFinite = true := by
  by_cases hb : storedExponent b = 2047
  · have hinfinite := isFinite_unpack_of_eq hb
    refine iff_of_false ?_ (ne_true_of_eq_false hinfinite)
    cases hu : UnpackedFloat.unpack Format.binary64 b with
    | infinity | notANumber => exact id
    | zero | finite =>
      rw [hu] at hinfinite
      cases hinfinite
  · have hlt : storedExponent b < 2 ^ 11 := BitVec.isLt _
    have hfits : Fits 971 (UnpackedFloat.unpack Format.binary64 b) :=
      fits_unpack hb (by omega) (by decide)
    exact iff_of_true hfits.exponentLe hfits.isFinite

theorem isFinite_neg (x : Float) : (-x).isFinite = x.isFinite := by
  rw [Bool.eq_iff_iff]
  exact isFinite_pack_iff.trans (exponentLe_neg_iff.trans exponentLe_unpack_iff)

end TokenMachine.Decimal

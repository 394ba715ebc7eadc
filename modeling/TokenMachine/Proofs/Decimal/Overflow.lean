/-
  TokenMachine.Proofs.Decimal.Overflow — the decimals that denote a finite float.

  The float of a decimal is its exact value rounded, so it is finite exactly if the value is below
  the middle between the greatest float and 2 ^ 1024 (`isFinite_toFloat_iff`). How it is computed
  depends on the number. Far from the limit on either side nothing is computed; a short number is
  converted and then scaled, which stays far below it (`isFinite_ofScientific_of_short`); and
  otherwise one product or quotient of the digits and a power of ten, both exact, is rounded
  (`exponentLe_ofScientific_iff`).
-/

import TokenMachine.Proofs.Decimal.Rounding

namespace TokenMachine.Decimal

open Float.Model Float.Model.UnpackedFloat

variable {m n : Nat} {e : Int}

/-- The middle between the greatest float, of 53 ones and the exponent 971, and 2 ^ 1024. What is
not below it is rounded to infinity. -/
def overflow : Nat := (2 ^ 54 - 1) * 2 ^ 970

def size (d : Decimal) : ℚ := d.digits * 10 ^ d.exponent

/-! ## Values -/

theorem overflow_pos : 0 < overflow := by decide +kernel

theorem lt_overflow_iff_of_nonneg (h : 0 ≤ e) :
    (m : ℚ) * 10 ^ e < overflow ↔ m * 10 ^ e.toNat < overflow := by
  obtain ⟨n, rfl⟩ := Int.eq_ofNat_of_zero_le h
  rw [zpow_natCast, Int.toNat_natCast]
  exact_mod_cast Iff.rfl

theorem lt_overflow_iff_of_neg (h : e < 0) :
    (m : ℚ) * 10 ^ e < overflow ↔ m < overflow * 10 ^ (-e).toNat := by
  obtain ⟨n, rfl⟩ : ∃ n : Nat, e = -n := ⟨(-e).toNat, by omega⟩
  have hpos : (0 : ℚ) < 10 ^ n := by positivity
  rw [neg_neg, Int.toNat_natCast, zpow_neg, zpow_natCast, ← div_eq_mul_inv, div_lt_iff₀ hpos]
  exact_mod_cast Iff.rfl

theorem overflow_le_of_large (hm : m ≠ 0) (he : 330 < e) : ¬ (m : ℚ) * 10 ^ e < overflow := by
  rw [lt_overflow_iff_of_nonneg (by omega), Nat.not_lt]
  calc overflow ≤ 10 ^ 330 := by decide +kernel
    _ ≤ 10 ^ e.toNat := Nat.pow_le_pow_right (by decide) (by omega)
    _ ≤ m * 10 ^ e.toNat := Nat.le_mul_of_pos_left _ (Nat.pos_of_ne_zero hm)

theorem lt_overflow_of_small (he : e + m.log2 + 331 < 0) : (m : ℚ) * 10 ^ e < overflow := by
  rw [lt_overflow_iff_of_neg (by omega)]
  have hlog : m.log2 + 1 ≤ (-e).toNat := by omega
  calc m < 2 ^ (m.log2 + 1) := Nat.lt_log2_self
    _ ≤ 10 ^ (m.log2 + 1) := Nat.pow_le_pow_left (by decide) _
    _ ≤ 10 ^ (-e).toNat := Nat.pow_le_pow_right (by decide) hlog
    _ ≤ overflow * 10 ^ (-e).toNat := Nat.le_mul_of_pos_left _ overflow_pos

theorem lt_overflow_of_short (hm : m < 2 ^ 53) (he : e.natAbs ≤ 22) :
    (m : ℚ) * 10 ^ e < overflow := by
  rcases Int.lt_or_le e 0 with hneg | hnonneg
  · rw [lt_overflow_iff_of_neg hneg]
    calc m < 2 ^ 53 := hm
      _ ≤ overflow := by decide +kernel
      _ ≤ overflow * 10 ^ (-e).toNat := Nat.le_mul_of_pos_right _ (by positivity)
  · rw [lt_overflow_iff_of_nonneg hnonneg]
    calc m * 10 ^ e.toNat ≤ 2 ^ 53 * 10 ^ 22 :=
        Nat.mul_le_mul (Nat.le_of_lt hm) (Nat.pow_le_pow_right (by decide) (by omega))
      _ < overflow := by decide +kernel

/-! ## Scaling by a power of ten -/

theorem exponentLe_ofScientific_iff (hm : m ≠ 0) (hhigh : e ≤ 330) (hlow : 0 ≤ e + m.log2 + 331) :
    ExponentLe 971 (UnpackedFloat.ofScientific Format.binary64 m e) ↔
      (m : ℚ) * 10 ^ e < overflow := by
  have hnotHigh : ¬ e > 2 ^ Format.binary64.exponentBits := by
    show ¬ e > 2 ^ 11
    omega
  have hnotLow : ¬ e < -((2 ^ Format.binary64.exponentBits : Int) + m.log2) := by
    show ¬ e < -((2 ^ 11 : Int) + m.log2)
    omega
  unfold UnpackedFloat.ofScientific
  rw [dif_neg hm, if_neg hnotHigh, if_neg hnotLow]
  rcases Int.lt_or_le e 0 with hneg | hnonneg
  · have hplaces : (970 - (0 - 0) : Int).toNat = 970 := rfl
    rw [if_neg (Int.not_le.mpr hneg), exponentLe_div_iff (by decide), lt_overflow_iff_of_neg hneg,
      hplaces, overflow]
  · -- The digits are taken with 53 places behind the point.
    have hbits : Format.binary64.mantissaBits = 53 := rfl
    have hplaces : (970 - (-(53 : Nat) + 0) : Int).toNat = 970 + 53 := rfl
    have hlimit : (2 ^ 54 - 1) * 2 ^ (970 + 53) = overflow * 2 ^ 53 := by
      unfold overflow
      generalize 970 = p
      rw [Nat.pow_add 2 p 53, Nat.mul_assoc]
    rw [if_pos hnonneg, exponentLe_mul_iff (by rw [hbits]; decide),
      lt_overflow_iff_of_nonneg hnonneg, hbits, hplaces, hlimit, Nat.shiftLeft_eq]
    generalize overflow = limit
    rw [Nat.mul_right_comm]
    exact Nat.mul_lt_mul_right (Nat.two_pow_pos 53)

/-! ## Short numbers -/

/-- The float has a mantissa of 53 bits, and an exponent as small powers of ten have. -/
def IsPower : UnpackedFloat → Bool
  | .finite _ m e _ => m < 2 ^ 53 && -52 ≤ e && e ≤ 22
  | _ => false

theorem isPower_powersOfTen :
    ∀ i : Fin 23, IsPower Float.exactlyRepresentablePowersOfTen[i].toModel.unpack = true := by
  decide

theorem fits_toFloat (hm : m < 2 ^ 53) : Fits 1 m.toUInt64.toFloat.toModel.unpack := by
  have hnat : m.toUInt64.toNat = m := Nat.mod_eq_of_lt (Nat.lt_trans hm (by decide))
  apply fits_pack _ (by decide) (by decide)
  unfold UnpackedFloat.ofUInt64 UnpackedFloat.ofNat UnpackedFloat.ofInt UnpackedFloat.normalize
  rw [hnat]
  split
  · next hlt => exact absurd (Int.compare_eq_lt.mp hlt) (by omega)
  · trivial
  · -- Nothing is rounded away: the mantissa is shifted to the left.
    unfold UnpackedFloat.round decreaseExponent
    dsimp only
    generalize (0 - Format.binary64.targetExponent _).toNat = n
    rw [Int.toNat_natCast, exponentLe_round_iff (by omega) (by decide), Nat.shiftLeft_eq]
    have hplaces : (1 - 1 - (0 - (n : Int))).toNat = n := by omega
    rw [hplaces]
    exact Nat.mul_lt_mul_of_pos_right (Nat.lt_trans hm (by decide)) (Nat.two_pow_pos n)

theorem isFinite_scaled {x power : Float} (hx : Fits 1 x.toModel.unpack)
    (hp : IsPower power.toModel.unpack = true) :
    (x / power).isFinite = true ∧ (x * power).isFinite = true := by
  -- Both operations unpack, calculate and pack.
  suffices h :
      ExponentLe 971
        (UnpackedFloat.div Format.binary64 x.toModel.unpack power.toModel.unpack) ∧
      ExponentLe 971
        (UnpackedFloat.mul Format.binary64 x.toModel.unpack power.toModel.unpack) from
    ⟨isFinite_pack_iff.mpr h.1, isFinite_pack_iff.mpr h.2⟩
  generalize power.toModel.unpack = p at hp
  cases p with
  | infinity | notANumber | zero => cases hp
  | finite s m e hm =>
    simp only [IsPower, Bool.and_eq_true, decide_eq_true_eq] at hp
    obtain ⟨⟨hbits, hlow⟩, hhigh⟩ := hp
    have hfits : Fits 22 (.finite s m e hm) := ⟨hbits, hhigh⟩
    exact ⟨exponentLe_div_of_fits hx (by omega), exponentLe_mul_of_fits hx hfits (by decide)⟩

/-- Digits and a power of ten that are both exact are far from the limit. -/
theorem isFinite_ofScientific_of_short (hm : m < 2 ^ 53) (hn : n ≤ 22) (negative : Bool) :
    (Float.ofScientific m negative n).isFinite = true := by
  obtain ⟨hdiv, hmul⟩ :=
    isFinite_scaled (fits_toFloat hm) (isPower_powersOfTen ⟨n, Nat.lt_succ_of_le hn⟩)
  unfold Float.ofScientific
  rw [dif_pos ⟨hm, hn⟩]
  cases negative with
  | true => exact hdiv
  | false => exact hmul

theorem isFinite_ofScientific_iff (hm : m ≠ 0) (hhigh : e ≤ 330) (hlow : 0 ≤ e + m.log2 + 331) :
    (Float.ofScientific m (e < 0) e.natAbs).isFinite = true ↔ (m : ℚ) * 10 ^ e < overflow := by
  by_cases hshort : m < 2 ^ 53 ∧ e.natAbs ≤ 22
  · obtain ⟨hbits, hpower⟩ := hshort
    exact iff_of_true (isFinite_ofScientific_of_short hbits hpower _)
      (lt_overflow_of_short hbits hpower)
  · have hexponent :
        (if decide (e < 0) = true then Int.negOfNat e.natAbs else Int.ofNat e.natAbs) = e := by
      simp only [decide_eq_true_eq, Int.negOfNat_eq, Int.ofNat_eq_natCast]
      split <;> omega
    unfold Float.ofScientific
    rw [dif_neg hshort]
    dsimp only
    rw [hexponent]
    exact isFinite_pack_iff.trans (exponentLe_ofScientific_iff hm hhigh hlow)

/-! ## Decimals -/

theorem isFinite_magnitude_iff (m : Nat) (e : Int) :
    (magnitude m e).isFinite = true ↔ (m : ℚ) * 10 ^ e < overflow := by
  unfold magnitude
  by_cases hm : m = 0
  · rw [if_pos hm, hm]
    have hzero : (0.0 : Float).isFinite = true := by decide
    refine iff_of_true hzero ?_
    rw [Nat.cast_zero, zero_mul]
    exact Nat.cast_pos.mpr overflow_pos
  rw [if_neg hm]
  by_cases hhigh : 330 < e
  · rw [if_pos hhigh]
    have hinfinity : ¬ (1.0 / 0.0 : Float).isFinite = true := by decide
    exact iff_of_false hinfinity (overflow_le_of_large hm hhigh)
  rw [if_neg hhigh]
  by_cases hlow : e + m.log2 + 331 < 0
  · rw [if_pos hlow]
    have hzero : (0.0 : Float).isFinite = true := by decide
    exact iff_of_true hzero (lt_overflow_of_small hlow)
  · rw [if_neg hlow]
    exact isFinite_ofScientific_iff hm (Int.not_lt.mp hhigh) (Int.not_lt.mp hlow)

/-- A decimal denotes a finite float exactly if it is below the limit. -/
theorem isFinite_toFloat_iff (d : Decimal) : d.toFloat.isFinite = true ↔ d.size < overflow := by
  unfold toFloat size
  split
  · rw [isFinite_neg, isFinite_magnitude_iff]
  · exact isFinite_magnitude_iff d.digits d.exponent

end TokenMachine.Decimal

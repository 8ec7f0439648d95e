import Mathlib.Algebra.Order.Field.Power
import Mathlib.Algebra.Order.Field.Rat
import Mathlib.Tactic.FieldSimp
import Mathlib.Tactic.NormNum
import Mathlib.Tactic.Positivity
import Mathlib.Tactic.Ring
import Qumode.Real64.Rounding

/-!
# Exact values are not rounded

A quotient that is the magnitude of a finite double is rounded to that double
(`Real64.nearestMagnitude_eq`): it lies on the grid of its own exponent, so the search for the grid
finds it, and the rounding to an integer has nothing to round. So a decimal that has exactly the
value of a double reads back as it (`Real64.ofDecimal_eq`).
-/

namespace Qumode

/-- Powers of two as rationals. -/
theorem two_zpow_pos (k : Int) : (0 : ℚ) < 2 ^ k := zpow_pos (by norm_num) k

/-- The comparison of a power of two with a quotient is exact. -/
theorem powerLe_iff {num den : Nat} {k : Int} :
    powerLe num den k = true ↔ (2 : ℚ) ^ k * den ≤ num := by
  cases k with
  | ofNat p =>
    rw [powerLe, decide_eq_true_eq, Int.ofNat_eq_natCast, zpow_natCast, mul_comm]
    exact_mod_cast Iff.rfl
  | negSucc p =>
    rw [powerLe, decide_eq_true_eq, zpow_negSucc, inv_mul_le_iff₀ (by positivity), mul_comm]
    exact_mod_cast Iff.rfl

/-- The power of two just below a quotient. -/
theorem floorLog2_spec {num den : Nat} (hnum : 0 < num) (hden : 0 < den) :
    (2 : ℚ) ^ floorLog2 num den * den ≤ num ∧ (num : ℚ) < 2 ^ (floorLog2 num den + 1) * den := by
  have num_low : (2 : ℚ) ^ (num.log2 : Int) ≤ num := by
    exact_mod_cast Nat.log2_self_le hnum.ne'
  have num_high : (num : ℚ) < 2 ^ (num.log2 + 1 : Int) := by
    exact_mod_cast Nat.lt_log2_self
  have den_low : (2 : ℚ) ^ (den.log2 : Int) ≤ den := by
    exact_mod_cast Nat.log2_self_le hden.ne'
  have den_high : (den : ℚ) ≤ 2 ^ (den.log2 + 1 : Int) := by
    exact_mod_cast Nat.lt_log2_self.le
  have split (i j : Int) : (2 : ℚ) ^ (i + j) = 2 ^ i * 2 ^ j := zpow_add₀ (by norm_num) i j
  unfold floorLog2
  dsimp only
  generalize hguess : (num.log2 : Int) - den.log2 = guess
  split
  case isTrue below =>
    refine ⟨powerLe_iff.1 below, num_high.trans_le ?_⟩
    have shifted : (num.log2 + 1 : Int) = guess + 1 + den.log2 := by omega
    rw [shifted, split (guess + 1)]
    exact mul_le_mul_of_nonneg_left den_low (two_zpow_pos _).le
  case isFalse above =>
    rw [powerLe_iff, not_le] at above
    refine ⟨le_trans ?_ num_low, by rwa [Int.sub_add_cancel]⟩
    have shifted : (num.log2 : Int) = guess - 1 + (den.log2 + 1) := by omega
    rw [shifted, split (guess - 1)]
    exact mul_le_mul_of_nonneg_left den_high (two_zpow_pos _).le

/-- Below a power of two the logarithm is less than the exponent. -/
theorem floorLog2_lt {num den : Nat} {k : Int} (hnum : 0 < num) (hden : 0 < den)
    (below : (num : ℚ) < 2 ^ k * den) : floorLog2 num den < k := by
  have smaller := (floorLog2_spec hnum hden).1.trans_lt below
  have den_pos : (0 : ℚ) < den := by exact_mod_cast hden
  exact (zpow_lt_zpow_iff_right₀ (by norm_num)).1 (lt_of_mul_lt_mul_right smaller den_pos.le)

/-- From a power of two on the logarithm is at least the exponent. -/
theorem le_floorLog2 {num den : Nat} {k : Int} (hnum : 0 < num) (hden : 0 < den)
    (above : (2 : ℚ) ^ k * den ≤ num) : k ≤ floorLog2 num den := by
  have smaller := above.trans_lt (floorLog2_spec hnum hden).2
  have den_pos : (0 : ℚ) < den := by exact_mod_cast hden
  have next := (zpow_lt_zpow_iff_right₀ (by norm_num : (1 : ℚ) < 2)).1
    (lt_of_mul_lt_mul_right smaller den_pos.le)
  omega

/-- An integer is not changed by scaling it and rounding it back. -/
theorem roundScaled_eq {num den m : Nat} {k : Int} (hden : 0 < den)
    (exact : (num : ℚ) = m * 2 ^ k * den) : roundScaled num den (-k) = m := by
  generalize hpower : -k = power
  obtain rfl : k = -power := by omega
  rw [zpow_neg] at exact
  cases power with
  | ofNat p =>
    have product : num * 2 ^ p = m * den := by
      have nonzero : (2 : ℚ) ^ p ≠ 0 := by positivity
      rw [Int.ofNat_eq_natCast, zpow_natCast] at exact
      have scaled : (num : ℚ) * 2 ^ p = m * den := by
        rw [exact]
        field_simp
      exact_mod_cast scaled
    show roundHalfEven (num * 2 ^ p) den = m
    rw [product, roundHalfEven_mul hden]
  | negSucc p =>
    have product : num = m * (den * 2 ^ (p + 1)) := by
      rw [zpow_negSucc, inv_inv] at exact
      have scaled : (num : ℚ) = m * (den * 2 ^ (p + 1)) := by
        rw [exact]
        ring
      exact_mod_cast scaled
    show roundHalfEven num (den * 2 ^ (p + 1)) = m
    rw [product, roundHalfEven_mul (Nat.mul_pos hden (Nat.pow_pos (by decide)))]

namespace Real64

variable {x : Real64}

/-- The magnitude of a finite real. -/
def magnitude (x : Real64) : ℚ := x.significand * 2 ^ x.exponent

/-- A real is put together again from its sign and its magnitude. -/
theorem ofMagnitude_magnitudeBits (x : Real64) : ofMagnitude x.negative x.magnitudeBits = x := by
  obtain ⟨bits⟩ := x
  have small : bits.toNat < 2 ^ 64 := bits.toNat_lt
  have whole : (if decide (signWeight ≤ bits.toNat) then signWeight + bits.toNat % signWeight
      else bits.toNat % signWeight) = bits.toNat := by
    have weight : signWeight = 2 ^ 63 := rfl
    rw [weight]
    split
    case isTrue sign =>
      have sign := of_decide_eq_true sign
      omega
    case isFalse sign =>
      have sign := of_decide_eq_false (Bool.eq_false_iff.2 sign)
      omega
  rw [ofMagnitude, negative, magnitudeBits, whole, UInt64.ofNat_toNat]

/-- The bits of a magnitude are the exponent field and the fraction field. -/
theorem magnitudeBits_eq (x : Real64) :
    x.magnitudeBits = x.exponentField * numFractions + x.fractionField :=
  (Nat.div_add_mod' x.magnitudeBits numFractions).symm

theorem fractionField_lt (x : Real64) : x.fractionField < numFractions :=
  Nat.mod_lt _ (by decide)

theorem significand_pos (nonzero : x.isZero = false) : 0 < x.significand := by
  have bits : x.magnitudeBits ≠ 0 := of_decide_eq_false nonzero
  have fields := x.magnitudeBits_eq
  have fractions : numFractions = 2 ^ 52 := rfl
  unfold significand
  split
  case isTrue subnormal =>
    rw [subnormal] at fields
    omega
  case isFalse => omega

/-- A real that is no zero has a positive magnitude. -/
theorem magnitude_pos (nonzero : x.isZero = false) : 0 < x.magnitude := by
  have significand_pos : (0 : ℚ) < x.significand := by exact_mod_cast significand_pos nonzero
  exact mul_pos significand_pos (two_zpow_pos _)

/-- The grid that a nonzero magnitude lies on is the one that is found for it. -/
theorem grid_eq (nonzero : x.isZero = false) {num den : Nat} (hden : 0 < den)
    (exact : (num : ℚ) = x.magnitude * den) :
    max (floorLog2 num den - 52) (-1074) = x.exponent := by
  have den_pos : (0 : ℚ) < den := by exact_mod_cast hden
  have hnum : 0 < num := by
    have num_pos : (0 : ℚ) < num := exact ▸ mul_pos (magnitude_pos nonzero) den_pos
    exact_mod_cast num_pos
  have below {k : Nat} (small : x.significand < 2 ^ k) :
      floorLog2 num den < k + x.exponent := by
    refine floorLog2_lt hnum hden ?_
    rw [exact, magnitude, zpow_add₀ (by norm_num), zpow_natCast]
    have small : (x.significand : ℚ) < 2 ^ k := by exact_mod_cast small
    exact mul_lt_mul_of_pos_right (mul_lt_mul_of_pos_right small (two_zpow_pos _)) den_pos
  have above {k : Nat} (large : 2 ^ k ≤ x.significand) :
      k + x.exponent ≤ floorLog2 num den := by
    refine le_floorLog2 hnum hden ?_
    rw [exact, magnitude, zpow_add₀ (by norm_num), zpow_natCast]
    have large : (2 : ℚ) ^ k ≤ x.significand := by exact_mod_cast large
    exact mul_le_mul_of_nonneg_right
      (mul_le_mul_of_nonneg_right large (two_zpow_pos _).le) den_pos.le
  have fraction_lt := x.fractionField_lt
  have fractions : numFractions = 2 ^ 52 := rfl
  by_cases subnormal : x.exponentField = 0
  · have significand : x.significand = x.fractionField := if_pos subnormal
    have exponent : x.exponent = -1074 := if_pos subnormal
    have log_lt := @below 52 (by omega)
    omega
  · have significand : x.significand = numFractions + x.fractionField := if_neg subnormal
    have exponent : x.exponent = (x.exponentField : Int) - 1075 := if_neg subnormal
    have log_lt := @below 53 (by omega)
    have le_log := @above 52 (by omega)
    omega

/-- The magnitude nearest to that of a finite real is its own. -/
theorem nearestMagnitude_eq (finite : x.isFinite = true) (nonzero : x.isZero = false)
    {num den : Nat} (hden : 0 < den) (exact : (num : ℚ) = x.magnitude * den) :
    nearestMagnitude num den = x.magnitudeBits := by
  have bits : (x.exponent + 1074).toNat * numFractions + x.significand = x.magnitudeBits := by
    rw [magnitudeBits_eq, exponent, significand]
    split
    case isTrue subnormal =>
      rw [subnormal]
      rfl
    case isFalse normal =>
      have shifted : ((x.exponentField : Int) - 1075 + 1074).toNat + 1 = x.exponentField := by omega
      rw [← Nat.add_assoc, ← Nat.succ_mul, Nat.succ_eq_add_one, shifted]
  unfold nearestMagnitude
  dsimp only
  rw [grid_eq nonzero hden exact, roundScaled_eq hden exact, bits]
  exact Nat.min_eq_left (of_decide_eq_true finite).le

/-- A quotient that is exactly the magnitude of a finite real is read as that real. -/
theorem ofRatio_eq (finite : x.isFinite = true) (nonzero : x.isZero = false)
    {num den : Nat} (hden : 0 < den) (exact : (num : ℚ) = x.magnitude * den) :
    ofRatio x.negative num den = x := by
  have hnum : num ≠ 0 := by
    rintro rfl
    have den_pos : (0 : ℚ) < den := by exact_mod_cast hden
    have vanishes := mul_pos (magnitude_pos nonzero) den_pos
    rw [← exact, Nat.cast_zero] at vanishes
    exact lt_irrefl 0 vanishes
  rw [ofRatio, if_neg hnum, nearestMagnitude_eq finite nonzero hden exact,
    ofMagnitude_magnitudeBits]

/-- Every finite real is below a fixed power of ten. -/
theorem magnitude_lt (finite : x.isFinite = true) : x.magnitude < 10 ^ (401 : Int) := by
  have fractions : numFractions = 2 ^ 52 := rfl
  have fields := fractions ▸ x.magnitudeBits_eq
  have fraction_lt := x.fractionField_lt
  have bits : x.magnitudeBits < infinityBits := of_decide_eq_true finite
  have infinite : infinityBits = 2047 * 2 ^ 52 := rfl
  have significand_lt : x.significand < 2 ^ 53 := by
    unfold significand
    split <;> omega
  have exponent_le : x.exponent ≤ 971 := by
    unfold exponent
    split <;> omega
  have significand_le : (x.significand : ℚ) ≤ 2 ^ 53 := by exact_mod_cast significand_lt.le
  calc x.magnitude ≤ 2 ^ 53 * 2 ^ (971 : Int) := by
        refine mul_le_mul significand_le ?_ (two_zpow_pos _).le (by positivity)
        exact zpow_le_zpow_right₀ (by norm_num) exponent_le
    _ = 2 ^ (1024 : Nat) := by
        rw [← zpow_natCast, ← zpow_natCast, ← zpow_add₀ (by norm_num)]
        rfl
    _ ≤ 8 ^ (401 : Nat) := by
        rw [show (8 : ℚ) = 2 ^ 3 by norm_num, ← pow_mul]
        exact pow_le_pow_right₀ (by norm_num) (by norm_num)
    _ < 10 ^ (401 : Nat) := pow_lt_pow_left₀ (by norm_num) (by norm_num) (by norm_num)
    _ = 10 ^ (401 : Int) := (zpow_natCast 10 401).symm

/-- Every real but zero is above a fixed power of ten. -/
theorem lt_magnitude (nonzero : x.isZero = false) : 10 ^ (-400 : Int) < x.magnitude := by
  have exponent_le : -1074 ≤ x.exponent := by
    unfold exponent
    split <;> omega
  have significand_le : (1 : ℚ) ≤ x.significand := by exact_mod_cast significand_pos nonzero
  have larger : (2 : ℚ) ^ (1074 : Nat) < 10 ^ (400 : Nat) := by
    calc (2 : ℚ) ^ (1074 : Nat) ≤ 8 ^ (400 : Nat) := by
          rw [show (8 : ℚ) = 2 ^ 3 by norm_num, ← pow_mul]
          exact pow_le_pow_right₀ (by norm_num) (by norm_num)
      _ < 10 ^ (400 : Nat) := pow_lt_pow_left₀ (by norm_num) (by norm_num) (by norm_num)
  calc (10 : ℚ) ^ (-400 : Int) = (10 ^ (400 : Nat))⁻¹ := by rw [← zpow_natCast, ← zpow_neg]; rfl
    _ < (2 ^ (1074 : Nat))⁻¹ := inv_strictAnti₀ (by positivity) larger
    _ = 1 * 2 ^ (-1074 : Int) := by rw [one_mul, ← zpow_natCast, ← zpow_neg]; rfl
    _ ≤ x.magnitude := by
        refine mul_le_mul significand_le ?_ (two_zpow_pos _).le (by positivity)
        exact zpow_le_zpow_right₀ (by norm_num) exponent_le

section Decimals

variable {significand : Nat} {exponent : Int}

theorem ten_zpow_pos (k : Int) : (0 : ℚ) < 10 ^ k := zpow_pos (by norm_num) k

/-- A decimal that is the magnitude of a nonzero real has a digit that is not zero. -/
theorem significand_ne_zero (nonzero : x.isZero = false)
    (exact : (significand : ℚ) * 10 ^ exponent = x.magnitude) : significand ≠ 0 := by
  rintro rfl
  have vanishes := magnitude_pos nonzero
  rw [← exact, Nat.cast_zero, zero_mul] at vanishes
  exact lt_irrefl 0 vanishes

/-- No decimal with the value of a finite real has so large an exponent that it is not expanded. -/
theorem decimal_exponent_le (finite : x.isFinite = true) (nonzero : x.isZero = false)
    (exact : (significand : ℚ) * 10 ^ exponent = x.magnitude) : exponent ≤ 400 := by
  by_contra large
  have one_le : (1 : ℚ) ≤ significand := by
    exact_mod_cast Nat.one_le_iff_ne_zero.2 (significand_ne_zero nonzero exact)
  have reaches : (10 : ℚ) ^ (401 : Int) ≤ x.magnitude := by
    rw [← exact, ← one_mul ((10 : ℚ) ^ (401 : Int))]
    exact mul_le_mul one_le (zpow_le_zpow_right₀ (by norm_num) (not_le.1 large))
      (ten_zpow_pos _).le (by positivity)
  exact (magnitude_lt finite).not_ge reaches

/-- Nor so small an exponent. -/
theorem le_decimal_exponent (nonzero : x.isZero = false)
    (exact : (significand : ℚ) * 10 ^ exponent = x.magnitude) :
    -(400 + significand.log2 : Int) ≤ exponent := by
  by_contra small
  have digits : (significand : ℚ) ≤ 10 ^ (significand.log2 + 1 : Int) := by
    calc (significand : ℚ) ≤ 2 ^ (significand.log2 + 1) := by
          exact_mod_cast Nat.lt_log2_self.le
      _ ≤ 10 ^ (significand.log2 + 1) := by gcongr; norm_num
      _ = 10 ^ (significand.log2 + 1 : Int) := by norm_cast
  have vanishes : x.magnitude ≤ 10 ^ (-400 : Int) := by
    calc x.magnitude ≤ 10 ^ (significand.log2 + 1 : Int) * 10 ^ exponent := by
          rw [← exact]
          exact mul_le_mul_of_nonneg_right digits (ten_zpow_pos _).le
      _ = 10 ^ ((significand.log2 + 1 : Int) + exponent) := (zpow_add₀ (by norm_num) _ _).symm
      _ ≤ 10 ^ (-400 : Int) := zpow_le_zpow_right₀ (by norm_num) (by omega)
  exact (lt_magnitude nonzero).not_ge vanishes

/-- A decimal with the value of a finite real is read as that real. -/
theorem ofDecimal_eq (finite : x.isFinite = true) (nonzero : x.isZero = false)
    (exact : (significand : ℚ) * 10 ^ exponent = x.magnitude) :
    ofDecimal x.negative significand exponent = x := by
  unfold ofDecimal
  rw [if_neg (significand_ne_zero nonzero exact),
    if_neg (not_lt.2 (decimal_exponent_le finite nonzero exact)),
    if_neg (not_lt.2 (le_decimal_exponent nonzero exact))]
  cases exponent with
  | ofNat p =>
    refine ofRatio_eq finite nonzero Nat.one_pos ?_
    rw [← exact, Int.ofNat_eq_natCast, zpow_natCast, Nat.cast_one, mul_one]
    norm_cast
  | negSucc p =>
    refine ofRatio_eq finite nonzero (Nat.pow_pos (by decide)) ?_
    rw [← exact, zpow_negSucc]
    have ten : (10 : ℚ) ^ (p + 1) ≠ 0 := by positivity
    have cast : ((Nat.pow 10 (p + 1) : Nat) : ℚ) = 10 ^ (p + 1) := by norm_cast
    rw [cast, mul_assoc, inv_mul_cancel₀ ten, mul_one]

end Decimals

end Real64

end Qumode

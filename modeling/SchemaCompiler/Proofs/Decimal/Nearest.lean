import SchemaCompiler.Proofs.Decimal.Shortest

/-
Reading the nearest double.

A decimal that lies in the interval of a double is read as that double.  The exponent that is
chosen is that of the double, except next to a power of two: there a number below the power
is scaled one place further, and its significand then carries into the exponent.
-/

namespace SchemaCompiler
namespace Decimal

/-! ### Rounding -/

/-- A quotient at most one half from a whole number is rounded to it, and a tie only when the
whole number is even. -/
theorem roundToEven_eq {n d m : Nat} (positive : 0 < d) (low : 2 * (m * d) ≤ 2 * n + d)
    (high : 2 * n ≤ 2 * (m * d) + d)
    (odd : m % 2 = 1 → 2 * (m * d) < 2 * n + d ∧ 2 * n < 2 * (m * d) + d) :
    roundToEven n d = m := by
  have split := Nat.div_add_mod n d
  have rest := Nat.mod_lt n positive
  rw [roundToEven]
  generalize n / d = q at split
  generalize n % d = r at split rest
  rw [Nat.mul_comm] at split
  -- The quotient is the whole number itself or the one before it.
  have atLeast : m ≤ q + 1 := by
    by_contra more
    have far : (q + 2) * d ≤ m * d := Nat.mul_le_mul_right d (by omega)
    rw [Nat.add_mul] at far
    omega
  have atMost : q ≤ m := by
    by_contra more
    have far : (m + 1) * d ≤ q * d := Nat.mul_le_mul_right d (by omega)
    rw [Nat.add_mul] at far
    omega
  rcases Nat.eq_or_lt_of_le atMost with rfl | before
  · split_ifs <;> omega
  · obtain rfl : m = q + 1 := by omega
    rw [Nat.add_mul] at low high odd
    split_ifs <;> omega

theorem roundToEven_eq_of_close {n d m : Nat} (positive : 0 < d)
    (low : (m : ℚ) - 1 / 2 ≤ n / d) (high : (n : ℚ) / d ≤ m + 1 / 2)
    (odd : m % 2 = 1 → (m : ℚ) - 1 / 2 < n / d ∧ (n : ℚ) / d < m + 1 / 2) :
    roundToEven n d = m := by
  have divisor : (0 : ℚ) < d := Nat.cast_pos.mpr positive
  rw [le_div_iff₀ divisor] at low
  rw [div_le_iff₀ divisor] at high
  rw [lt_div_iff₀ divisor, div_lt_iff₀ divisor] at odd
  apply roundToEven_eq positive
  · qify
    linarith
  · qify
    linarith
  · intro uneven
    have ⟨above, below⟩ := odd uneven
    constructor
    · qify
      linarith
    · qify
      linarith

/-! ### The exponent -/

theorem two_zpow_add (exponent : Int) (bits : Nat) :
    (2 : ℚ) ^ (exponent + bits) = 2 ^ bits * 2 ^ exponent := by
  rw [zpow_add₀ (by norm_num), zpow_natCast, mul_comm]

/-- The exponent at which a number is rounded: fifty-three bits stand before the point then, or
fewer at the least exponent. -/
structure IsScale (x : ℚ) (exponent : Int) : Prop where
  least : -1074 ≤ exponent
  below : x < 2 ^ (exponent + 53)
  full : exponent = -1074 ∨ 2 ^ (exponent + 52) ≤ x

section Scale

variable {numerator denominator : Nat}

theorem scaled_div (numerator denominator : Nat) (exponent : Int) :
    ((numerator * twoTo (-exponent).toNat : ℕ) : ℚ) / (denominator * twoTo exponent.toNat : ℕ) =
      numerator / denominator / 2 ^ exponent := by
  have powers := zpow_mul_pow_toNat (show (2 : ℚ) ≠ 0 by norm_num) exponent
  rw [twoTo, twoTo, Nat.pow_eq, Nat.pow_eq]
  push_cast
  rw [← powers]
  field_simp

theorem div_lt_two_zpow (positive : 0 < denominator) :
    (numerator : ℚ) / denominator < 2 ^ ((numerator.log2 : Int) - denominator.log2 + 1) := by
  have most : (numerator : ℚ) < 2 ^ ((numerator.log2 : Int) + 1) := by
    exact_mod_cast Nat.lt_log2_self
  have least : (2 : ℚ) ^ (denominator.log2 : Int) ≤ denominator := by
    exact_mod_cast Nat.log2_self_le positive.ne'
  calc (numerator : ℚ) / denominator
      < 2 ^ ((numerator.log2 : Int) + 1) / 2 ^ (denominator.log2 : Int) :=
        div_lt_div₀ most least (by positivity) (by positivity)
    _ = 2 ^ ((numerator.log2 : Int) - denominator.log2 + 1) := by
        rw [← zpow_sub₀ (by norm_num)]
        congr 1
        ring

theorem two_zpow_lt_div (positive : 0 < numerator) (divisor : 0 < denominator) :
    (2 : ℚ) ^ ((numerator.log2 : Int) - denominator.log2 - 1) < numerator / denominator := by
  have least : (2 : ℚ) ^ (numerator.log2 : Int) ≤ numerator := by
    exact_mod_cast Nat.log2_self_le positive.ne'
  have most : (denominator : ℚ) < 2 ^ ((denominator.log2 : Int) + 1) := by
    exact_mod_cast Nat.lt_log2_self
  calc (2 : ℚ) ^ ((numerator.log2 : Int) - denominator.log2 - 1)
      = 2 ^ (numerator.log2 : Int) / 2 ^ ((denominator.log2 : Int) + 1) := by
        rw [← zpow_sub₀ (by norm_num)]
        congr 1
        ring
    _ < numerator / denominator :=
        div_lt_div₀' least most (by positivity) (Nat.cast_pos.mpr divisor)

theorem scaled_pos (divisor : 0 < denominator) (exponent : Int) :
    0 < denominator * twoTo exponent.toNat :=
  Nat.mul_pos divisor (Nat.pow_pos (by decide))

theorem scaled_lt_iff (divisor : 0 < denominator) (exponent : Int) :
    numerator * twoTo (-exponent).toNat / (denominator * twoTo exponent.toNat) < twoTo 53 ↔
      (numerator : ℚ) / denominator < 2 ^ (exponent + 53) := by
  have bits : ((twoTo 53 : ℕ) : ℚ) = 2 ^ (53 : Int) := by norm_num [twoTo]
  rw [Nat.div_lt_iff_lt_mul (scaled_pos divisor exponent), ← Nat.cast_lt (α := ℚ),
    Nat.cast_mul (twoTo 53), ← div_lt_iff₀ (Nat.cast_pos.mpr (scaled_pos divisor exponent)), scaled_div,
    div_lt_iff₀ (by positivity), bits, ← zpow_add₀ (by norm_num), add_comm]

/-- The first guess at the exponent is the exponent or the one before it. -/
theorem nearestPattern_of_isScale (positive : 0 < numerator) (divisor : 0 < denominator)
    {exponent : Int} (scale : IsScale (numerator / denominator) exponent) :
    nearestPattern numerator denominator = (exponent + 1074).toNat * twoTo 52 +
      roundToEven (numerator * twoTo (-exponent).toNat) (denominator * twoTo exponent.toNat) := by
  unfold nearestPattern
  extract_lets guess scaled chosen
  have start : guess = max ((numerator.log2 : Int) - denominator.log2 - 53) (-1074) := rfl
  have ⟨least, below, full⟩ := scale
  have ordered {j k : Int} (less : (2 : ℚ) ^ j < 2 ^ k) : j < k :=
    (zpow_lt_zpow_iff_right₀ (by norm_num)).mp less
  have late := ordered ((two_zpow_lt_div positive divisor).trans below)
  have same : chosen = exponent := by
    simp only [chosen, scaled, scaled_lt_iff divisor]
    split_ifs with fits
    · rcases full with rfl | full
      · omega
      · have early := ordered (full.trans_lt fits)
        omega
    · have passed := ordered ((le_of_not_gt fits).trans_lt below)
      rcases full with rfl | full
      · omega
      · have early := ordered (full.trans_lt (div_lt_two_zpow divisor))
        omega
  rw [same]
  rfl

end Scale

/-! ### Doubles -/

section Double

variable {significand : Nat} {exponent : Int} {x : ℚ}

theorem half_below_le_lowerEnd (positive : 0 < significand) :
    ((significand : ℚ) - 1 / 2) * 2 ^ exponent ≤ lowerEnd significand exponent := by
  have reached := reach_le_two significand exponent
  have quarters : 4 * significand ≤ 4 * significand - reach significand exponent + 2 := by omega
  have cast : (4 : ℚ) * significand ≤ (4 * significand - reach significand exponent : ℕ) + 2 := by
    exact_mod_cast quarters
  have unit : (0 : ℚ) < 2 ^ (exponent - 2) := by positivity
  calc ((significand : ℚ) - 1 / 2) * 2 ^ exponent
      = (4 * significand - 2) * 2 ^ (exponent - 2) := by
        rw [zpow_sub₀ (by norm_num)]
        ring
    _ ≤ (4 * significand - reach significand exponent : ℕ) * 2 ^ (exponent - 2) :=
        mul_le_mul_of_nonneg_right (by linarith) unit.le

theorem upperEnd_eq_half_above (significand : Nat) (exponent : Int) :
    upperEnd significand exponent = ((significand : ℚ) + 1 / 2) * 2 ^ exponent := by
  rw [upperEnd, zpow_sub₀ (by norm_num)]
  push_cast
  ring

/-- Below a power of two the interval of a double reaches only a quarter of its last place, which
is half of the last place there. -/
theorem lowerEnd_of_power (normal : leastExponent < exponent) :
    lowerEnd (twoTo 52) exponent = (2 ^ 53 - 1 / 2) * 2 ^ (exponent - 1) := by
  rw [lowerEnd, reach, if_pos ⟨rfl, normal⟩, zpow_sub₀ (by norm_num), zpow_sub₀ (by norm_num)]
  norm_num [twoTo]
  ring

section Inside

variable (finite : IsFinite significand exponent) (positive : 0 < significand)
  (inside : Inside significand exponent x)

include finite inside

theorem lt_of_inside : x < 2 ^ (exponent + 53) := by
  have fits : (significand : ℚ) + 1 ≤ 2 ^ 53 := by exact_mod_cast finite.fits
  calc x ≤ (significand + 1 / 2) * 2 ^ exponent :=
        upperEnd_eq_half_above significand exponent ▸ inside.high
    _ < 2 ^ 53 * 2 ^ exponent := mul_lt_mul_of_pos_right (by linarith) (by positivity)
    _ = 2 ^ (exponent + 53) := (two_zpow_add exponent 53).symm

include positive

/-- Only the interval of a power of two reaches below the scale of its double. -/
theorem eq_power_of_inside (normal : exponent ≠ -1074) (short : x < 2 ^ (exponent + 52)) :
    significand = twoTo 52 := by
  have unit : (0 : ℚ) < 2 ^ exponent := by positivity
  have full : 2 ^ 52 ≤ significand := finite.normal.resolve_right normal
  have few : ((significand : ℚ) - 1 / 2) * 2 ^ exponent < 2 ^ 52 * 2 ^ exponent := by
    calc ((significand : ℚ) - 1 / 2) * 2 ^ exponent ≤ lowerEnd significand exponent :=
          half_below_le_lowerEnd positive
      _ ≤ x := inside.low
      _ < 2 ^ (exponent + 52) := short
      _ = 2 ^ 52 * 2 ^ exponent := two_zpow_add exponent 52
  have most : (significand : ℚ) < 2 ^ 52 + 1 := by
    have bits := lt_of_mul_lt_mul_right few unit.le
    linarith
  have whole : significand < 2 ^ 52 + 1 := by exact_mod_cast most
  have carry : twoTo 52 = 2 ^ 52 := rfl
  omega

end Inside

end Double

section Pattern

variable {significand : Nat} {exponent : Int} {numerator denominator : Nat}

/-- The bits below the sign of a finite double. -/
def patternOf (significand : Nat) (exponent : Int) : Nat :=
  (exponent + 1074).toNat * twoTo 52 + significand

theorem nearestPattern_of_full (finite : IsFinite significand exponent)
    (positive : 0 < significand) (number : 0 < numerator) (divisor : 0 < denominator)
    (inside : Inside significand exponent (numerator / denominator))
    (full : exponent = -1074 ∨ (2 : ℚ) ^ (exponent + 52) ≤ numerator / denominator) :
    nearestPattern numerator denominator = patternOf significand exponent := by
  have unit : (0 : ℚ) < 2 ^ exponent := by positivity
  have low : ((significand : ℚ) - 1 / 2) * 2 ^ exponent ≤ lowerEnd significand exponent :=
    half_below_le_lowerEnd positive
  have high := upperEnd_eq_half_above significand exponent
  rw [nearestPattern_of_isScale number divisor
    ⟨finite.least, lt_of_inside finite inside, full⟩, patternOf]
  congr 1
  apply roundToEven_eq_of_close (scaled_pos divisor exponent)
  · rw [scaled_div, le_div_iff₀ unit]
    exact low.trans inside.low
  · rw [scaled_div, div_le_iff₀ unit, ← high]
    exact inside.high
  · intro uneven
    have ⟨above, below⟩ := inside.odd uneven
    rw [scaled_div, lt_div_iff₀ unit, div_lt_iff₀ unit, ← high]
    exact ⟨low.trans_lt above, below⟩

/-- Next to a power of two the significand carries into the exponent. -/
theorem nearestPattern_of_short (finite : IsFinite significand exponent)
    (positive : 0 < significand) (number : 0 < numerator) (divisor : 0 < denominator)
    (inside : Inside significand exponent (numerator / denominator)) (normal : exponent ≠ -1074)
    (short : (numerator : ℚ) / denominator < 2 ^ (exponent + 52)) :
    nearestPattern numerator denominator = patternOf significand exponent := by
  have above : -1074 < exponent := lt_of_le_of_ne finite.least normal.symm
  obtain rfl := eq_power_of_inside finite positive inside normal short
  have unit : (0 : ℚ) < 2 ^ (exponent - 1) := by positivity
  have low : (2 ^ 53 - 1 / 2) * 2 ^ (exponent - 1) ≤ (numerator : ℚ) / denominator :=
    lowerEnd_of_power above ▸ inside.low
  have below : (numerator : ℚ) / denominator < 2 ^ (exponent - 1 + 53) := by
    rwa [show exponent - 1 + 53 = exponent + 52 by ring]
  have high : (numerator : ℚ) / denominator < 2 ^ 53 * 2 ^ (exponent - 1) :=
    below.trans_eq (two_zpow_add _ 53)
  have least : (2 : ℚ) ^ (exponent - 1 + 52) ≤ numerator / denominator := by
    calc (2 : ℚ) ^ (exponent - 1 + 52) = 2 ^ 52 * 2 ^ (exponent - 1) := two_zpow_add _ 52
      _ ≤ (2 ^ 53 - 1 / 2) * 2 ^ (exponent - 1) :=
          mul_le_mul_of_nonneg_right (by norm_num) unit.le
      _ ≤ numerator / denominator := low
  have scale : IsScale ((numerator : ℚ) / denominator) (exponent - 1) :=
    ⟨by omega, below, .inr least⟩
  have rounded : roundToEven (numerator * twoTo (-(exponent - 1)).toNat)
      (denominator * twoTo (exponent - 1).toNat) = 2 ^ 53 := by
    apply roundToEven_eq_of_close (scaled_pos divisor _)
    · rw [scaled_div, le_div_iff₀ unit]
      exact_mod_cast low
    · rw [scaled_div, div_le_iff₀ unit]
      push_cast
      linarith
    · norm_num
  -- The full significand one binade below is the least one of this binade.
  have carry : twoTo 52 = 2 ^ 52 := rfl
  rw [nearestPattern_of_isScale number divisor scale, rounded, patternOf, carry]
  omega

theorem nearestPattern_of_inside (finite : IsFinite significand exponent)
    (positive : 0 < significand) (number : 0 < numerator) (divisor : 0 < denominator)
    (inside : Inside significand exponent (numerator / denominator)) :
    nearestPattern numerator denominator = patternOf significand exponent := by
  by_cases full : exponent = -1074 ∨ (2 : ℚ) ^ (exponent + 52) ≤ numerator / denominator
  · exact nearestPattern_of_full finite positive number divisor inside full
  · have ⟨normal, short⟩ := not_or.mp full
    exact nearestPattern_of_short finite positive number divisor inside normal
      (lt_of_not_ge short)

theorem patternOf_lt (finite : IsFinite significand exponent) :
    patternOf significand exponent < infinitePattern := by
  have ⟨_, greatest, fits, _⟩ := finite
  have carry : twoTo 52 = 2 ^ 52 := rfl
  rw [patternOf, infinitePattern, carry]
  omega

theorem scaled_ratio (x : Scaled) :
    ((x.coefficient * tenTo x.exponent.toNat : ℕ) : ℚ) / (tenTo (-x.exponent).toNat : ℕ) =
      x.value := by
  have powers := zpow_mul_pow_toNat (show (10 : ℚ) ≠ 0 by norm_num) x.exponent
  rw [tenTo, tenTo, Nat.pow_eq, Nat.pow_eq, Scaled.value]
  push_cast
  rw [← powers]
  field_simp

section Range

variable {x : Scaled} (finite : IsFinite significand exponent) (positive : 0 < significand)
  (inside : Inside significand exponent x.value)

include finite positive inside

theorem point_le_of_inside : (digits x.coefficient).length + x.exponent ≤ 310 := by
  rw [point_le_iff (coefficient_pos_of_inside positive inside)]
  calc x.value < 2 ^ (exponent + 53) := lt_of_inside finite inside
    _ ≤ 2 ^ (1024 : Int) := by
        have greatest := finite.greatest
        exact zpow_le_zpow_right₀ (by norm_num) (by omega)
    _ ≤ 10 ^ (310 : Int) := two_zpow_le_ten_zpow (by norm_num) (by norm_num)

theorem le_point_of_inside : -326 ≤ (digits x.coefficient).length + x.exponent := by
  have one : (1 : ℚ) ≤ significand := Nat.one_le_cast.mpr positive
  have reached : (10 : ℚ) ^ (-327 : Int) ≤ x.value := by
    calc (10 : ℚ) ^ (-327 : Int) ≤ 2 ^ (-1075 : Int) :=
          ten_zpow_le_two_zpow (by norm_num) (by norm_num)
      _ = 1 / 2 * 2 ^ (-1074 : Int) := by
          rw [show (-1075 : Int) = -1074 - 1 from rfl, zpow_sub_one₀ (by norm_num), mul_comm,
            one_div]
      _ ≤ (significand - 1 / 2) * 2 ^ exponent := by
          apply mul_le_mul (by linarith) _ (by positivity) (by linarith)
          exact zpow_le_zpow_right₀ (by norm_num) finite.least
      _ ≤ x.value := (half_below_le_lowerEnd positive).trans inside.low
  have notBelow := mt (point_le_iff (coefficient_pos_of_inside positive inside) (-327)).mp
    reached.not_gt
  omega

/-- A decimal in the interval of a double is read as that double. -/
theorem ofDecimal?_of_inside (negative : Bool) :
    Binary64.ofDecimal? negative x.coefficient x.exponent =
      some (.ofPattern negative (patternOf significand exponent)) := by
  have coefficient := coefficient_pos_of_inside positive inside
  have nearest : nearestPattern (x.coefficient * tenTo x.exponent.toNat)
      (tenTo (-x.exponent).toNat) = patternOf significand exponent := by
    apply nearestPattern_of_inside finite positive
    · exact Nat.mul_pos coefficient (Nat.pow_pos (by decide))
    · exact Nat.pow_pos (by decide)
    · rwa [scaled_ratio]
  have large := point_le_of_inside finite positive inside
  have small := le_point_of_inside finite positive inside
  rw [Binary64.ofDecimal?]
  simp only [coefficient.ne', if_false, not_lt.mpr large, not_lt.mpr small, nearest,
    patternOf_lt finite, if_true]

end Range

/-! ### Bits -/

theorem pattern_eq_patternOf {x : Binary64} {significand : Nat} {exponent : Int}
    (denotes : x.magnitude = .finite significand exponent) :
    x.pattern = patternOf significand exponent := by
  have split : x.pattern = 2 ^ 52 * (x.pattern / twoTo 52) + x.pattern % twoTo 52 :=
    (Nat.div_add_mod _ _).symm
  have carry : twoTo 52 = 2 ^ 52 := rfl
  have least : leastExponent = -1074 := rfl
  unfold Binary64.magnitude at denotes
  dsimp only at denotes
  split_ifs at denotes with all none zero <;> cases denotes <;> rw [patternOf, carry] at * <;>
    omega

theorem ofPattern_pattern (x : Binary64) : .ofPattern x.isNegative x.pattern = x := by
  have bounded : x.bits.toNat < 2 ^ 64 := x.bits.toNat_lt
  have half : twoTo 63 = 2 ^ 63 := rfl
  have whole : (if x.isNegative then twoTo 63 + x.pattern else x.pattern) = x.bits.toNat := by
    simp only [Binary64.isNegative, Binary64.pattern, decide_eq_true_eq, half]
    split_ifs <;> omega
  rw [Binary64.ofPattern, whole, UInt64.ofNat_toNat]

theorem pattern_ofPattern (negative : Bool) {pattern : Nat} (bounded : pattern < infinitePattern) :
    (Binary64.ofPattern negative pattern).pattern = pattern := by
  have most : infinitePattern = 2047 * 2 ^ 52 := rfl
  have half : twoTo 63 = 2 ^ 63 := rfl
  rw [Binary64.pattern, Binary64.ofPattern, UInt64.toNat_ofNat', half]
  cases negative <;> simp <;> omega

theorem exists_finite_of_ofDecimal? {negative : Bool} {coefficient : Nat} {exponent : Int}
    {x : Binary64} (read : Binary64.ofDecimal? negative coefficient exponent = some x) :
    ∃ significand exponent, x.magnitude = .finite significand exponent := by
  unfold Binary64.ofDecimal? at read
  extract_lets place pattern at read
  split_ifs at read with bounded
  cases read
  have scale : pattern / twoTo 52 ≠ 2047 :=
    (Nat.div_lt_of_lt_mul (Nat.mul_comm 2047 _ ▸ bounded)).ne
  rw [Binary64.magnitude, pattern_ofPattern negative bounded, if_neg scale]
  split_ifs
  · exact ⟨_, _, rfl⟩
  · exact ⟨_, _, rfl⟩

theorem ofDecimal?_zero (negative : Bool) (exponent : Int) :
    Binary64.ofDecimal? negative 0 exponent = some (.ofPattern negative 0) := by
  rfl

/-- The shortest decimal of a double is read as that double. -/
theorem ofDecimal?_shortest {x : Binary64} {significand : Nat} {exponent : Int} (tie : Tie)
    (denotes : x.magnitude = .finite significand exponent) (positive : 0 < significand) :
    Binary64.ofDecimal? x.isNegative (shortest tie significand exponent).coefficient
      (shortest tie significand exponent).exponent = some x := by
  have finite := isFinite_of_magnitude denotes
  rw [ofDecimal?_of_inside finite positive (inside_shortest tie finite positive),
    ← pattern_eq_patternOf denotes, ofPattern_pattern]

end Pattern

end Decimal
end SchemaCompiler

import SchemaCompiler.Decimal.Shortest
import SchemaCompiler.Proofs.Decimal.Digits

/-
The shortest decimal as a number.

The search for the shortest decimal compares whole numbers of a unit that is fine enough
for both powers; here they are compared as rationals.  A grid is passed by only when none
of its points is inside the interval of the double, so what is found has at least the
decimal places of the double, and the last grid is finer than the interval.
-/

namespace SchemaCompiler
namespace Decimal

def Scaled.value (x : Scaled) : ℚ :=
  x.coefficient * (10 : ℚ) ^ x.exponent

/-- The absolute value of a double-precision number, if it has one. -/
def Magnitude.value? : Magnitude → Option ℚ
  | .finite significand exponent => some (significand * (2 : ℚ) ^ exponent)
  | .infinite | .notANumber => none

/-- The significands and exponents of finite patterns. -/
structure IsFinite (significand : Nat) (exponent : Int) : Prop where
  least : -1074 ≤ exponent
  greatest : exponent ≤ 971
  fits : significand < 2 ^ 53
  normal : 2 ^ 52 ≤ significand ∨ exponent = -1074

theorem isFinite_of_magnitude {x : Binary64} {significand : Nat} {exponent : Int}
    (denotes : x.magnitude = .finite significand exponent) : IsFinite significand exponent := by
  have bounded : x.pattern < 2 ^ 63 := Nat.mod_lt _ (by decide)
  have split : x.pattern = 2 ^ 52 * (x.pattern / twoTo 52) + x.pattern % twoTo 52 :=
    (Nat.div_add_mod _ _).symm
  have fraction : x.pattern % twoTo 52 < 2 ^ 52 := Nat.mod_lt _ (by decide)
  have carry : twoTo 52 = 2 ^ 52 := rfl
  have least : leastExponent = -1074 := rfl
  unfold Binary64.magnitude at denotes
  dsimp only at denotes
  split_ifs at denotes with all none zero <;> cases denotes
  · exact ⟨Int.le_refl _, by decide, by omega, .inr rfl⟩
  · constructor <;> omega

/-- How far the interval of a double reaches downward, in quarters of its last place. -/
def reach (significand : Nat) (exponent : Int) : Nat :=
  if significand = twoTo 52 ∧ leastExponent < exponent then 1 else 2

def lowerEnd (significand : Nat) (exponent : Int) : ℚ :=
  (4 * significand - reach significand exponent : ℕ) * (2 : ℚ) ^ (exponent - 2)

def upperEnd (significand : Nat) (exponent : Int) : ℚ :=
  (4 * significand + 2 : ℕ) * (2 : ℚ) ^ (exponent - 2)

/-- Whether a number lies in the interval of a double, to which the ends belong when the
significand is even. -/
structure Inside (significand : Nat) (exponent : Int) (x : ℚ) : Prop where
  low : lowerEnd significand exponent ≤ x
  high : x ≤ upperEnd significand exponent
  odd : significand % 2 = 1 →
    lowerEnd significand exponent < x ∧ x < upperEnd significand exponent

/-! ### Powers of two and ten -/

theorem zpow_mul_pow_toNat {base : ℚ} (nonzero : base ≠ 0) (k : ℤ) :
    base ^ k * base ^ (-k).toNat = base ^ k.toNat := by
  rw [← zpow_natCast, ← zpow_natCast, ← zpow_add₀ nonzero]
  congr 1
  omega

theorem two_pow_le_ten_pow {j k : ℕ} (few : 28 * j ≤ 93 * k) : 2 ^ j ≤ 10 ^ k := by
  have powers : (2 ^ j) ^ 28 ≤ (10 ^ k) ^ 28 := by
    calc (2 ^ j) ^ 28 = 2 ^ (28 * j) := by rw [← pow_mul, mul_comm]
      _ ≤ 2 ^ (93 * k) := Nat.pow_le_pow_right (by decide) few
      _ = (2 ^ 93) ^ k := pow_mul 2 93 k
      _ ≤ (10 ^ 28) ^ k := Nat.pow_le_pow_left (by decide) k
      _ = (10 ^ k) ^ 28 := by rw [← pow_mul, ← pow_mul, mul_comm]
  exact (Nat.pow_le_pow_iff_left (by decide)).mp powers

theorem ten_pow_le_two_pow {j k : ℕ} (many : 196 * k ≤ 59 * j) : 10 ^ k ≤ 2 ^ j := by
  have powers : (10 ^ k) ^ 59 ≤ (2 ^ j) ^ 59 := by
    calc (10 ^ k) ^ 59 = (10 ^ 59) ^ k := by rw [← pow_mul, ← pow_mul, mul_comm]
      _ ≤ (2 ^ 196) ^ k := Nat.pow_le_pow_left (by decide) k
      _ = 2 ^ (196 * k) := (pow_mul 2 196 k).symm
      _ ≤ 2 ^ (59 * j) := Nat.pow_le_pow_right (by decide) many
      _ = (2 ^ j) ^ 59 := by rw [← pow_mul, mul_comm]
  exact (Nat.pow_le_pow_iff_left (by decide)).mp powers

/-- `93 / 28` and `196 / 59` stand close on either side of the logarithm of ten to base two. -/
theorem two_zpow_le_ten_zpow {j k : ℤ} (above : 28 * j ≤ 93 * k) (below : 59 * j ≤ 196 * k) :
    (2 : ℚ) ^ j ≤ 10 ^ k := by
  rcases le_or_gt 0 j with nonneg | neg
  · lift j to ℕ using nonneg
    lift k to ℕ using by omega
    rw [zpow_natCast, zpow_natCast]
    exact_mod_cast two_pow_le_ten_pow (by omega)
  · rcases le_or_gt 0 k with large | small
    · calc (2 : ℚ) ^ j ≤ 1 := zpow_le_one_of_nonpos₀ (by norm_num) neg.le
        _ ≤ 10 ^ k := one_le_zpow₀ (by norm_num) large
    · obtain ⟨m, rfl⟩ := Int.exists_eq_neg_ofNat neg.le
      obtain ⟨n, rfl⟩ := Int.exists_eq_neg_ofNat small.le
      rw [zpow_neg, zpow_neg, zpow_natCast, zpow_natCast]
      apply inv_anti₀ (by positivity)
      exact_mod_cast ten_pow_le_two_pow (by omega)

theorem ten_zpow_le_two_zpow {j k : ℤ} (above : 196 * k ≤ 59 * j) (below : 93 * k ≤ 28 * j) :
    (10 : ℚ) ^ k ≤ 2 ^ j := by
  rcases le_or_gt 0 k with nonneg | neg
  · lift k to ℕ using nonneg
    lift j to ℕ using by omega
    rw [zpow_natCast, zpow_natCast]
    exact_mod_cast ten_pow_le_two_pow (by omega)
  · rcases le_or_gt 0 j with large | small
    · calc (10 : ℚ) ^ k ≤ 1 := zpow_le_one_of_nonpos₀ (by norm_num) neg.le
        _ ≤ 2 ^ j := one_le_zpow₀ (by norm_num) large
    · obtain ⟨m, rfl⟩ := Int.exists_eq_neg_ofNat neg.le
      obtain ⟨n, rfl⟩ := Int.exists_eq_neg_ofNat small.le
      rw [zpow_neg, zpow_neg, zpow_natCast, zpow_natCast]
      apply inv_anti₀ (by positivity)
      exact_mod_cast two_pow_le_ten_pow (by omega)

/-- The decimal point stands before the `k`-th place exactly below the `k`-th power of ten. -/
theorem point_le_iff {x : Scaled} (positive : 0 < x.coefficient) (k : Int) :
    (digits x.coefficient).length + x.exponent ≤ k ↔ x.value < (10 : ℚ) ^ k := by
  have scaled : x.value < (10 : ℚ) ^ k ↔ (x.coefficient : ℚ) < 10 ^ (k - x.exponent) := by
    rw [Scaled.value, zpow_sub₀ (by norm_num), lt_div_iff₀ (by positivity)]
  have nonempty := List.length_pos_iff.mpr (digits_ne_nil x.coefficient)
  rw [scaled]
  rcases le_or_gt (k - x.exponent) 0 with none | some
  · constructor
    · intro fits
      omega
    · intro less
      have small : (10 : ℚ) ^ (k - x.exponent) ≤ 1 := zpow_le_one_of_nonpos₀ (by norm_num) none
      have large : (1 : ℚ) ≤ x.coefficient := Nat.one_le_cast.mpr positive
      linarith
  · obtain ⟨places, count⟩ := Int.eq_ofNat_of_zero_le some.le
    have counted : (digits x.coefficient).length ≤ places ↔ x.coefficient < 10 ^ places :=
      Nat.length_toDigits_le_iff (by decide) (by omega)
    rw [count, zpow_natCast, ← Nat.cast_ofNat, ← Nat.cast_pow, Nat.cast_lt, ← counted]
    omega

/-! ### One grid -/

/-- Both units of a comparison are powers, up to one factor. -/
theorem exists_common_factor (quarter place : ℤ) : ∃ factor : ℚ, 0 < factor ∧
    ((twoTo (-quarter).toNat * tenTo place.toNat : ℕ) : ℚ) = (10 : ℚ) ^ place * factor ∧
      ((twoTo quarter.toNat * tenTo (-place).toNat : ℕ) : ℚ) = (2 : ℚ) ^ quarter * factor := by
  refine ⟨2 ^ (-quarter).toNat * 10 ^ (-place).toNat, by positivity, ?_, ?_⟩
  · calc ((twoTo (-quarter).toNat * tenTo place.toNat : ℕ) : ℚ)
        = 2 ^ (-quarter).toNat * 10 ^ place.toNat := by
          rw [twoTo, tenTo, Nat.pow_eq, Nat.pow_eq]
          push_cast
          rfl
      _ = 2 ^ (-quarter).toNat * ((10 : ℚ) ^ place * 10 ^ (-place).toNat) := by
          rw [zpow_mul_pow_toNat (by norm_num)]
      _ = (10 : ℚ) ^ place * (2 ^ (-quarter).toNat * 10 ^ (-place).toNat) := by ring
  · calc ((twoTo quarter.toNat * tenTo (-place).toNat : ℕ) : ℚ)
        = 2 ^ quarter.toNat * 10 ^ (-place).toNat := by
          rw [twoTo, tenTo, Nat.pow_eq, Nat.pow_eq]
          push_cast
          rfl
      _ = (2 : ℚ) ^ quarter * 2 ^ (-quarter).toNat * 10 ^ (-place).toNat := by
          rw [zpow_mul_pow_toNat (by norm_num)]
      _ = (2 : ℚ) ^ quarter * (2 ^ (-quarter).toNat * 10 ^ (-place).toNat) := by ring

section Units

variable {c n : ℕ} {quarter place : ℤ}

theorem mul_step_le_iff :
    c * (twoTo (-quarter).toNat * tenTo place.toNat) ≤
        n * (twoTo quarter.toNat * tenTo (-place).toNat) ↔
      (c : ℚ) * 10 ^ place ≤ n * 2 ^ quarter := by
  obtain ⟨factor, positive, stepEq, unitEq⟩ := exists_common_factor quarter place
  rw [← Nat.cast_le (α := ℚ), Nat.cast_mul, Nat.cast_mul n, stepEq, unitEq, ← mul_assoc,
    ← mul_assoc, mul_le_mul_iff_left₀ positive]

theorem mul_unit_le_iff :
    n * (twoTo quarter.toNat * tenTo (-place).toNat) ≤
        c * (twoTo (-quarter).toNat * tenTo place.toNat) ↔
      (n : ℚ) * 2 ^ quarter ≤ c * 10 ^ place := by
  obtain ⟨factor, positive, stepEq, unitEq⟩ := exists_common_factor quarter place
  rw [← Nat.cast_le (α := ℚ), Nat.cast_mul, Nat.cast_mul c, stepEq, unitEq, ← mul_assoc,
    ← mul_assoc, mul_le_mul_iff_left₀ positive]

end Units

section Grid

variable {tie : Tie} {significand coefficient : Nat} {exponent place : Int}

theorem Tie.choose_eq_or (tie : Tie) (below : Nat) :
    tie.choose below = below ∨ tie.choose below = below + 1 := by
  cases tie with
  | up => exact .inr rfl
  | even =>
      rw [Tie.choose]
      omega

theorem inside_of_onGrid? (hit : onGrid? tie significand exponent place = some coefficient) :
    Inside significand exponent (coefficient * (10 : ℚ) ^ place) := by
  unfold onGrid? at hit
  extract_lets quarter unit step number downward low high inside below gapBelow gapAbove at hit
  have chosen : inside coefficient = true := by
    cases first : inside below <;> cases second : inside (below + 1) <;>
      simp only [first, second, Option.some.injEq, reduceCtorEq] at hit
    · exact hit ▸ second
    · exact hit ▸ first
    · have either : coefficient = below ∨ coefficient = below + 1 := by
        have tied := tie.choose_eq_or below
        split_ifs at hit <;> omega
      rcases either with rfl | rfl
      · exact first
      · exact second
  have ends : low ≤ coefficient * step ∧ coefficient * step ≤ high ∧
      (significand % 2 = 1 → low < coefficient * step ∧ coefficient * step < high) := by
    simp only [inside] at chosen
    split_ifs at chosen <;> simp only [Bool.and_eq_true, decide_eq_true_eq] at chosen <;> omega
  have ⟨least, greatest, odd⟩ := ends
  refine ⟨mul_unit_le_iff.mp least, mul_step_le_iff.mp greatest, fun uneven => ?_⟩
  exact ⟨lt_of_not_ge (mt mul_step_le_iff.mpr (odd uneven).1.not_ge),
    lt_of_not_ge (mt mul_unit_le_iff.mpr (odd uneven).2.not_ge)⟩

/-- A grid with a point inside the interval is not passed by. -/
theorem onGrid?_ne_none (c : Nat) (above : lowerEnd significand exponent < c * (10 : ℚ) ^ place)
    (below : c * (10 : ℚ) ^ place < upperEnd significand exponent) :
    onGrid? tie significand exponent place ≠ none := by
  have aboveLow := lt_of_not_ge (mt mul_step_le_iff.mp above.not_ge)
  have belowHigh := lt_of_not_ge (mt mul_unit_le_iff.mp below.not_ge)
  unfold onGrid?
  extract_lets quarter unit step number downward low high inside floor gapBelow gapAbove
  have unitPos : 0 < unit := Nat.mul_pos (Nat.pow_pos (by decide)) (Nat.pow_pos (by decide))
  have stepPos : 0 < step := Nat.mul_pos (Nat.pow_pos (by decide)) (Nat.pow_pos (by decide))
  have insideOf {point : Nat} (least : low < point * step) (greatest : point * step < high) :
      inside point = true := by
    simp only [inside]
    split_ifs <;> simp only [Bool.and_eq_true, decide_eq_true_eq] <;> omega
  have floorLe : floor * step ≤ number := Nat.div_mul_le_self number step
  have ltNext : number < (floor + 1) * step := by
    have next := Nat.lt_mul_div_succ number stepPos
    rwa [mul_comm] at next
  have lowLe : low ≤ number := Nat.mul_le_mul_right unit (Nat.sub_le _ _)
  have ltHigh : number < high := Nat.mul_lt_mul_of_pos_right (by omega) unitPos
  -- A point of the interval lies on either side of the number, where its neighbour does too.
  have either : inside floor = true ∨ inside (floor + 1) = true := by
    rcases Nat.lt_or_ge floor c with far | near
    · have beyond : (floor + 1) * step ≤ c * step := Nat.mul_le_mul_right step far
      exact .inr (insideOf (by omega) (beyond.trans_lt belowHigh))
    · have behind : c * step ≤ floor * step := Nat.mul_le_mul_right step near
      exact .inl (insideOf (lt_of_lt_of_le aboveLow behind) (by omega))
  rcases either with first | second
  · rw [first]
    cases inside (floor + 1) <;> simp
  · rw [second]
    cases inside floor <;> simp

end Grid

/-! ### The search -/

section Interval

variable {significand : Nat} {exponent : Int}

theorem value_eq_quarters (significand : Nat) (exponent : Int) :
    significand * (2 : ℚ) ^ exponent = (4 * significand : ℕ) * (2 : ℚ) ^ (exponent - 2) := by
  rw [zpow_sub₀ (by norm_num)]
  push_cast
  ring

theorem one_le_reach (significand : Nat) (exponent : Int) : 1 ≤ reach significand exponent := by
  unfold reach
  split <;> decide

theorem reach_le_two (significand : Nat) (exponent : Int) : reach significand exponent ≤ 2 := by
  unfold reach
  split <;> decide

theorem lowerEnd_pos (positive : 0 < significand) : 0 < lowerEnd significand exponent := by
  have reached := reach_le_two significand exponent
  have remains : 0 < 4 * significand - reach significand exponent := by omega
  exact mul_pos (Nat.cast_pos.mpr remains) (by positivity)

theorem coefficient_pos_of_inside (positive : 0 < significand) {x : Scaled}
    (inside : Inside significand exponent x.value) : 0 < x.coefficient := by
  have value := (lowerEnd_pos positive).trans_le inside.low
  by_contra none
  rw [Scaled.value, Nat.eq_zero_of_not_pos none, Nat.cast_zero, zero_mul] at value
  exact lt_irrefl 0 value

theorem lowerEnd_lt_value (positive : 0 < significand) :
    lowerEnd significand exponent < significand * (2 : ℚ) ^ exponent := by
  have reached := one_le_reach significand exponent
  have fewer : 4 * significand - reach significand exponent < 4 * significand := by omega
  rw [value_eq_quarters, lowerEnd]
  exact mul_lt_mul_of_pos_right (Nat.cast_lt.mpr fewer) (by positivity)

theorem value_lt_upperEnd (significand : Nat) (exponent : Int) :
    significand * (2 : ℚ) ^ exponent < upperEnd significand exponent := by
  rw [value_eq_quarters, upperEnd]
  exact mul_lt_mul_of_pos_right (Nat.cast_lt.mpr (by omega)) (by positivity)

theorem upperEnd_eq (significand : Nat) (exponent : Int) : upperEnd significand exponent =
    significand * (2 : ℚ) ^ exponent + (2 : ℚ) ^ (exponent - 1) := by
  rw [upperEnd, zpow_sub₀ (by norm_num), zpow_sub₀ (by norm_num)]
  push_cast
  ring

end Interval

/-- What the search finds: a hit on a grid such that all coarser grids are passed by. -/
structure IsFirstHit (tie : Tie) (significand : Nat) (exponent start : Int) (found : Scaled) :
    Prop where
  hit : onGrid? tie significand exponent found.exponent = some found.coefficient
  passed (place : Int) : found.exponent < place → place ≤ start →
    onGrid? tie significand exponent place = none

section Search

variable {tie : Tie} {significand : Nat} {exponent : Int}

theorem onGrid?_ne_none_of_fine {place : Int} (positive : 0 < significand)
    (fine : (10 : ℚ) ^ place ≤ 2 ^ (exponent - 1)) :
    onGrid? tie significand exponent place ≠ none := by
  let value := significand * (2 : ℚ) ^ exponent
  have step : (0 : ℚ) < 10 ^ place := by positivity
  have below : ⌊value / 10 ^ place⌋₊ * (10 : ℚ) ^ place ≤ value :=
    (le_div_iff₀ step).mp (Nat.floor_le (by positivity))
  have above : value < (⌊value / 10 ^ place⌋₊ + 1) * (10 : ℚ) ^ place :=
    (div_lt_iff₀ step).mp (Nat.lt_floor_add_one _)
  have low : lowerEnd significand exponent < value := lowerEnd_lt_value positive
  have high : value + 2 ^ (exponent - 1) = upperEnd significand exponent :=
    (upperEnd_eq significand exponent).symm
  rcases eq_or_lt_of_le below with exact | less
  · apply onGrid?_ne_none ⌊value / 10 ^ place⌋₊
    · rw [exact]
      exact low
    · rw [exact]
      exact value_lt_upperEnd significand exponent
  · apply onGrid?_ne_none (⌊value / 10 ^ place⌋₊ + 1)
    · push_cast
      exact low.trans above
    · push_cast
      linarith

theorem isFirstHit_firstHit {tries : Nat} {start : Int}
    (last : onGrid? tie significand exponent (start - tries) ≠ none) :
    IsFirstHit tie significand exponent start (firstHit tie significand exponent tries start) := by
  induction tries generalizing start with
  | zero =>
      obtain ⟨coefficient, hit⟩ := Option.ne_none_iff_exists'.mp last
      rw [Nat.cast_zero, Int.sub_zero] at hit
      rw [firstHit, hit]
      exact ⟨hit, fun place coarser within => absurd within (Int.not_le.mpr coarser)⟩
  | succ tries ih =>
      rw [firstHit]
      cases tried : onGrid? tie significand exponent start with
      | some coefficient =>
          exact ⟨tried, fun place coarser within => absurd within (Int.not_le.mpr coarser)⟩
      | none =>
          have next : start - 1 - (tries : Int) = start - (tries + 1 : ℕ) := by omega
          have found : IsFirstHit tie significand exponent (start - 1) _ := ih (next ▸ last)
          refine ⟨found.hit, ?_⟩
          intro place coarser within
          rcases eq_or_ne place start with rfl | different
          · exact tried
          · exact found.passed place coarser (by omega)

/-- The grid on which the search for the shortest decimal starts. -/
def firstPlace (significand : Nat) (exponent : Int) : Int :=
  ((significand.log2 : Int) + 1 + exponent) * 30103 / 100000 + 1

theorem isFirstHit_shortest (finite : IsFinite significand exponent) (positive : 0 < significand) :
    IsFirstHit tie significand exponent (firstPlace significand exponent)
      (shortest tie significand exponent) := by
  apply isFirstHit_firstHit
  apply onGrid?_ne_none_of_fine positive
  have bits : significand.log2 < 53 := (Nat.log2_lt positive.ne').mpr finite.fits
  have ⟨least, greatest, _, _⟩ := finite
  rw [firstPlace]
  apply ten_zpow_le_two_zpow <;> omega

theorem value_lt_two_zpow (significand : Nat) (exponent : Int) :
    significand * (2 : ℚ) ^ exponent < 2 ^ ((significand.log2 : Int) + 1 + exponent) := by
  have bits : (significand : ℚ) < 2 ^ ((significand.log2 : Int) + 1) := by
    exact_mod_cast Nat.lt_log2_self
  rw [zpow_add₀ (by norm_num) _ exponent]
  exact mul_lt_mul_of_pos_right bits (by positivity)

section Found

variable (tie) (finite : IsFinite significand exponent) (positive : 0 < significand)

include finite positive

theorem inside_shortest :
    Inside significand exponent (shortest tie significand exponent).value :=
  inside_of_onGrid? (isFirstHit_shortest finite positive).hit

theorem coefficient_shortest_pos : 0 < (shortest tie significand exponent).coefficient :=
  coefficient_pos_of_inside positive (inside_shortest tie finite positive)

/-- The shortest decimal reaches every power of ten that the double reaches. -/
theorem ten_zpow_le_shortest {k : Int} (reached : (10 : ℚ) ^ k ≤ significand * 2 ^ exponent) :
    (10 : ℚ) ^ k ≤ (shortest tie significand exponent).value := by
  have found : IsFirstHit tie significand exponent _ _ := isFirstHit_shortest finite positive
  have coefficient : (1 : ℚ) ≤ (shortest tie significand exponent).coefficient :=
    Nat.one_le_cast.mpr (coefficient_shortest_pos tie finite positive)
  by_contra short
  have less := lt_of_not_ge short
  have finer : (shortest tie significand exponent).exponent < k := by
    refine (zpow_lt_zpow_iff_right₀ (a := (10 : ℚ)) (by norm_num)).mp (lt_of_le_of_lt ?_ less)
    exact le_mul_of_one_le_left (by positivity) coefficient
  have started : k ≤ firstPlace significand exponent := by
    by_contra late
    have ⟨least, greatest, _, _⟩ := finite
    have bits : significand.log2 < 53 := (Nat.log2_lt positive.ne').mpr finite.fits
    have far := two_zpow_le_ten_zpow (j := (significand.log2 : Int) + 1 + exponent) (k := k)
      (by rw [firstPlace] at late; omega) (by rw [firstPlace] at late; omega)
    exact absurd (value_lt_two_zpow significand exponent) (not_lt.mpr (far.trans reached))
  -- The power itself is a point of its grid, which then would not have been passed by.
  refine onGrid?_ne_none 1 ?_ ?_ (found.passed k finer started)
  · rw [Nat.cast_one, one_mul]
    exact (inside_shortest tie finite positive).low.trans_lt less
  · rw [Nat.cast_one, one_mul]
    exact reached.trans_lt (value_lt_upperEnd significand exponent)

end Found

/-- A power of ten that is a whole number of steps of the double is above its whole interval
when it is above the double. -/
theorem upperEnd_lt_ten_pow {k : ℕ} (coarse : exponent ≤ k)
    (less : significand * (2 : ℚ) ^ exponent < 10 ^ k) : upperEnd significand exponent < 10 ^ k := by
  obtain ⟨d, steps⟩ : ∃ d : ℕ, (k : Int) = d + exponent := ⟨(k - exponent).toNat, by omega⟩
  have split : (10 : ℚ) ^ k = (5 ^ k * 2 ^ d : ℕ) * 2 ^ exponent := by
    calc (10 : ℚ) ^ k = 5 ^ k * 2 ^ (k : Int) := by
          rw [zpow_natCast, ← mul_pow]
          norm_num
      _ = 5 ^ k * (2 ^ d * 2 ^ exponent) := by
          rw [steps, zpow_add₀ (by norm_num), zpow_natCast]
      _ = (5 ^ k * 2 ^ d : ℕ) * 2 ^ exponent := by
          push_cast
          ring
  have unit : (0 : ℚ) < 2 ^ exponent := by positivity
  have fewer : significand < 5 ^ k * 2 ^ d := by
    rw [split] at less
    exact_mod_cast lt_of_mul_lt_mul_right less unit.le
  have half : (2 : ℚ) ^ (exponent - 1) = 2 ^ exponent / 2 := by
    rw [zpow_sub₀ (by norm_num), zpow_one]
  have next : (significand : ℚ) + 1 ≤ (5 ^ k * 2 ^ d : ℕ) := by exact_mod_cast fewer
  calc upperEnd significand exponent = significand * 2 ^ exponent + 2 ^ exponent / 2 := by
        rw [upperEnd_eq, half]
    _ < (significand + 1) * 2 ^ exponent := by linarith
    _ ≤ (5 ^ k * 2 ^ d : ℕ) * 2 ^ exponent := mul_le_mul_of_nonneg_right next unit.le
    _ = 10 ^ k := split.symm

/-- A double above the least binary place has all of its bits. -/
theorem full_significand_le_value (finite : IsFinite significand exponent) {k : Int}
    (normal : -1074 < k) (above : k ≤ exponent) :
    (2 : ℚ) ^ 52 * 2 ^ k ≤ significand * 2 ^ exponent := by
  have full : 2 ^ 52 ≤ significand := by
    rcases finite.normal with full | least
    · exact full
    · omega
  apply mul_le_mul
  · exact_mod_cast full
  · exact zpow_le_zpow_right₀ (by norm_num) above
  · positivity
  · positivity

theorem upperEnd_lt_ten_pow_sixteen (finite : IsFinite significand exponent)
    (less : significand * (2 : ℚ) ^ exponent < 10 ^ 16) :
    upperEnd significand exponent < 10 ^ 16 := by
  apply upperEnd_lt_ten_pow _ less
  by_contra large
  have many := full_significand_le_value finite (k := 16) (by norm_num) (by omega)
  norm_num at many less
  linarith

/-- No double is so close below a hundred-thousandth that its interval contains that. -/
theorem upperEnd_lt_hundred_thousandth (finite : IsFinite significand exponent)
    (less : significand * (2 : ℚ) ^ exponent < 10 ^ (-5 : Int)) :
    upperEnd significand exponent < 10 ^ (-5 : Int) := by
  rcases lt_trichotomy exponent (-69) with small | rfl | large
  · have few : (4 * significand + 2 : ℕ) ≤ (2 : ℚ) ^ 55 := by
      have fits := finite.fits
      exact_mod_cast (by omega : 4 * significand + 2 ≤ 2 ^ 55)
    calc upperEnd significand exponent ≤ 2 ^ 55 * 2 ^ (-72 : Int) := by
          apply mul_le_mul few _ (by positivity) (by positivity)
          exact zpow_le_zpow_right₀ (by norm_num) (by omega)
      _ < 10 ^ (-5 : Int) := by norm_num
  · have few : significand < 5902958103587057 := by
      rw [zpow_neg, zpow_neg, ← div_eq_mul_inv, div_lt_iff₀ (by positivity)] at less
      norm_num at less
      have product : (significand : ℚ) < 5902958103587057 := by linarith
      exact_mod_cast product
    have bounded : (4 * significand + 2) * 10 ^ 5 < 2 ^ 71 := by omega
    have cast : ((4 * significand + 2 : ℕ) : ℚ) * 10 ^ 5 < 2 ^ 71 := by exact_mod_cast bounded
    rw [upperEnd]
    norm_num at cast ⊢
    linarith
  · have many := full_significand_le_value finite (k := -68) (by norm_num) (by omega)
    norm_num at many less
    linarith

/-- The shortest decimal of a double is in the range of plain notation when the double is. -/
theorem shortest_in_range_iff (tie : Tie) (finite : IsFinite significand exponent)
    (positive : 0 < significand) :
    (10 ^ (-5 : Int) ≤ (shortest tie significand exponent).value ∧
        (shortest tie significand exponent).value < 10 ^ 16) ↔
      10 ^ (-5 : Int) ≤ significand * (2 : ℚ) ^ exponent ∧
        significand * (2 : ℚ) ^ exponent < 10 ^ 16 := by
  have within := (inside_shortest tie finite positive).high
  constructor
  · rintro ⟨least, most⟩
    constructor
    · by_contra less
      have below := upperEnd_lt_hundred_thousandth finite (lt_of_not_ge less)
      exact absurd (least.trans within) (not_le.mpr below)
    · by_contra more
      have reached := ten_zpow_le_shortest tie finite positive (k := 16) (le_of_not_gt more)
      exact absurd most (not_lt.mpr reached)
  · rintro ⟨least, most⟩
    exact ⟨ten_zpow_le_shortest tie finite positive least,
      within.trans_lt (upperEnd_lt_ten_pow_sixteen finite most)⟩

end Search

end Decimal
end SchemaCompiler

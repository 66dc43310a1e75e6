import Mathlib.Algebra.Order.Field.Power
import Mathlib.Data.Rat.Cast.Order
import Mathlib.Tactic.FieldSimp
import Mathlib.Tactic.Linarith
import Mathlib.Tactic.Positivity
import PageCalc.Proofs.Number.Binary

/-!
# The nearest double

Where a quotient is the value of a double, rounding it gives this double.
-/

namespace PageCalc.Number

variable {numerator denominator significand bits : Nat} {exponent : ℤ}

/-- An integer power with its positive and its negative part apart. -/
theorem zpow_eq_div (base : ℚ) (k : ℤ) : base ^ k = base ^ k.toNat / base ^ (-k).toNat := by
  rcases Int.le_total 0 k with above | below
  · obtain ⟨n, rfl⟩ := Int.eq_ofNat_of_zero_le above
    simp
  · obtain ⟨n, isNeg⟩ := Int.eq_ofNat_of_zero_le (Int.neg_nonneg.2 below)
    obtain rfl : k = -n := by omega
    simp

/-! ## The leading bit -/

/-- Whether a power of two is at most a quotient can be told without fractions. -/
theorem two_zpow_le_iff (positive : 0 < denominator) (k : ℤ) :
    (2 : ℚ) ^ k ≤ numerator / denominator ↔
      denominator * 2 ^ k.toNat ≤ numerator * 2 ^ (-k).toNat := by
  have denominatorPositive : (0 : ℚ) < denominator := by exact_mod_cast positive
  rw [zpow_eq_div, div_le_div_iff₀ (by positivity) denominatorPositive, mul_comm (2 ^ k.toNat : ℚ)]
  exact_mod_cast Iff.rfl

/-- The estimate from the leading bits of both numbers is right or one too great. -/
theorem leadingExponent_eq (positive : 0 < denominator) : leadingExponent numerator denominator =
    if (2 : ℚ) ^ ((numerator.log2 : ℤ) - denominator.log2) ≤ numerator / denominator
    then (numerator.log2 : ℤ) - denominator.log2 else numerator.log2 - denominator.log2 - 1 := by
  simp only [two_zpow_le_iff positive, leadingExponent, Nat.pow_eq]
  generalize (numerator.log2 : ℤ) - denominator.log2 = estimate
  split
  · next above =>
    have none : (-estimate).toNat = 0 := by omega
    rw [none, Nat.pow_zero, Nat.mul_one]
  · next below =>
    have none : estimate.toNat = 0 := by omega
    rw [none, Nat.pow_zero, Nat.mul_one]

/-- The leading bit of a quotient has the place that `leadingExponent` gives. -/
theorem leadingExponent_spec (numeratorPositive : 0 < numerator) (denominatorPositive : 0 < denominator) :
    (2 : ℚ) ^ leadingExponent numerator denominator ≤ numerator / denominator ∧
      (numerator / denominator : ℚ) < 2 ^ (leadingExponent numerator denominator + 1) := by
  have least : (2 : ℚ) ^ (numerator.log2 : ℤ) ≤ numerator := by
    exact_mod_cast Nat.log2_self_le numeratorPositive.ne'
  have most : (numerator : ℚ) < 2 ^ ((numerator.log2 : ℤ) + 1) := by
    exact_mod_cast Nat.lt_log2_self (n := numerator)
  have leastBelow : (2 : ℚ) ^ (denominator.log2 : ℤ) ≤ denominator := by
    exact_mod_cast Nat.log2_self_le denominatorPositive.ne'
  have mostBelow : (denominator : ℚ) < 2 ^ ((denominator.log2 : ℤ) + 1) := by
    exact_mod_cast Nat.lt_log2_self (n := denominator)
  have positive : (0 : ℚ) < denominator := by exact_mod_cast denominatorPositive
  -- The difference of the two places is right or too great by one, which is tested.
  rw [leadingExponent_eq denominatorPositive]
  split
  · next atLeast =>
    refine ⟨atLeast, (div_lt_iff₀ positive).2 (most.trans_le ?_)⟩
    rw [show (numerator.log2 : ℤ) + 1 = numerator.log2 - denominator.log2 + 1 + denominator.log2 by omega,
      zpow_add₀ two_ne_zero]
    gcongr
  · next tooGreat =>
    rw [Int.sub_add_cancel]
    refine ⟨(le_div_iff₀ positive).2 (le_trans ?_ least), not_le.1 tooGreat⟩
    calc (2 : ℚ) ^ ((numerator.log2 : ℤ) - denominator.log2 - 1) * denominator
        ≤ 2 ^ ((numerator.log2 : ℤ) - denominator.log2 - 1) * 2 ^ ((denominator.log2 : ℤ) + 1) := by
          gcongr
      _ = 2 ^ (numerator.log2 : ℤ) := by
          rw [← zpow_add₀ two_ne_zero]
          congr 1
          omega

theorem numerator_ne_zero (significandPositive : 0 < significand)
    (same : (numerator / denominator : ℚ) = significand * 2 ^ exponent) : numerator ≠ 0 := by
  rintro rfl
  have : (0 : ℚ) < significand * 2 ^ exponent := by positivity
  simp [← same] at this

/-- The place of the leading bit of a dyadic number. -/
theorem leadingExponent_of_eq (significandPositive : 0 < significand) (denominatorPositive : 0 < denominator)
    (same : (numerator / denominator : ℚ) = significand * 2 ^ exponent) :
    leadingExponent numerator denominator = significand.log2 + exponent := by
  have positive : (0 : ℚ) < denominator := by exact_mod_cast denominatorPositive
  have numeratorPositive := Nat.pos_of_ne_zero (numerator_ne_zero significandPositive same)
  obtain ⟨atLeast, below⟩ := leadingExponent_spec numeratorPositive denominatorPositive
  have least : (2 : ℚ) ^ (significand.log2 : ℤ) ≤ significand := by
    exact_mod_cast Nat.log2_self_le significandPositive.ne'
  have most : (significand : ℚ) < 2 ^ ((significand.log2 : ℤ) + 1) := by
    exact_mod_cast Nat.lt_log2_self (n := significand)
  rw [same] at atLeast below
  -- Both are the place of the leading bit.
  have up : (2 : ℚ) ^ leadingExponent numerator denominator < 2 ^ ((significand.log2 : ℤ) + 1 + exponent) := by
    refine atLeast.trans_lt ?_
    rw [zpow_add₀ two_ne_zero]
    gcongr
  have down : (2 : ℚ) ^ ((significand.log2 : ℤ) + exponent) < 2 ^ (leadingExponent numerator denominator + 1) := by
    refine lt_of_le_of_lt ?_ below
    rw [zpow_add₀ two_ne_zero]
    gcongr
  rw [zpow_lt_zpow_iff_right₀ one_lt_two] at up down
  omega

/-! ## Rounding -/

theorem roundQuotient_mul (positive : 0 < denominator) :
    roundQuotient (significand * denominator) denominator = significand := by
  simp [roundQuotient, positive]

theorem nearestBits_le : nearestBits numerator denominator ≤ infinityBits := by
  unfold nearestBits
  split
  · exact Nat.zero_le _
  · exact Nat.min_le_left ..

/-- The significand and the exponent of a finite magnitude that is not zero: the exponent is that of the
last place, and both together make the bits again. -/
theorem magnitudeParts_spec (positive : 0 < bits) {parts : Nat × ℤ} (isParts : magnitudeParts bits = parts) :
    0 < parts.1 ∧ leastExponent ≤ parts.2 ∧ max leastExponent (parts.1.log2 + parts.2 - 52) = parts.2 ∧
      (parts.2 - leastExponent).toNat * fractionSpan + parts.1 = bits := by
  have fractionSmall : bits % fractionSpan < fractionSpan := Nat.mod_lt _ (by decide)
  have whole := Nat.div_add_mod' bits fractionSpan
  have span : fractionSpan = 2 ^ 52 := rfl
  subst isParts
  unfold magnitudeParts
  generalize bits / fractionSpan = field at *
  generalize bits % fractionSpan = fraction at *
  dsimp only
  split
  · next noField =>
    subst noField
    have short := (Nat.log2_lt (by omega : fraction ≠ 0)).2 (span ▸ fractionSmall)
    refine ⟨by omega, le_rfl, ?_, by simpa using whole⟩
    dsimp only
    omega
  · next someField =>
    have full : (fractionSpan + fraction).log2 = 52 := log2_eq (by omega) (by omega)
    have before : (leastExponent + ((field : ℤ) - 1) - leastExponent).toNat + 1 = field := by omega
    refine ⟨by omega, by omega, by dsimp only; omega, ?_⟩
    rw [← before, Nat.add_mul, Nat.one_mul] at whole
    dsimp only
    omega

/-- Rounding gives the double that a quotient is the value of. -/
theorem nearestBits_of_eq (denominatorPositive : 0 < denominator) (small : bits < infinityBits)
    (same : (numerator / denominator : ℚ) = (magnitudeParts bits).1 * 2 ^ (magnitudeParts bits).2) :
    nearestBits numerator denominator = bits := by
  have positive : (0 : ℚ) < denominator := by exact_mod_cast denominatorPositive
  rcases Nat.eq_zero_or_pos bits with rfl | bitsPositive
  · have zero : magnitudeParts 0 = (0, leastExponent) := rfl
    rw [zero, Nat.cast_zero, zero_mul, div_eq_zero_iff] at same
    have noNumerator : numerator = 0 := by exact_mod_cast same.resolve_right positive.ne'
    rw [nearestBits, if_pos noNumerator]
  generalize isParts : magnitudeParts bits = parts at same
  obtain ⟨significand, exponent⟩ := parts
  obtain ⟨significandPositive, -, isExponent, isBits⟩ := magnitudeParts_spec bitsPositive isParts
  have numeratorPositive := numerator_ne_zero significandPositive same
  have leading := leadingExponent_of_eq significandPositive denominatorPositive same
  -- In the last place the quotient is the significand, so that nothing is rounded.
  have exact : numerator * 2 ^ (-exponent).toNat = significand * (denominator * 2 ^ exponent.toNat) := by
    rw [zpow_eq_div, mul_div_assoc', div_eq_div_iff positive.ne' (by positivity)] at same
    have same : numerator * 2 ^ (-exponent).toNat = significand * 2 ^ exponent.toNat * denominator := by
      exact_mod_cast same
    rw [same, Nat.mul_assoc, Nat.mul_comm denominator]
  rw [nearestBits, if_neg numeratorPositive, leading]
  simp only [isExponent, Nat.pow_eq]
  rw [exact, roundQuotient_mul (Nat.mul_pos denominatorPositive (Nat.two_pow_pos _)), isBits]
  exact Nat.min_eq_right small.le

end PageCalc.Number

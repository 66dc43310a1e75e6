import Mathlib
import PageCalc.Number.Binary

/-!
# The bits of doubles

A double is determined by its bits, and every pattern of bits up to those of infinity belongs to a
double. The exponent field tells whether the double is finite.
-/

namespace PageCalc.Number

open Float.Model (Format)
open Float.Model.UnpackedFloat

theorem fractionSpan_eq : fractionSpan = 4503599627370496 := rfl

theorem signSpan_eq : signSpan = 9223372036854775808 := rfl

theorem infinityBits_eq : infinityBits = 9218868437227405312 := rfl

/-! ## Taking bits apart -/

section Fields

variable {b : BitVec Format.binary64.numBits}

theorem toBitVec_ofBitVec : ∀ v : BitVec 1, (Sign.ofBitVec v).toBitVec = v := by
  decide

/-- The sign, the exponent and the mantissa are all there is to a double. -/
theorem packComponents_unpack {exponent : BitVec Format.binary64.exponentBits}
    {mantissa : BitVec Format.binary64.mantissaBitsWithoutImplicit}
    (isExponent : unpackExponent b = exponent) (isMantissa : unpackMantissa b = mantissa) :
    packComponents .binary64 (Sign.ofBitVec (unpackSign b)) exponent mantissa = b := by
  subst isExponent isMantissa
  simp only [packComponents, toBitVec_ofBitVec, unpackSign, unpackExponent, unpackMantissa,
    BitVec.extractLsb]
  ext i inside
  grind

theorem toNat_unpackExponent : (unpackExponent b).toNat = b.toNat / fractionSpan % 2048 := by
  simp [unpackExponent, fractionSpan, Nat.shiftRight_eq_div_pow]

theorem toNat_unpackMantissa : (unpackMantissa b).toNat = b.toNat % fractionSpan := by
  simp [unpackMantissa, fractionSpan]

/-- A mantissa with its implied leading bit. -/
theorem toNat_implied (v : BitVec 52) : (1#1 ++ v).toNat = fractionSpan + v.toNat := by
  rw [BitVec.toNat_append, ← Nat.shiftLeft_add_eq_or_of_lt v.isLt]
  simp [Nat.shiftLeft_eq, fractionSpan]

theorem log2_eq {n k : Nat} (least : 2 ^ k ≤ n) (small : n < 2 ^ (k + 1)) : n.log2 = k := by
  have positive : n ≠ 0 := by
    have := Nat.two_pow_pos k
    omega
  have atLeast := (Nat.le_log2 positive).2 least
  have atMost := (Nat.log2_lt positive).2 small
  omega

theorem biased (field : Nat) (step : Int) :
    ((field : Int) - (Format.binary64.exponentBias + (52 : Nat)) + step + Format.binary64.exponentBias +
      (52 : Nat)).toNat = (field + step).toNat := by
  congr 1
  omega

/-- Packing what was unpacked gives the bits back. -/
theorem pack_unpack (valid : Format.binary64.Valid b) : pack .binary64 (unpack .binary64 b) = b := by
  have exponentSmall : (unpackExponent b).toNat < 2048 := (unpackExponent b).isLt
  have mantissaSmall : (unpackMantissa b).toNat < fractionSpan := (unpackMantissa b).isLt
  have places : Format.binary64.mantissaBits = 53 := rfl
  have span : fractionSpan = 2 ^ 52 := rfl
  unfold unpack
  dsimp only
  split
  · next allOnes =>
    split
    · next zero => exact packComponents_unpack allOnes zero
    · next notZero => exact (valid.eq_packedNaN allOnes notZero).symm
  next notAllOnes =>
  split
  · next noExponent =>
    split
    · next zero => exact packComponents_unpack noExponent zero
    next notZero =>
    -- Without the implied bit, the mantissa has less than all the places.
    have positive : (unpackMantissa b).toNat ≠ 0 := fun zero => notZero (BitVec.toNat_inj.1 zero)
    have short := (Nat.log2_lt positive).2 (span ▸ mantissaSmall)
    have one := biased 0 1
    rw [pack]
    simp only [noExponent, BitVec.toNat_zero]
    rw [one, if_neg (by decide), if_neg (by omega)]
    exact packComponents_unpack noExponent (by simp)
  · next someExponent =>
    have whole := toNat_implied (unpackMantissa b)
    have full : (1#1 ++ unpackMantissa b).toNat.log2 = 52 := log2_eq (by omega) (by omega)
    have notMost : (unpackExponent b).toNat ≠ 2047 := fun most =>
      notAllOnes (BitVec.toNat_inj.1 most)
    have field := biased (unpackExponent b).toNat 0
    rw [Int.add_zero, Int.add_zero, Int.toNat_natCast] at field
    rw [pack]
    dsimp only
    rw [field, if_neg (by show ¬ 2048 ≤ _; omega), if_pos (by omega)]
    refine packComponents_unpack (by simp) (BitVec.toNat_inj.1 ?_)
    rw [whole, BitVec.toNat_ofNat]
    show _ = (fractionSpan + _) % fractionSpan
    rw [Nat.add_mod_left, Nat.mod_eq_of_lt mantissaSmall]

end Fields

/-! ## Doubles -/

theorem ofBits_toBits (x : Float) : Float.ofBits x.toBits = x := by
  obtain ⟨bits, valid⟩ := x
  simp only [Float.ofBits, Float.toBits, Float.Model.ofBits, Float.Model.pack, pack_unpack valid]

theorem valid_of_le {b : BitVec Format.binary64.numBits} (small : b.toNat % signSpan ≤ infinityBits) :
    Format.binary64.Valid b := by
  refine ⟨fun allOnes notZero => ?_⟩
  have exponent : b.toNat / fractionSpan % 2048 = 2047 := by
    rw [← toNat_unpackExponent, allOnes]
    rfl
  have mantissa : b.toNat % fractionSpan ≠ 0 := by
    rw [← toNat_unpackMantissa]
    exact fun zero => notZero (BitVec.toNat_inj.1 zero)
  simp only [infinityBits_eq, signSpan_eq, fractionSpan_eq] at *
  omega

theorem toBits_ofBits {bits : UInt64} (small : bits.toNat % signSpan ≤ infinityBits) :
    (Float.ofBits bits).toBits = bits := by
  have valid : Format.binary64.Valid bits.toBitVec := valid_of_le small
  simp only [Float.ofBits, Float.toBits, Float.Model.ofBits, Float.Model.pack, pack_unpack valid]

/-- A number is finite unless all bits of its exponent are set. -/
theorem isFinite_iff_unpackExponent (x : Float) :
    x.isFinite ↔ @unpackExponent .binary64 x.toBits.toBitVec ≠ -1#_ := by
  let b : BitVec Format.binary64.numBits := x.toBits.toBitVec
  rw [← Decidable.not_iff_not, ne_eq, Decidable.not_not]
  show ¬ (unpack .binary64 b).isFinite ↔ unpackExponent b = -1#_
  unfold unpack
  dsimp only
  split
  · next allOnes =>
    refine ⟨fun _ => allOnes, fun _ => ?_⟩
    split <;> simp [isFinite]
  · next notAllOnes =>
    refine ⟨fun infinite => absurd ?_ infinite, fun allOnes => absurd allOnes notAllOnes⟩
    split
    · split <;> rfl
    · rfl

theorem isFinite_iff (x : Float) : x.isFinite ↔ magnitudeBits x < infinityBits := by
  have field : @unpackExponent .binary64 x.toBits.toBitVec = -1#_ ↔
      x.toBits.toNat / fractionSpan % 2048 = 2047 := by
    rw [← BitVec.toNat_inj, toNat_unpackExponent]
    rfl
  rw [isFinite_iff_unpackExponent, ne_eq, field]
  simp only [magnitudeBits, infinityBits_eq, signSpan_eq, fractionSpan_eq]
  omega

/-! ## Magnitudes -/

variable {bits : Nat} {x : Float}

theorem toBits_ofMagnitudeBits (small : bits ≤ infinityBits) :
    (ofMagnitudeBits false bits).toBits.toNat = bits := by
  have fits : bits < 2 ^ 64 := by
    rw [infinityBits_eq] at small
    omega
  have whole : (UInt64.ofNat bits).toNat = bits := UInt64.toNat_ofNat_of_lt' fits
  have small' : bits % signSpan ≤ infinityBits := Nat.le_trans (Nat.mod_le ..) small
  rw [ofMagnitudeBits, if_neg Bool.false_ne_true, toBits_ofBits (whole.symm ▸ small'), whole]

theorem isNegative_ofMagnitudeBits (small : bits ≤ infinityBits) :
    isNegative (ofMagnitudeBits false bits) = false := by
  rw [isNegative, toBits_ofMagnitudeBits small, decide_eq_false_iff_not]
  rw [infinityBits_eq] at small
  rw [signSpan_eq]
  omega

/-- A number without a sign is determined by its magnitude. -/
theorem ofMagnitudeBits_magnitudeBits (positive : isNegative x = false) :
    ofMagnitudeBits false (magnitudeBits x) = x := by
  have unsigned : magnitudeBits x = x.toBits.toNat :=
    Nat.mod_eq_of_lt (Nat.not_le.1 (decide_eq_false_iff_not.1 positive))
  rw [ofMagnitudeBits, if_neg Bool.false_ne_true, unsigned, UInt64.ofNat_toNat, ofBits_toBits]

theorem reading_of_isFinite (finite : x.isFinite) : reading x = .finite ⟨isNegative x,
    (magnitudeParts (magnitudeBits x)).1, (magnitudeParts (magnitudeBits x)).2⟩ := by
  have small := (isFinite_iff x).1 finite
  rw [reading, if_neg (Nat.lt_asymm small), if_neg (Nat.ne_of_lt small)]

end PageCalc.Number

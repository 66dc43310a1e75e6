import PageCalc.Proofs.Grid.Address
import PageCalc.Proofs.Number.Text

/-!
# Finite numbers

The negation of a finite number is finite, any two finite numbers can be compared, and the text of a
finite number has digits, and neither words nor letters.
-/

namespace PageCalc.Number

open Float.Model (Format)
open Float.Model.UnpackedFloat

variable {x : Float}

/-! ## Negation -/

/-- The bits of the exponent do not depend on the sign. -/
theorem unpackExponent_pack_neg (f : Float.Model.UnpackedFloat) :
    unpackExponent (pack .binary64 f.neg) = unpackExponent (pack .binary64 f) := by
  cases f with
  | notANumber => rfl
  | infinity | zero => simp only [neg, pack, packedInfinity, packedZero, unpackExponent_packComponents]
  | finite sign mantissa exponent positive =>
    simp only [neg, pack]
    split
    · simp only [packedInfinity, unpackExponent_packComponents]
    · split <;> simp only [unpackExponent_packComponents]

theorem isFinite_neg (finite : x.isFinite) : (-x).isFinite := by
  rw [isFinite_iff_unpackExponent] at finite ⊢
  obtain ⟨bits, valid⟩ := x
  have same : @unpackExponent .binary64 (-(⟨⟨bits, valid⟩⟩ : Float)).toBits.toBitVec =
      unpackExponent (pack .binary64 (unpack .binary64 bits.toBitVec)) :=
    unpackExponent_pack_neg _
  rw [same, pack_unpack valid]
  exact finite

/-! ## Comparison -/

/-- Finite numbers have places in the order of numbers. -/
theorem exists_rank_of_isFinite (finite : x.isFinite) : ∃ place, rank? x = some place := by
  rw [rank?, reading_of_isFinite finite]
  exact ⟨_, rfl⟩

/-! ## Texts -/

theorem magnitudeBits_ofMagnitudeBits {bits : Nat} (small : bits < infinityBits) :
    magnitudeBits (ofMagnitudeBits false bits) = bits := by
  rw [magnitudeBits, toBits_ofMagnitudeBits (Nat.le_of_lt small)]
  refine Nat.mod_eq_of_lt (Nat.lt_trans small ?_)
  decide

/-- A sign before the text of the magnitude is all that the text of a negative number has. -/
theorem text_of_isNegative (finite : x.isFinite) (negative : isNegative x) :
    (magnitudeBits x = 0 ∧ text x = "0") ∨
    (text x).toList = '-' :: (text (ofMagnitudeBits false (magnitudeBits x))).toList := by
  have small := (isFinite_iff x).1 finite
  have sameBits := magnitudeBits_ofMagnitudeBits small
  have unsigned := isNegative_ofMagnitudeBits (Nat.le_of_lt small)
  have finite' : (ofMagnitudeBits false (magnitudeBits x)).isFinite := by
    rw [isFinite_iff, sameBits]
    exact small
  rw [text, text, reading_of_isFinite finite, reading_of_isFinite finite', sameBits, unsigned, negative]
  dsimp only
  split
  · next zero =>
    refine .inl ⟨?_, rfl⟩
    by_contra someBits
    exact (magnitudeParts_spec (Nat.pos_of_ne_zero someBits) rfl).1.ne' zero
  · right
    simp only [if_true, Bool.false_eq_true, if_false, String.toList_ofList]
    rfl

/-- The text of a finite number is plain, with a sign before it if there is one. -/
theorem plain_text (finite : x.isFinite) :
    Plain (text x).toList ∨ ∃ cs, Plain cs ∧ (text x).toList = '-' :: cs := by
  cases negative : isNegative x with
  | false => exact .inl (text_spec finite negative).1
  | true =>
    have small := (isFinite_iff x).1 finite
    rcases text_of_isNegative finite negative with ⟨-, zero⟩ | signed
    · rw [zero]
      exact .inl (.whole (by simp) (by simp))
    · refine .inr ⟨_, (text_spec ?_ ?_).1, signed⟩
      · rw [isFinite_iff, magnitudeBits_ofMagnitudeBits small]
        exact small
      · exact isNegative_ofMagnitudeBits (Nat.le_of_lt small)

/-- A finite number is written with digits, a point and a minus. -/
theorem of_mem_text (finite : x.isFinite) {c : Char} (member : c ∈ (text x).toList) :
    c.isDigit ∨ c = '.' ∨ c = '-' := by
  have plain {cs : List Char} (plain : Plain cs) (member : c ∈ cs) : c.isDigit ∨ c = '.' := by
    cases plain with
    | whole _ areDigits => exact .inl (areDigits c member)
    | pointed _ areDigits fractionDigits =>
      rcases List.mem_append.1 member with before | after
      · exact .inl (areDigits c before)
      · exact (List.mem_cons.1 after).symm.imp_left (fractionDigits c)
  rcases plain_text finite with isPlain | ⟨cs, isPlain, signed⟩
  · exact (plain isPlain member).imp_right .inl
  · rw [signed] at member
    rcases List.mem_cons.1 member with rfl | member
    · exact .inr (.inr rfl)
    · exact (plain isPlain member).imp_right .inl

/-- A finite number is written without letters. -/
theorem not_isAlpha_of_mem_text (finite : x.isFinite) {c : Char} (member : c ∈ (text x).toList) :
    c.isAlpha = false := by
  rcases of_mem_text finite member with digit | rfl | rfl
  · exact (Address.digit_spec digit).1
  · decide
  · decide

end PageCalc.Number

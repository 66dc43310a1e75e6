import PageCalc.Grid.Input
import PageCalc.Proofs.Formula.Scanning
import PageCalc.Proofs.Number.Finite

/-!
# The text of a number and its readers

The text of a finite number is read as the number wherever numbers are read: as a literal, as an input,
and, if there is no sign before it, as a token. Only the sign of a zero is lost.
-/

namespace PageCalc.Number

open Text
open Float.Model (Format UnpackedFloat)
open Float.Model.UnpackedFloat

variable {x : Float} {bits : Nat} {cs : List Char} {c : Char}

/-! ## Fields -/

theorem toNat_unpackSign {b : BitVec Format.binary64.numBits} :
    (unpackSign b).toNat = b.toNat / signSpan % 2 := by
  simp [unpackSign, signSpan, Nat.shiftRight_eq_div_pow]

theorem ofBitVec_unpackSign (x : Float) :
    Sign.ofBitVec (@unpackSign .binary64 x.toBits.toBitVec) =
      if isNegative x then .negative else .positive := by
  have small : x.toBits.toNat < 2 ^ 64 := x.toBits.toNat_lt
  have unsigned_iff : @unpackSign .binary64 x.toBits.toBitVec = 0#1 ↔ isNegative x = false := by
    rw [← BitVec.toNat_inj, toNat_unpackSign, isNegative, decide_eq_false_iff_not]
    show x.toBits.toNat / signSpan % 2 = 0 ↔ _
    rw [signSpan_eq]
    omega
  unfold Sign.ofBitVec
  cases negative : isNegative x with
  | false => simp [unsigned_iff.2 negative]
  | true => simp [mt unsigned_iff.1 (by simp [negative])]

/-- Only zeros have nothing in their exponent and in their mantissa. -/
theorem magnitudeBits_eq_zero_iff : magnitudeBits x = 0 ↔
    @unpackExponent .binary64 x.toBits.toBitVec = 0#11 ∧
      @unpackMantissa .binary64 x.toBits.toBitVec = 0#52 := by
  rw [← BitVec.toNat_inj, ← BitVec.toNat_inj, toNat_unpackExponent, toNat_unpackMantissa]
  show x.toBits.toNat % signSpan = 0 ↔
    x.toBits.toNat / fractionSpan % 2048 = 0 ∧ x.toBits.toNat % fractionSpan = 0
  rw [signSpan_eq, fractionSpan_eq]
  omega

/-- A finite number is a zero, or it has a mantissa and the sign of its bits. -/
theorem unpack_of_isFinite (finite : x.isFinite) :
    (magnitudeBits x = 0 ∧ ∃ sign, x.toModel.unpack = .zero sign) ∨
    (magnitudeBits x ≠ 0 ∧ ∃ (mantissa : Nat) (exponent : Int) (positive : 0 < mantissa),
      x.toModel.unpack =
        .finite (if isNegative x then .negative else .positive) mantissa exponent positive) := by
  have notAllOnes := (isFinite_iff_unpackExponent x).1 finite
  have isUnpacked : x.toModel.unpack = unpack .binary64 x.toBits.toBitVec := rfl
  rw [isUnpacked, ← ofBitVec_unpackSign, ne_eq, magnitudeBits_eq_zero_iff]
  unfold unpack
  dsimp only
  rw [if_neg notAllOnes]
  split
  · next noExponent =>
    split
    · next noMantissa => exact .inl ⟨⟨noExponent, noMantissa⟩, _, rfl⟩
    · next someMantissa =>
      have positive : 0 < (@unpackMantissa .binary64 x.toBits.toBitVec).toNat :=
        Nat.pos_of_ne_zero fun zero => someMantissa (BitVec.toNat_inj.1 zero)
      exact .inr ⟨fun zero => someMantissa zero.2, _, _, positive, rfl⟩
  · next someExponent =>
    have positive : 0 < (1#1 ++ @unpackMantissa .binary64 x.toBits.toBitVec).toNat := by
      have implied := toNat_implied (@unpackMantissa .binary64 x.toBits.toBitVec)
      rw [fractionSpan_eq] at implied
      omega
    exact .inr ⟨fun zero => someExponent zero.1, _, _, positive, rfl⟩

/-! ## Zeros -/

/-- The number that is shown for a number: a zero is shown without a sign. -/
def shown (x : Float) : Float := if x == 0 then 0 else x

theorem beq_zero_iff (finite : x.isFinite) : (x == 0) = true ↔ magnitudeBits x = 0 := by
  have isCompared : (x == 0) = UnpackedFloat.beq x.toModel.unpack (.zero .positive) := rfl
  rw [isCompared]
  rcases unpack_of_isFinite finite with ⟨zero, sign, isZero⟩ | ⟨nonzero, mantissa, exponent, positive, isX⟩
  · rw [isZero]
    exact iff_of_true rfl zero
  · rw [isX]
    refine iff_of_false ?_ nonzero
    cases isNegative x <;> simp [UnpackedFloat.beq, UnpackedFloat.compare]

/-- A number that is at least zero has no sign, unless it is a zero itself. -/
theorem unsigned_of_nonneg (finite : x.isFinite) (nonneg : 0 ≤ x) :
    isNegative x = false ∨ magnitudeBits x = 0 := by
  have isCompared : UnpackedFloat.le (.zero .positive) x.toModel.unpack = true := of_decide_eq_true nonneg
  rcases unpack_of_isFinite finite with ⟨zero, -⟩ | ⟨-, mantissa, exponent, positive, isX⟩
  · exact .inr zero
  · left
    rw [isX] at isCompared
    cases negative : isNegative x with
    | false => rfl
    | true => simp [negative, UnpackedFloat.le, UnpackedFloat.compare, Ordering.isLE] at isCompared

theorem shown_of_zero (finite : x.isFinite) (zero : magnitudeBits x = 0) : shown x = 0 :=
  if_pos ((beq_zero_iff finite).2 zero)

theorem shown_of_nonzero (finite : x.isFinite) (nonzero : magnitudeBits x ≠ 0) : shown x = x :=
  if_neg (mt (beq_zero_iff finite).1 nonzero)

theorem shown_shown : shown (shown x) = shown x := by
  by_cases zero : (x == 0) = true
  · simp only [shown, if_pos zero, ite_self]
  · simp only [shown, if_neg zero]

theorem isFinite_shown (finite : x.isFinite) : (shown x).isFinite := by
  unfold shown
  split
  · decide
  · exact finite

/-- Adding zero changes nothing but the sign of a zero, and none is shown. -/
theorem shown_add_zero (finite : x.isFinite) : shown x + 0 = shown x := by
  rcases unpack_of_isFinite finite with ⟨zero, -⟩ | ⟨nonzero, mantissa, exponent, positive, isX⟩
  · rw [shown_of_zero finite zero]
    decide
  · have sum : x + 0 = ⟨Float.Model.pack (UnpackedFloat.add .binary64 x.toModel.unpack (.zero .positive))⟩ :=
      rfl
    have same : UnpackedFloat.add .binary64 x.toModel.unpack (.zero .positive) = x.toModel.unpack := by
      rw [isX]
      rfl
    rw [shown_of_nonzero finite nonzero, sum, same]
    exact ofBits_toBits x

/-! ## Signs -/

/-- What a decimal is read as has the magnitude of the decimal, whatever the sign is. -/
theorem exists_magnitude (d : Decimal) : ∃ bits ≤ infinityBits, ∀ negative,
    Decimal.toFloat { d with negative } = ofMagnitudeBits negative bits := by
  simp only [Decimal.toFloat]
  split
  · exact ⟨0, Nat.zero_le _, fun _ => rfl⟩
  split
  · exact ⟨infinityBits, le_rfl, fun _ => rfl⟩
  split
  · exact ⟨0, Nat.zero_le _, fun _ => rfl⟩
  · exact ⟨nearestBits _ _, nearestBits_le, fun _ => rfl⟩

theorem ofMagnitudeBits_injective {more : Nat} (small : bits ≤ infinityBits) (smallToo : more ≤ infinityBits)
    (same : ofMagnitudeBits false bits = ofMagnitudeBits false more) : bits = more := by
  rw [← toBits_ofMagnitudeBits small, ← toBits_ofMagnitudeBits smallToo, same]

/-- A number with a sign is determined by its magnitude. -/
theorem ofMagnitudeBits_of_isNegative (negative : isNegative x) :
    ofMagnitudeBits true (magnitudeBits x) = x := by
  have small : x.toBits.toNat < 2 ^ 64 := x.toBits.toNat_lt
  have signed : signSpan + magnitudeBits x = x.toBits.toNat := by
    rw [isNegative, decide_eq_true_eq] at negative
    simp only [magnitudeBits, signSpan_eq] at *
    omega
  rw [ofMagnitudeBits, if_pos rfl, signed, UInt64.ofNat_toNat, ofBits_toBits]

theorem splitSign_plain (plain : Plain cs) : Decimal.splitSign cs = (false, cs) := by
  obtain ⟨c, rest, rfl, digit⟩ := plain.exists_cons
  exact splitSign_of_digits (List.forall_mem_singleton.2 digit) (List.cons_ne_nil c []) rest

/-- A minus before a plain text is the sign of the number. -/
theorem ofChars?_minus (plain : Plain cs) :
    Decimal.ofChars? ('-' :: cs) = (Decimal.ofChars? cs).map fun d => { d with negative := true } := by
  have signed : Decimal.splitSign ('-' :: cs) = (true, cs) := rfl
  simp only [Decimal.ofChars?, splitSign_plain plain, signed]
  split
  · rfl
  · rw [Option.map_map]
    rfl

/-- What is written without a minus is read with the other sign if it is written with one. -/
theorem ofDecimalText?_minus (plain : Plain cs) (small : bits ≤ infinityBits)
    (read : ofDecimalText? cs = some (ofMagnitudeBits false bits)) :
    ofDecimalText? ('-' :: cs) = some (ofMagnitudeBits true bits) := by
  obtain ⟨d, isDecimal, isNumber⟩ := Option.map_eq_some_iff.1 read
  obtain ⟨magnitude, smallToo, reads⟩ := exists_magnitude d
  have unsigned : d.negative = false := by
    rw [negative_of_ofChars? isDecimal, splitSign_plain plain]
  have isMagnitude : magnitude = bits := by
    refine ofMagnitudeBits_injective smallToo small ((reads false).symm.trans ?_)
    rw [← isNumber, ← unsigned]
  rw [ofDecimalText?, ofChars?_minus plain, isDecimal, Option.map_some, Option.map_some, reads true, isMagnitude]

/-! ## Texts -/

theorem text_of_zero (finite : x.isFinite) (zero : magnitudeBits x = 0) : text x = "0" := by
  rw [text, reading_of_isFinite finite, zero]
  exact if_pos rfl

theorem text_shown (finite : x.isFinite) : text (shown x) = text x := by
  by_cases zero : magnitudeBits x = 0
  · rw [shown_of_zero finite zero, text_of_zero finite zero]
    exact text_of_zero (by decide) (by decide)
  · rw [shown_of_nonzero finite zero]

/-- The text of a finite number is read as the number that is shown for it. -/
theorem read_text (finite : x.isFinite) : ofDecimalText? (text x).toList = some (shown x) := by
  have small := (isFinite_iff x).1 finite
  by_cases zero : magnitudeBits x = 0
  · rw [text_of_zero finite zero, shown_of_zero finite zero]
    rfl
  rw [shown_of_nonzero finite zero]
  cases negative : isNegative x with
  | false => exact (text_spec finite negative).2
  | true =>
    rcases text_of_isNegative finite negative with ⟨isZero, -⟩ | signed
    · exact absurd isZero zero
    have finiteToo : (ofMagnitudeBits false (magnitudeBits x)).isFinite := by
      rw [isFinite_iff, magnitudeBits_ofMagnitudeBits small]
      exact small
    obtain ⟨plain, read⟩ := text_spec finiteToo (isNegative_ofMagnitudeBits (Nat.le_of_lt small))
    rw [signed, ofDecimalText?_minus plain (Nat.le_of_lt small) read, ofMagnitudeBits_of_isNegative negative]

theorem isLiteral_shown (finite : x.isFinite) (nonneg : 0 ≤ x) : IsLiteral (shown x) where
  finite := isFinite_shown finite
  unsigned := by
    by_cases zero : magnitudeBits x = 0
    · rw [shown_of_zero finite zero]
      decide
    · rw [shown_of_nonzero finite zero]
      exact (unsigned_of_nonneg finite nonneg).resolve_right zero

/-! ## Readers -/

theorem isBlank_of_mem_text (finite : x.isFinite) {c : Char} (member : c ∈ (text x).toList) :
    isBlank c = false := by
  rcases of_mem_text finite member with digit | rfl | rfl
  · exact (Address.digit_spec digit).2.1
  · decide
  · decide

theorem exists_isDigit_of_text (finite : x.isFinite) : ∃ c ∈ (text x).toList, c.isDigit := by
  rcases plain_text finite with plain | ⟨cs, plain, signed⟩
  · obtain ⟨c, rest, split, digit⟩ := plain.exists_cons
    exact ⟨c, by rw [split]; exact List.mem_cons_self, digit⟩
  · obtain ⟨c, rest, rfl, digit⟩ := plain.exists_cons
    exact ⟨c, by rw [signed]; exact List.mem_cons_of_mem _ List.mem_cons_self, digit⟩

/-- The text of a finite number is the literal of the number. -/
theorem ofLiteral?_text (finite : x.isFinite) : ofLiteral? (text x) = some (shown x) := by
  have trimmed : trim (text x).toList = (text x).toList := by
    have whole : trim ([] ++ ((text x).toList ++ [])) = (text x).toList :=
      trim_append (List.forall_mem_nil _) (List.forall_mem_nil _) fun c => isBlank_of_mem_text finite
    rwa [List.append_nil] at whole
  have hasDigit : (text x).toList.any Char.isDigit := List.any_eq_true.2 (exists_isDigit_of_text finite)
  have noLetters : (text x).toList.all fun c => !c.isAlpha || c = 'e' || c = 'E' :=
    List.all_eq_true.2 fun c member => by simp [not_isAlpha_of_mem_text finite member]
  simp only [ofLiteral?, trimmed, hasDigit, noLetters, Bool.and_self, if_true, read_text finite,
    Option.filter_some, isFinite_shown finite]

/-- What is typed in as the text of a finite number is the number. -/
theorem input_text (finite : x.isFinite) : Input.ofText (text x) = .number (shown x) := by
  obtain ⟨c, member, digit⟩ := exists_isDigit_of_text finite
  have nonempty : (text x).isEmpty = false := by
    rw [Bool.eq_false_iff, ne_eq, String.isEmpty_iff]
    rintro empty
    rw [empty] at member
    cases member
  have noFormula : isFormulaText (text x) = false := by
    rw [isFormulaText, beq_eq_false_iff_ne]
    intro first
    rcases of_mem_text finite (List.mem_of_head? first) with digit | same | same <;> cases ‹_›
  simp only [Input.ofText, nonempty, noFormula, Bool.false_eq_true, if_false, ofLiteral?_text finite]

/-- The text of a finite number without a sign is the only token of this text. -/
theorem ofText_text (finite : x.isFinite) (nonneg : 0 ≤ x) :
    Token.ofText (text x) = .ok [.number (shown x)] := by
  have nothing : Token.Closes [] := by rintro c ⟨⟩
  have first := Token.number_comesFirst (isLiteral_shown finite nonneg) nothing
  rw [text_shown finite, List.append_nil] at first
  rw [Token.ofText, Token.scanAll_of_comesFirst first, Token.scanAll]
  rfl

end PageCalc.Number

import Mathlib.Data.Nat.Cast.Field
import PageCalc.Number.Shortest
import PageCalc.Proofs.Number.Nearest
import PageCalc.Proofs.Text.Cut

/-!
# Reading a number back

The text of a finite number without a sign consists of digits with at most one point after the first of
them, and is read as that number. So the text loses nothing, though it may have fewer digits than the
number has.
-/

namespace PageCalc.Number

open Text

variable {digits fraction cs : List Char} {bits : Nat} {x : Float}

/-! ## Plain texts -/

/-- Digits with at most one point, which comes after a digit. -/
inductive Plain : List Char → Prop where
  | whole {digits : List Char} (nonempty : digits ≠ []) (areDigits : ∀ c ∈ digits, c.isDigit) :
      Plain digits
  | pointed {digits fraction : List Char} (nonempty : digits ≠ []) (areDigits : ∀ c ∈ digits, c.isDigit)
      (fractionDigits : ∀ c ∈ fraction, c.isDigit) : Plain (digits ++ '.' :: fraction)

theorem Plain.exists_cons (plain : Plain cs) : ∃ c rest, cs = c :: rest ∧ c.isDigit := by
  cases plain with
  | whole nonempty areDigits | pointed nonempty areDigits =>
    obtain ⟨c, rest, rfl⟩ := List.exists_cons_of_ne_nil nonempty
    exact ⟨c, _, rfl, areDigits c List.mem_cons_self⟩

theorem splitSign_of_digits (areDigits : ∀ c ∈ digits, c.isDigit) (nonempty : digits ≠ []) (rest : List Char) :
    Decimal.splitSign (digits ++ rest) = (false, digits ++ rest) := by
  cases digits with
  | nil => exact absurd rfl nonempty
  | cons c digits =>
    have digit := areDigits c List.mem_cons_self
    rw [List.cons_append]
    unfold Decimal.splitSign
    split
    · next same => cases same; cases digit
    · next same => cases same; cases digit
    · rfl

theorem ofChars?_whole (nonempty : digits ≠ []) (areDigits : ∀ c ∈ digits, c.isDigit) :
    Decimal.ofChars? digits = some ⟨false, Decimal.digitsValue digits, 0⟩ := by
  have ends : EndsRun Char.isDigit [] := fun c first => by cases first
  have whole := takeWhile_run areDigits ends
  have nothing := dropWhile_run areDigits ends
  have sign := splitSign_of_digits areDigits nonempty []
  rw [List.append_nil] at whole nothing sign
  simp only [Decimal.ofChars?, sign, Decimal.splitDigits, whole, nothing, Decimal.splitFraction]
  simp [nonempty, Decimal.exponentOf?]

theorem ofChars?_pointed (nonempty : digits ≠ []) (areDigits : ∀ c ∈ digits, c.isDigit)
    (fractionDigits : ∀ c ∈ fraction, c.isDigit) : Decimal.ofChars? (digits ++ '.' :: fraction) =
      some ⟨false, Decimal.digitsValue (digits ++ fraction), -fraction.length⟩ := by
  have ends : EndsRun Char.isDigit ('.' :: fraction) := fun c first => by cases first; rfl
  have endsToo : EndsRun Char.isDigit [] := fun c first => by cases first
  have fractionRun := takeWhile_run fractionDigits endsToo
  have nothing := dropWhile_run fractionDigits endsToo
  rw [List.append_nil] at fractionRun nothing
  simp only [Decimal.ofChars?, splitSign_of_digits areDigits nonempty, Decimal.splitDigits,
    takeWhile_run areDigits ends, dropWhile_run areDigits ends, Decimal.splitFraction, fractionRun, nothing]
  simp [nonempty, Decimal.exponentOf?]

/-! ## Positional notation -/

theorem isDigit_of_mem_zeros {n : Nat} {c : Char} (member : c ∈ List.replicate n '0') : c.isDigit := by
  rw [(List.mem_replicate.1 member).2]
  rfl

theorem plain_positional (areDigits : ∀ c ∈ digits, c.isDigit) (exponent : ℤ)
    (nonempty : positional digits exponent ≠ []) : Plain (positional digits exponent) := by
  unfold positional at *
  split
  · next whole =>
    rw [if_pos whole] at nonempty
    refine .whole nonempty fun c member => ?_
    exact (List.mem_append.1 member).elim (areDigits c) (isDigit_of_mem_zeros)
  · dsimp only
    split
    · next inside =>
      refine .pointed ?_ (fun c member => areDigits c (List.mem_of_mem_take member))
        fun c member => areDigits c (List.mem_of_mem_drop member)
      exact List.ne_nil_of_length_pos (by rw [List.length_take]; omega)
    · refine .pointed (List.cons_ne_nil '0' []) (by simp) fun c member => ?_
      exact (List.mem_append.1 member).elim (isDigit_of_mem_zeros) (areDigits c)

theorem ofChars?_positional (nonempty : digits ≠ []) (areDigits : ∀ c ∈ digits, c.isDigit) (exponent : ℤ) :
    Decimal.ofChars? (positional digits exponent) =
      some ⟨false, Decimal.digitsValue digits * 10 ^ exponent.toNat, min exponent 0⟩ := by
  unfold positional
  split
  · next whole =>
    rw [ofChars?_whole (by simp [nonempty]) fun c member =>
      (List.mem_append.1 member).elim (areDigits c) isDigit_of_mem_zeros]
    simp [Decimal.digitsValue, Nat.ofDigitChars_append, Nat.mul_comm, whole]
  · next below =>
    have noPower : exponent.toNat = 0 := by omega
    have least : min exponent 0 = exponent := by omega
    rw [noPower, Nat.pow_zero, Nat.mul_one, least]
    dsimp only
    split
    · next inside =>
      -- The point stands between two of the digits.
      have someDigits : digits.take (digits.length - (-exponent).toNat) ≠ [] :=
        List.ne_nil_of_length_pos (by rw [List.length_take]; omega)
      rw [ofChars?_pointed someDigits (fun c member => areDigits c (List.mem_of_mem_take member))
        fun c member => areDigits c (List.mem_of_mem_drop member), List.take_append_drop]
      simp only [List.length_drop]
      congr 2
      omega
    · next outside =>
      -- Zeros stand between the point and the digits, and do not count.
      have areDigitsToo : ∀ c ∈ List.replicate ((-exponent).toNat - digits.length) '0' ++ digits,
          c.isDigit := fun c member =>
        (List.mem_append.1 member).elim isDigit_of_mem_zeros (areDigits c)
      have read := ofChars?_pointed (List.cons_ne_nil '0' []) (by simp) areDigitsToo
      rw [List.singleton_append] at read
      rw [read]
      simp only [Decimal.digitsValue, List.length_append, List.length_replicate, List.singleton_append,
        Nat.ofDigitChars_cons, Nat.ofDigitChars_append, Nat.ofDigitChars_replicate_zero]
      congr 2
      omega

/-! ## Exact texts -/

/-- The value of a decimal. -/
def Decimal.value (d : Decimal) : ℚ := d.coefficient * 10 ^ d.exponent

theorem dropTrailingZeros_append (digits : List Char) :
    digits = (dropTrailingZeros digits).1 ++ List.replicate (dropTrailingZeros digits).2 '0' := by
  have whole := congrArg List.reverse
    (List.takeWhile_append_dropWhile (p := fun c => decide (c = '0')) (l := digits.reverse))
  rw [List.reverse_append, List.reverse_reverse] at whole
  have zeros : (digits.reverse.takeWhile (· = '0')).reverse =
      List.replicate (dropTrailingZeros digits).2 '0' := by
    refine List.eq_replicate_iff.2 ⟨?_, fun c member => ?_⟩
    · have lengths := congrArg List.length whole
      simp only [List.length_append] at lengths
      simp only [dropTrailingZeros]
      omega
    · simpa using List.mem_takeWhile_imp (List.mem_reverse.1 member)
  rw [zeros] at whole
  exact whole.symm

/-- Dropping the zeros at the end divides by a power of ten. -/
theorem dropTrailingZeros_spec {coefficient : Nat} (positive : 0 < coefficient) {zeros : Nat}
    (split : dropTrailingZeros (Nat.toDigits 10 coefficient) = (digits, zeros)) :
    digits ≠ [] ∧ (∀ c ∈ digits, c.isDigit) ∧ Decimal.digitsValue digits * 10 ^ zeros = coefficient := by
  have whole := dropTrailingZeros_append (Nat.toDigits 10 coefficient)
  rw [split] at whole
  have value : Decimal.digitsValue digits * 10 ^ zeros = coefficient := by
    have read := Nat.ofDigitChars_ten_toDigits (n := coefficient)
    rw [whole, Nat.ofDigitChars_append, Nat.ofDigitChars_replicate_zero, Nat.mul_comm] at read
    exact read
  refine ⟨?_, fun c member => ?_, value⟩
  · rintro rfl
    rw [show Decimal.digitsValue [] = 0 from rfl, Nat.zero_mul] at value
    omega
  · refine Nat.isDigit_of_mem_toDigits (b := 10) (n := coefficient) (by decide) (by decide) ?_
    rw [whole]
    exact List.mem_append_left _ member

/-- A text in positional notation is read with the value that it was written for. -/
theorem ofChars?_decimalText {coefficient : Nat} (positive : 0 < coefficient) (exponent : ℤ) :
    ∃ d, Decimal.ofChars? (decimalText coefficient exponent) = some d ∧ d.negative = false ∧
      d.exponent ≤ 0 ∧ d.value = coefficient * 10 ^ exponent := by
  generalize split : dropTrailingZeros (Nat.toDigits 10 coefficient) = kept
  obtain ⟨digits, zeros⟩ := kept
  obtain ⟨nonempty, areDigits, isCoefficient⟩ := dropTrailingZeros_spec positive split
  rw [decimalText, split]
  refine ⟨_, ofChars?_positional nonempty areDigits _, rfl, Int.min_le_right .., ?_⟩
  have power : ((exponent + zeros).toNat : ℤ) + min (exponent + zeros) 0 = zeros + exponent := by omega
  rw [Decimal.value, ← isCoefficient]
  dsimp only
  push_cast
  rw [mul_assoc, mul_assoc, ← zpow_natCast, ← zpow_natCast, ← zpow_add₀ (by norm_num),
    ← zpow_add₀ (by norm_num), power]

/-- A decimal that is at least the least positive double has so many digits that it is not taken for
zero. -/
theorem not_negligible {coefficient places : Nat}
    (large : 10 ^ places ≤ coefficient * 2 ^ (-leastExponent).toNat) :
    ¬ (-places + coefficient.log2 + 1 : ℤ) < -400 := by
  intro negligible
  have least : (-leastExponent).toNat = 1074 := rfl
  have digits : coefficient < 2 ^ (coefficient.log2 + 1) := Nat.lt_log2_self
  have eights : 2 ^ (3 * places) ≤ 10 ^ places := by
    rw [Nat.pow_mul]
    exact Nat.pow_le_pow_left (by decide) places
  have powers : 2 ^ (3 * places) < 2 ^ (coefficient.log2 + 1 + (-leastExponent).toNat) := by
    rw [Nat.pow_add _ _ (-leastExponent).toNat]
    exact (eights.trans large).trans_lt (Nat.mul_lt_mul_of_pos_right digits (Nat.two_pow_pos _))
  have few := (Nat.pow_lt_pow_iff_right (by decide)).1 powers
  omega

/-- A decimal whose value is that of a double is read as the double. -/
theorem toFloat_of_value {d : Decimal} (unsigned : d.negative = false) (whole : d.exponent ≤ 0)
    (positive : 0 < bits) (small : bits < infinityBits)
    (same : d.value = (magnitudeParts bits).1 * 2 ^ (magnitudeParts bits).2) :
    d.toFloat = ofMagnitudeBits false bits := by
  obtain ⟨significandPositive, least, -, -⟩ := magnitudeParts_spec positive rfl
  obtain ⟨places, isPlaces⟩ := Int.eq_ofNat_of_zero_le (Int.neg_nonneg.2 whole)
  have isExponent : d.exponent = -places := by omega
  have quotient : d.value = d.coefficient / (10 ^ places : Nat) := by
    rw [Decimal.value, isExponent, zpow_neg, zpow_natCast, ← div_eq_mul_inv]
    push_cast
    rfl
  have large : (2 : ℚ) ^ leastExponent ≤ d.value := by
    have one : (1 : ℚ) ≤ (magnitudeParts bits).1 := by exact_mod_cast significandPositive
    rw [same]
    calc (2 : ℚ) ^ leastExponent ≤ 2 ^ (magnitudeParts bits).2 := zpow_le_zpow_right₀ one_le_two least
      _ ≤ (magnitudeParts bits).1 * 2 ^ (magnitudeParts bits).2 := le_mul_of_one_le_left (by positivity) one
  -- So the decimal is not taken for zero, however many places it has.
  have enough : 10 ^ places ≤ d.coefficient * 2 ^ (-leastExponent).toNat := by
    rw [quotient, two_zpow_le_iff (by positivity)] at large
    rwa [show leastExponent.toNat = 0 from rfl, Nat.pow_zero, Nat.mul_one] at large
  have someDigits : d.coefficient ≠ 0 := by
    rintro zero
    rw [zero, Nat.zero_mul] at enough
    exact absurd enough (Nat.not_le.2 (by positivity))
  have noPower : d.exponent.toNat = 0 := by omega
  have isPlaces : (-d.exponent).toNat = places := by omega
  rw [Decimal.toFloat, if_neg someDigits, if_neg (by omega), isExponent, if_neg (not_negligible enough),
    ← isExponent, noPower, isPlaces, unsigned, nearest]
  rw [quotient] at same
  simp only [Nat.pow_eq, Nat.pow_zero, Nat.mul_one]
  rw [nearestBits_of_eq (by positivity) small same]

theorem ofDecimalText?_of_value {d : Decimal} (read : Decimal.ofChars? cs = some d)
    (unsigned : d.negative = false) (whole : d.exponent ≤ 0) (positive : 0 < bits)
    (small : bits < infinityBits)
    (same : d.value = (magnitudeParts bits).1 * 2 ^ (magnitudeParts bits).2) :
    ofDecimalText? cs = some (ofMagnitudeBits false bits) := by
  rw [ofDecimalText?, read, Option.map_some, toFloat_of_value unsigned whole positive small same]

/-- The sign of a decimal is the one that it is written with. -/
theorem negative_of_ofChars? {d : Decimal} (isDecimal : Decimal.ofChars? cs = some d) :
    d.negative = (Decimal.splitSign cs).1 := by
  simp only [Decimal.ofChars?] at isDecimal
  split at isDecimal
  · cases isDecimal
  · obtain ⟨exponent, -, rfl⟩ := Option.map_eq_some_iff.1 isDecimal
    rfl

/-- What is written without a minus is read as a number without one. -/
theorem isNegative_of_read (unsigned : (Decimal.splitSign cs).1 = false)
    (read : ofDecimalText? cs = some x) : isNegative x = false := by
  obtain ⟨d, isDecimal, rfl⟩ := Option.map_eq_some_iff.1 read
  have unsigned : d.negative = false := (negative_of_ofChars? isDecimal).trans unsigned
  unfold Decimal.toFloat nearest
  rw [unsigned]
  repeat' split
  all_goals exact isNegative_ofMagnitudeBits (by first | exact nearestBits_le | decide)

/-! ## The text of a number -/

theorem plain_decimalText {coefficient : Nat} {exponent : ℤ} (nonempty : decimalText coefficient exponent ≠ []) :
    Plain (decimalText coefficient exponent) := by
  refine plain_positional (fun c member => ?_) _ nonempty
  have inDigits : c ∈ Nat.toDigits 10 coefficient := by
    rw [dropTrailingZeros_append (Nat.toDigits 10 coefficient)]
    exact List.mem_append_left _ member
  exact Nat.isDigit_of_mem_toDigits (by decide) (by decide) inDigits

/-- The whole part of a whole number is the number. -/
theorem toNat_floor {d : Dyadic} (unsigned : d.negative = false) (whole : d.isWhole) :
    (d.floor.toNat : ℚ) = d.significand * 2 ^ d.exponent := by
  rw [Dyadic.isWhole, Bool.or_eq_true, decide_eq_true_eq, beq_iff_eq] at whole
  rw [zpow_eq_div, Dyadic.floor, unsigned]
  simp only [Bool.false_eq_true, if_false, Nat.pow_eq] at whole ⊢
  split
  · next above =>
    have noPower : (-d.exponent).toNat = 0 := by omega
    rw [noPower, pow_zero, div_one]
    exact_mod_cast rfl
  · next below =>
    have noPower : d.exponent.toNat = 0 := by omega
    have divides := Nat.dvd_of_mod_eq_zero (whole.resolve_left below)
    rw [noPower, pow_zero, mul_one_div, Int.fdiv_eq_ediv_of_nonneg _ (by positivity)]
    rw [show ((d.significand : ℤ) / ((2 ^ (-d.exponent).toNat : Nat) : ℤ)).toNat =
      d.significand / 2 ^ (-d.exponent).toNat from rfl, Nat.cast_div divides (by positivity)]
    push_cast
    rfl

theorem exactText_spec {significand : Nat} (exponent : ℤ) (positive : 0 < significand) :
    ∃ d, Decimal.ofChars? (exactText significand exponent) = some d ∧ d.negative = false ∧
      d.exponent ≤ 0 ∧ d.value = significand * 2 ^ exponent := by
  rw [exactText]
  simp only [Nat.pow_eq]
  split
  · next above =>
    have scaled : 0 < significand * 2 ^ exponent.toNat := by positivity
    obtain ⟨d, read, unsigned, whole, value⟩ := ofChars?_decimalText scaled 0
    have noPower : (-exponent).toNat = 0 := by omega
    refine ⟨d, read, unsigned, whole, ?_⟩
    rw [value, zpow_eq_div 2, noPower]
    push_cast
    simp
  · next below =>
    have scaled : 0 < significand * 5 ^ (-exponent).toNat := by positivity
    obtain ⟨d, read, unsigned, whole, value⟩ := ofChars?_decimalText scaled exponent
    have noPower : exponent.toNat = 0 := by omega
    refine ⟨d, read, unsigned, whole, ?_⟩
    -- Five to a power cancels against ten to the same power.
    have tens : (10 : ℚ) ^ (-exponent).toNat = 5 ^ (-exponent).toNat * 2 ^ (-exponent).toNat := by
      rw [← mul_pow]
      norm_num
    rw [value, zpow_eq_div 2, zpow_eq_div 10, noPower, tens]
    push_cast
    field_simp

theorem plain_exactText {significand : Nat} {exponent : ℤ} (nonempty : exactText significand exponent ≠ []) :
    Plain (exactText significand exponent) := by
  unfold exactText at *
  split
  · next above =>
    rw [if_pos above] at nonempty
    exact plain_decimalText nonempty
  · next below =>
    rw [if_neg below] at nonempty
    exact plain_decimalText nonempty

theorem ne_nil_of_read (read : ofDecimalText? cs = some x) : cs ≠ [] := by
  rintro rfl
  cases read

/-- The digits of a whole number are read as the number. -/
theorem ofDecimalText?_toDigits {magnitude : Nat} (positive : 0 < bits) (small : bits < infinityBits)
    (same : (magnitude : ℚ) = (magnitudeParts bits).1 * 2 ^ (magnitudeParts bits).2) :
    Plain (Nat.toDigits 10 magnitude) ∧
    ofDecimalText? (Nat.toDigits 10 magnitude) = some (ofMagnitudeBits false bits) := by
  have areDigits : ∀ c ∈ Nat.toDigits 10 magnitude, c.isDigit := fun c member =>
    Nat.isDigit_of_mem_toDigits (by decide) (by decide) member
  have read := ofChars?_whole Nat.toDigits_ne_nil areDigits
  rw [Decimal.digitsValue, Nat.ofDigitChars_ten_toDigits] at read
  refine ⟨.whole Nat.toDigits_ne_nil areDigits, ?_⟩
  exact ofDecimalText?_of_value read rfl le_rfl positive small (by simpa [Decimal.value] using same)

theorem shortestText_spec (isX : ofMagnitudeBits false bits = x) (positive : 0 < bits)
    (small : bits < infinityBits) :
    Plain (shortestText x (magnitudeParts bits).1 (magnitudeParts bits).2) ∧
    ofDecimalText? (shortestText x (magnitudeParts bits).1 (magnitudeParts bits).2) = some x := by
  have significandPositive := (magnitudeParts_spec positive rfl).1
  unfold shortestText
  dsimp only
  generalize isFound : (List.range mostDigits).findSome? _ = found
  match found with
  | some short =>
    -- A text is only taken from a grid if it reads back.
    obtain ⟨count, -, onGrid⟩ := List.exists_of_findSome?_eq_some isFound
    unfold textOnGrid? at onGrid
    have readsBack := List.find?_some onGrid
    have read : ofDecimalText? short = some x := of_decide_eq_true readsBack
    obtain ⟨multiple, -, rfl⟩ := List.mem_map.1 (List.mem_of_find?_eq_some onGrid)
    exact ⟨plain_decimalText (ne_nil_of_read read), read⟩
  | none =>
    obtain ⟨d, isDecimal, unsigned, whole, value⟩ :=
      exactText_spec (magnitudeParts bits).2 significandPositive
    have read := ofDecimalText?_of_value isDecimal unsigned whole positive small value
    refine ⟨plain_exactText (ne_nil_of_read read), isX ▸ read⟩

/-- The text of a finite number without a sign is plain and is read as the number. -/
theorem text_spec (finite : x.isFinite) (unsigned : isNegative x = false) :
    Plain (text x).toList ∧ ofDecimalText? (text x).toList = some x := by
  have small := (isFinite_iff x).1 finite
  have isX := ofMagnitudeBits_magnitudeBits unsigned
  rw [text, reading_of_isFinite finite, unsigned]
  dsimp only
  split
  · next zero =>
    have noBits : magnitudeBits x = 0 := by
      by_contra someBits
      exact (magnitudeParts_spec (Nat.pos_of_ne_zero someBits) rfl).1.ne' zero
    rw [← isX, noBits]
    exact ⟨.whole (by simp) (by simp), rfl⟩
  · next nonzero =>
    have positive : 0 < magnitudeBits x := by
      rw [Nat.pos_iff_ne_zero]
      intro noBits
      exact nonzero (by rw [noBits]; rfl)
    rw [if_neg Bool.false_ne_true, String.toList_ofList, isX]
    split
    · next short =>
      have value := toNat_floor rfl (Bool.and_eq_true_iff.1 short).1
      have read := ofDecimalText?_toDigits positive small value
      rwa [isX] at read
    · exact shortestText_spec isX positive small

end PageCalc.Number

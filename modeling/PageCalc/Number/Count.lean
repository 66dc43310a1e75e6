import PageCalc.Number.Decimal

/-!
# Counts

The numbers by which sizes and limits are given: whole numbers below a bound.
-/

namespace PageCalc.Number

/-- The digits of a count, which may have a plus before them. -/
def countDigits : List Char → List Char
  | '+' :: digits => digits
  | digits => digits

/-- The count below `bound` that a text stands for. -/
def count? (bound : Nat) (cs : List Char) : Option Nat :=
  let digits := countDigits cs
  if digits.isEmpty || !digits.all Char.isDigit then none
  else
    let value := Decimal.digitsValue digits
    if value < bound then some value else none

theorem count?_lt {bound value : Nat} {cs : List Char} (h : count? bound cs = some value) :
    value < bound := by
  simp only [count?] at h
  split at h
  · simp at h
  · split at h
    · next lt => cases h; exact lt
    · simp at h

end PageCalc.Number

import PageCalc.Proofs.Number.Finite
import PageCalc.Value.Operation

/-!
# The order of values

All single values that are no errors can be compared, and what the comparing operators say of two of them
agrees with one order. The values that are not blank are ordered as a whole: numbers come before texts and
texts before truth values. A blank is equal to the empty value of every type, so it has no place among them.
-/

namespace PageCalc

namespace Number

variable {x y z : Float}

theorem order_swap (x y : Float) : order y x = (order x y).swap := by
  unfold order
  cases rank? x with
  | none => cases rank? y <;> rfl
  | some i =>
    cases rank? y with
    | none => rfl
    | some j => exact Std.OrientedOrd.eq_swap

end Number

namespace Value

variable {a b c : Value}

/-- A single value that is neither an error nor blank. -/
inductive Solid : Value → Prop where
  | number {x : Float} (finite : x.isFinite) : Solid (.number x)
  | text {s : String} : Solid (.text s)
  | boolean {t : Bool} : Solid (.boolean t)

/-- A single value that is no error. -/
inductive Comparable : Value → Prop where
  | solid {v : Value} (solid : v.Solid) : Comparable v
  | blank : Comparable .blank

/-! ## Values that are not blank -/

theorem compareFilled_swap (isA : a.Solid) (isB : b.Solid) :
    compareFilled b a = (compareFilled a b).swap := by
  cases isA with
  | @number x =>
    cases isB with
    | @number y => exact Number.order_swap x y
    | text | boolean => rfl
  | text =>
    cases isB with
    | text => exact Std.OrientedOrd.eq_swap
    | number | boolean => rfl
  | boolean =>
    cases isB with
    | boolean => exact Std.OrientedOrd.eq_swap
    | number | text => rfl

theorem Solid.order_eq (isA : a.Solid) (isB : b.Solid) : a.order b = compareFilled a b := by
  cases isA <;> cases isB <;> rfl

/-! ## Blanks -/

/-- Which of two values is filled first does not matter. -/
theorem exists_filled (isA : a.Comparable) (isB : b.Comparable) : ∃ a' b', Solid a' ∧ Solid b' ∧
    a.order b = compareFilled a' b' ∧ b.order a = compareFilled b' a' := by
  have zero : (number 0).Solid := .number (by decide)
  cases isA with
  | solid solidA =>
    cases isB with
    | solid solidB => exact ⟨a, b, solidA, solidB, solidA.order_eq solidB, solidB.order_eq solidA⟩
    | blank =>
      cases solidA with
      | number finite => exact ⟨_, _, .number finite, zero, rfl, rfl⟩
      | text => exact ⟨_, _, .text, .text, rfl, rfl⟩
      | boolean => exact ⟨_, _, .boolean, .boolean, rfl, rfl⟩
  | blank =>
    cases isB with
    | solid solidB =>
      cases solidB with
      | number finite => exact ⟨_, _, zero, .number finite, rfl, rfl⟩
      | text => exact ⟨_, _, .text, .text, rfl, rfl⟩
      | boolean => exact ⟨_, _, .boolean, .boolean, rfl, rfl⟩
    | blank => exact ⟨_, _, zero, zero, rfl, rfl⟩

theorem order_swap (isA : a.Comparable) (isB : b.Comparable) : b.order a = (a.order b).swap := by
  obtain ⟨a', b', solidA, solidB, ab, ba⟩ := exists_filled isA isB
  rw [ab, ba, compareFilled_swap solidA solidB]

/-! ## Operators -/

/-- A blank between two values does not order these: it is as good as the empty text and less than 1, but
1 is less than every text. -/
example : (text "").order blank = .eq ∧ blank.order (number 1) = .lt ∧
    (text "").order (number 1) = .gt := by
  decide

end Value
end PageCalc

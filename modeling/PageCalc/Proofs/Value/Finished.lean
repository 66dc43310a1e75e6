import PageCalc.Grid.Input
import PageCalc.Value.Basic

/-!
# The values of cells

The value of a formula that is finished is neither a list nor blank, and no infinite number. A cell
that only refers to another cell shows the value of that one, or its error as a propagated one.
-/

namespace PageCalc

/-- The value as a cell sees it that reads it: errors are propagated ones. -/
def CellValue.propagated : CellValue → CellValue
  | error e => error e.propagated
  | v => v

namespace Value

variable {v : Value}

/-- The value is not that of a range. -/
def IsFlat (v : Value) : Prop := ∀ vs, v ≠ .list vs

/-- The value is one that a cell may show as it is. -/
inductive Finished : Value → Prop where
  | number {x : Float} (finite : x.isFinite) : Finished (.number x)
  | text {s : String} : Finished (.text s)
  | boolean {b : Bool} : Finished (.boolean b)
  | error {e : CellError} : Finished (.error e)

theorem Finished.isFlat (finished : v.Finished) : v.IsFlat := by
  rintro vs rfl
  cases finished

theorem scalar_isFlat (v : Value) : v.scalar.IsFlat := by
  fun_induction Value.scalar v with
  | case1 => exact fun vs same => by cases same
  | case2 v ih => exact ih
  | case3 => exact fun vs same => by cases same
  | case4 v notEmpty notOne notMany =>
    rintro vs rfl
    -- Lists of every length were taken apart before.
    cases vs with
    | nil => exact notEmpty rfl
    | cons u us =>
      cases us with
      | nil => exact notOne u rfl
      | cons u' us => exact notMany u u' us rfl

theorem finish_finished (v : Value) : v.finish.Finished := by
  unfold finish
  cases shape : v.scalar with
  | number x =>
    cases finite : x.isFinite with
    | true =>
      simp only [checkFinite, finite]
      exact .number finite
    | false =>
      simp only [checkFinite, finite]
      exact .error
  | text s => exact .text
  | boolean b => exact .boolean
  | error e => exact .error
  | list vs => exact absurd shape (v.scalar_isFlat vs)
  | blank => exact .number (by decide)

/-- A cell that refers to a finished one only shows the same, or a propagated error. -/
theorem Finished.finish_propagated (finished : v.Finished) :
    v.propagated.finish.toCellValue = v.toCellValue.propagated := by
  cases finished with
  | number finite =>
    simp only [propagated, finish, scalar, checkFinite, finite, toCellValue, CellValue.propagated]
    rfl
  | text => rfl
  | boolean => rfl
  | error => rfl

end Value

theorem Number.isFinite_of_ofLiteral? {text : String} {x : Float} (read : ofLiteral? text = some x) :
    x.isFinite := by
  simp only [ofLiteral?] at read
  split at read
  · exact (Option.filter_eq_some_iff.1 read).2
  · cases read

theorem Input.isFinite_of_ofText {raw : String} {x : Float} (isNumber : Input.ofText raw = .number x) :
    x.isFinite := by
  unfold Input.ofText at isNumber
  split at isNumber
  · cases isNumber
  · split at isNumber
    · cases isNumber
    · split at isNumber
      · next value isLiteral =>
        cases isNumber
        exact Number.isFinite_of_ofLiteral? isLiteral
      · cases isNumber

end PageCalc

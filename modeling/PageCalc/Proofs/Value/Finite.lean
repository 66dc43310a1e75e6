import PageCalc.Proofs.Evaluation.ValueLaws
import PageCalc.Proofs.Function.Ordinary
import PageCalc.Proofs.Number.Finite
import PageCalc.Proofs.Value.Finished

/-!
# Finite values

What is finite leads to what is finite. Operators look at their results, and what an eager function answers
is looked at as well. A negation is not, nor is what a lazy function hands on, and neither has to be.
-/

namespace PageCalc

namespace Value

/-- Every number in the value is finite, also in its lists. -/
inductive IsFinite : Value → Prop where
  | number {x : Float} (finite : x.isFinite) : IsFinite (.number x)
  | text {s : String} : IsFinite (.text s)
  | boolean {b : Bool} : IsFinite (.boolean b)
  | error {e : CellError} : IsFinite (.error e)
  | blank : IsFinite .blank
  | list {vs : List Value} (each : ∀ v ∈ vs, IsFinite v) : IsFinite (.list vs)

variable {u v l r : Value} {x y : Float}

theorem isFlat_number : (number x).IsFlat := fun _ => nofun

theorem isFlat_text {s : String} : (text s).IsFlat := fun _ => nofun

theorem isFlat_boolean {b : Bool} : (boolean b).IsFlat := fun _ => nofun

theorem isFlat_error {e : CellError} : (error e).IsFlat := fun _ => nofun

theorem Finished.isFinite (finished : v.Finished) : v.IsFinite := by
  cases finished with
  | number finite => exact .number finite
  | text => exact .text
  | boolean => exact .boolean
  | error => exact .error

theorem IsFinite.propagated (finite : v.IsFinite) : v.propagated.IsFinite := by
  cases v with
  | error e => exact .error
  | _ => exact finite

theorem IsFinite.scalar (finite : v.IsFinite) : v.scalar.IsFinite := by
  fun_induction Value.scalar v with
  | case1 => exact .blank
  | case2 v ih =>
    cases finite with
    | list each => exact ih (each v (List.mem_singleton.2 rfl))
  | case3 => exact .error
  | case4 => exact finite

/-- The number that a cell shows which has the value is finite. -/
theorem IsFinite.of_toCellValue (finite : v.IsFinite) (shown : v.toCellValue = .number x) : x.isFinite := by
  have finite := finite.scalar
  unfold toCellValue at shown
  split at shown <;> cases shown
  · decide
  · next same =>
    rw [same] at finite
    cases finite with
    | number finite => exact finite

/-- What is no list is finite after it has been looked at. -/
theorem IsFlat.isFinite_checkFinite (flat : v.IsFlat) : v.checkFinite.IsFinite := by
  cases v with
  | number x =>
    cases finite : x.isFinite with
    | true =>
      simp only [checkFinite, finite]
      exact .number finite
    | false =>
      simp only [checkFinite, finite]
      exact .error
  | text s => exact .text
  | boolean b => exact .boolean
  | error e => exact .error
  | list vs => exact absurd rfl (flat vs)
  | blank => exact .blank

/-- A finite value stays as it is when it is looked at. -/
theorem IsFinite.checkFinite_eq (finite : v.IsFinite) : v.checkFinite = v := by
  cases finite with
  | number finite => simp only [checkFinite, finite, if_true]
  | _ => rfl

/-! ## Operations -/

theorem IsFinite.number? (finite : v.IsFinite) (isNumber : v.number? = some x) : x.isFinite := by
  cases finite with
  | number finite => cases isNumber; exact finite
  | text => exact Number.isFinite_of_ofLiteral? isNumber
  | @boolean b => cases isNumber; cases b <;> decide
  | blank => cases isNumber; decide
  | error | list => cases isNumber

theorem IsFinite.negate (finite : v.IsFinite) : v.negate.IsFinite := by
  have finite := finite.scalar
  unfold Value.negate
  split
  · exact .error
  · split
    · next x isNumber =>
      refine .number (Number.isFinite_neg (finite.number? ?_))
      unfold toNumber at isNumber
      split at isNumber
      · next number => cases isNumber; exact number
      · cases isNumber
    · exact .error

theorem isFinite_arithmetic {operation : Float → Float → Value} (flat : ∀ x y, (operation x y).IsFlat)
    (l r : Value) : (arithmetic operation l r).IsFinite := by
  unfold arithmetic
  split
  · exact (flat _ _).isFinite_checkFinite
  · exact .error
  · exact .error

theorem isFlat_quotient (x y : Float) : (quotient x y).IsFlat := by
  unfold quotient
  split
  · exact isFlat_error
  · exact isFlat_number

theorem isFinite_applyScalars (operator : Operator) (l r : Value) : (operator.applyScalars l r).IsFinite := by
  cases operator with
  | add | subtract | multiply => exact isFinite_arithmetic (fun _ _ => isFlat_number) l r
  | divide => exact isFinite_arithmetic isFlat_quotient l r
  | equal | notEqual | less | lessEqual | greater | greaterEqual => exact .boolean
  | concat => exact .text

theorem isFinite_apply (operator : Operator) (l r : Value) : (operator.apply l r).IsFinite := by
  unfold Operator.apply
  split
  · exact .error
  · exact .error
  · exact isFinite_applyScalars ..

/-! ## Comparison -/

/-- The numbers that decide the order of two single values, if numbers do. -/
def compared? (left right : Value) : Option (Float × Float) :=
  match left.filledLike right, right.filledLike (left.filledLike right) with
  | number x, number y => some (x, y)
  | _, _ => none

/-- The order of the numbers is that of the values. -/
theorem order_of_compared (compares : compared? l r = some (x, y)) : l.order r = Number.order x y := by
  unfold compared? at compares
  split at compares
  · next left right =>
    cases compares
    rw [Value.order, left, ← left, right, left, compareFilled]
  · cases compares

theorem IsFinite.filledLike (finite : v.IsFinite) (other : Value) : (v.filledLike other).IsFinite := by
  unfold Value.filledLike
  split
  · exact .text
  · exact .boolean
  · exact .number (by decide)
  · exact finite

theorem IsFinite.compared (left : l.IsFinite) (right : r.IsFinite) (compares : compared? l r = some (x, y)) :
    x.isFinite ∧ y.isFinite := by
  have left := left.filledLike r
  have right := right.filledLike (l.filledLike r)
  unfold compared? at compares
  split at compares
  · next isLeft isRight =>
    cases compares
    rw [isLeft] at left
    rw [isRight] at right
    cases left with
    | number finite =>
      cases right with
      | number finite' => exact ⟨finite, finite'⟩
  · cases compares

end Value

/-! ## Functions -/

/-- What a function answers is finite when it has been looked at: an eager one does not answer with lists, and
a lazy one answers with its arguments. -/
def Implementation.Bounded : Implementation → Prop
  | .eager apply => ∀ vs v, apply vs = .ok v → v.IsFlat
  | .lazy demand => ∀ count, (demand count).Keeps Value.IsFinite

namespace Function

open Value

variable {v : Value} {arguments : List Value}

theorem isFlat_of_ok {u : Value} (flat : u.IsFlat) (outcome : (.ok u : Outcome) = .ok v) : v.IsFlat := by
  cases outcome
  exact flat

theorem isFlat_of_bind {α : Type} {given : Except FormulaError α} {onward : α → Outcome}
    (flat : ∀ a v, onward a = .ok v → v.IsFlat) (outcome : (given >>= onward) = .ok v) : v.IsFlat := by
  cases given with
  | error fault => cases outcome
  | ok a => exact flat a v outcome

theorem isFlat_onText {make : String → Value} (flat : ∀ s, (make s).IsFlat)
    (outcome : onText make arguments = .ok v) : v.IsFlat := by
  refine isFlat_of_ok ?_ outcome
  split
  · exact scalar_isFlat _
  · exact flat _

theorem isFlat_average (outcome : average arguments = .ok v) : v.IsFlat := by
  refine isFlat_of_ok ?_ outcome
  split
  · exact isFlat_error
  · exact isFlat_number

theorem isFlat_negation (outcome : negation arguments = .ok v) : v.IsFlat := by
  unfold negation at outcome
  dsimp only at outcome
  split at outcome
  · exact isFlat_of_ok (scalar_isFlat _) outcome
  · exact isFlat_of_bind (fun b v => isFlat_of_ok isFlat_boolean) outcome

theorem isFlat_conjunction (outcome : conjunction arguments = .ok v) : v.IsFlat := by
  unfold conjunction at outcome
  dsimp only at outcome
  split at outcome
  · cases outcome
  · exact isFlat_of_ok isFlat_boolean outcome

theorem isFlat_disjunction (outcome : disjunction arguments = .ok v) : v.IsFlat := by
  unfold disjunction at outcome
  dsimp only at outcome
  split at outcome
  · cases outcome
  · exact isFlat_of_ok isFlat_boolean outcome

theorem keeps_finite_answerWith (place : Nat) : (answerWith place).Keeps IsFinite :=
  .ask fun v finite => .answer fun u same => by cases same; exact finite

theorem keeps_finite_choose (count : Nat) : (choose count).Keeps IsFinite := by
  refine .ask fun v finite => ?_
  dsimp only
  split
  · exact .answer fun u same => by cases same; exact finite.scalar
  · split
    · exact .answer fun u => nofun
    · exact keeps_finite_answerWith 1
    · split
      · exact keeps_finite_answerWith 2
      · exact .answer fun u same => by cases same; exact .boolean

theorem keeps_finite_rescue (count : Nat) : (rescue count).Keeps IsFinite := by
  refine .ask fun v finite => ?_
  split
  · exact keeps_finite_answerWith 1
  · exact .answer fun u same => by cases same; exact finite

theorem bounded_aggregates (function : Function) (member : function ∈ aggregates) :
    function.implementation.Bounded := by
  simp only [aggregates, List.mem_cons, List.not_mem_nil, or_false] at member
  rcases member with rfl | rfl | rfl | rfl | rfl | rfl | rfl | rfl <;> intro vs v
  · exact isFlat_of_ok isFlat_number
  · exact isFlat_average
  · exact isFlat_of_ok isFlat_number
  · exact isFlat_of_ok isFlat_number
  · exact isFlat_of_ok isFlat_number
  · exact isFlat_of_ok isFlat_number
  · exact isFlat_of_bind fun x v => isFlat_of_ok isFlat_number
  · exact isFlat_of_bind fun x v => isFlat_of_bind fun digits v => isFlat_of_ok isFlat_number

theorem bounded_choices (function : Function) (member : function ∈ choices) :
    function.implementation.Bounded := by
  simp only [choices, List.mem_cons, List.not_mem_nil, or_false] at member
  rcases member with rfl | rfl | rfl | rfl | rfl
  · exact keeps_finite_choose
  · exact keeps_finite_rescue
  · exact fun vs v => isFlat_conjunction
  · exact fun vs v => isFlat_disjunction
  · exact fun vs v => isFlat_negation

theorem bounded_wordings (function : Function) (member : function ∈ wordings) :
    function.implementation.Bounded := by
  simp only [wordings, List.mem_cons, List.not_mem_nil, or_false] at member
  rcases member with rfl | rfl | rfl | rfl | rfl <;> intro vs v
  · exact isFlat_of_ok isFlat_text
  · exact isFlat_onText fun s => isFlat_number
  · exact isFlat_onText fun s => isFlat_text
  · exact isFlat_onText fun s => isFlat_text
  · exact isFlat_onText fun s => isFlat_text

end Function

namespace Library

/-- What the functions of the library answer is finite when it has been looked at. -/
def Bounded (library : Library) : Prop :=
  ∀ name function, library.find? name = some function → function.implementation.Bounded

theorem builtin_bounded : builtin.Bounded :=
  forall_builtin Function.bounded_aggregates Function.bounded_choices Function.bounded_wordings

end Library
end PageCalc

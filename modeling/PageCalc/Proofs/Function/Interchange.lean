import PageCalc.Proofs.Function.Filled
import PageCalc.Proofs.Value.Finite

/-!
# Interchangeable values

A value and the list of this value alone stand for the same single value and have the same members, and so do
a blank and the empty list, but for the blank. No operator and no function of the library shows the difference:
what they come to is the same, or again interchangeable if a lazy function hands an argument on.
-/

namespace PageCalc

open PageCalc.Function

namespace Value

/-- Two values are the same, or stand for the same single value and for the same members but for blanks. -/
inductive Interchangeable : Value → Value → Prop where
  | same {v : Value} : Interchangeable v v
  | alike {u v : Value} (scalar : u.scalar = v.scalar) (filled : u.filled = v.filled) (finite : u.IsFinite)
      (finite' : v.IsFinite) : Interchangeable u v

variable {u v l l' r r' : Value}

theorem interchangeable_list (finite : v.IsFinite) : v.Interchangeable (.list [v]) := by
  refine .alike ?_ ?_ finite (.list fun u member => List.mem_singleton.1 member ▸ finite)
  · rw [Value.scalar]
  · simp [filled, members]

theorem interchangeable_blank : Interchangeable .blank (.list []) :=
  .alike rfl (filled_blank.trans (filled_list []).symm) .blank (.list fun _ member => absurd member List.not_mem_nil)

namespace Interchangeable

variable (both : u.Interchangeable v)

include both

theorem scalar : u.scalar = v.scalar := by
  cases both with
  | same => rfl
  | alike scalar => exact scalar

theorem filled : u.filled = v.filled := by
  cases both with
  | same => rfl
  | alike _ filled => exact filled

theorem firstError? : u.firstError? = v.firstError? := by
  rw [firstError?_eq_filled, firstError?_eq_filled, both.filled]

theorem finish : u.finish = v.finish := by rw [Value.finish, Value.finish, both.scalar]

theorem negate : u.negate = v.negate := by rw [Value.negate, Value.negate, both.scalar]

/-- A function looks at numbers that it answers with, and what is finite passes. -/
theorem checkFinite : u.checkFinite.Interchangeable v.checkFinite := by
  cases both with
  | same => exact .same
  | alike scalar filled finite finite' =>
    rw [finite.checkFinite_eq, finite'.checkFinite_eq]
    exact .alike scalar filled finite finite'

end Interchangeable

theorem apply_interchangeable (operator : Operator) (left : l.Interchangeable l') (right : r.Interchangeable r') :
    operator.apply l r = operator.apply l' r' := by
  simp only [Operator.apply, left.scalar, right.scalar]

end Value

/-! ## Arguments -/

/-- Two outcomes are the same failure, or interchangeable values. -/
inductive Outcome.Interchangeable : Outcome → Outcome → Prop where
  | value {u v : Value} (both : u.Interchangeable v) : Interchangeable (.ok u) (.ok v)
  | fault {fault : FormulaError} : Interchangeable (.error fault) (.error fault)

theorem Outcome.Interchangeable.refl (outcome : Outcome) : Outcome.Interchangeable outcome outcome := by
  cases outcome with
  | ok v => exact .value .same
  | error fault => exact .fault

/-- Two demands ask for the same arguments, and end interchangeably if they are given interchangeable ones. -/
inductive Demand.Interchangeable : Demand → Demand → Prop where
  | answer {outcome outcome' : Outcome} (both : Outcome.Interchangeable outcome outcome') :
      Interchangeable (.answer outcome) (.answer outcome')
  | ask {place : Nat} {next next' : Value → Demand}
      (onward : ∀ u v, u.Interchangeable v → Interchangeable (next u) (next' v)) :
      Interchangeable (.ask place next) (.ask place next')

/-- The function makes the same of interchangeable arguments, or hands one of them on. -/
def Implementation.Tolerates : Implementation → Prop
  | .eager apply => ∀ us vs, List.Forall₂ Value.Interchangeable us vs → apply us = apply vs
  | .lazy demand => ∀ count, (demand count).Interchangeable (demand count)

theorem Implementation.Exact.tolerates {implementation : Implementation} {handling : Handling}
    (exact : implementation.Exact handling) : implementation.Tolerates := by
  cases implementation with
  | eager apply =>
    cases handling with
    | eager use => exact fun us vs each => exact us vs (Use.same_of_each each
        (fun _ _ _ => Value.Interchangeable.scalar) fun _ _ => Value.Interchangeable.filled)
    | lazy argument => exact exact.elim
  | lazy demand => exact exact.elim

namespace Function

theorem interchangeable_answerWith (place : Nat) : (answerWith place).Interchangeable (answerWith place) :=
  .ask fun _ _ both => .answer (.value both)

theorem interchangeable_choose (count : Nat) : (choose count).Interchangeable (choose count) := by
  refine .ask fun u v both => ?_
  simp only [both.scalar]
  split
  · exact .answer (.value .same)
  · split
    · exact .answer .fault
    · exact interchangeable_answerWith 1
    · split
      · exact interchangeable_answerWith 2
      · exact .answer (.value .same)

theorem interchangeable_rescue (count : Nat) : (rescue count).Interchangeable (rescue count) := by
  refine .ask fun u v both => ?_
  simp only [both.firstError?]
  split
  · exact interchangeable_answerWith 1
  · exact .answer (.value both)

theorem tolerates_choices : ∀ function ∈ choices, function.implementation.Tolerates := by
  refine forall_choices ?condition ?fallback ?eager
  case condition => exact interchangeable_choose
  case fallback => exact interchangeable_rescue
  case eager => exact fun function isEager => (exact_connectives function isEager).tolerates

end Function

namespace Library

/-- No function of the library tells interchangeable arguments from each other. -/
def Tolerates (library : Library) : Prop :=
  ∀ name function, library.find? name = some function → function.implementation.Tolerates

theorem builtin_tolerates : builtin.Tolerates :=
  forall_builtin (fun function member => (Function.exact_aggregates function member).tolerates)
    Function.tolerates_choices fun function member => (Function.exact_wordings function member).tolerates

end Library
end PageCalc

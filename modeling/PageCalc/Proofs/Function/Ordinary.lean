import PageCalc.Proofs.Evaluation.ValueLaws
import PageCalc.Proofs.Value.Finished

/-!
# Errors in values

What is computed has no errors in it but those that it was computed from and some that say themselves
what went wrong. That a cell lies on a cycle is not found by computing, nor is an error propagated by
it: values without such errors lead to values without them.
-/

namespace PageCalc

/-- A set of errors that holds those that computing may begin with. -/
def AdmitsFresh (E : CellError → Prop) : Prop :=
  ∀ (kind : ErrorKind) (message : String), kind ≠ .circular → kind ≠ .propagated → E (.fresh kind message)

variable {E : CellError → Prop}

namespace Value

/-- All errors in the value are in the set. -/
inductive ErrorsIn (E : CellError → Prop) : Value → Prop where
  | number {x : Float} : ErrorsIn E (number x)
  | text {s : String} : ErrorsIn E (text s)
  | boolean {b : Bool} : ErrorsIn E (boolean b)
  | blank : ErrorsIn E blank
  | error {e : CellError} (inside : E e) : ErrorsIn E (error e)
  | list {vs : List Value} (each : ∀ v ∈ vs, ErrorsIn E v) : ErrorsIn E (list vs)

/-- No error in the value is that of a cell on a cycle. -/
abbrev Ordinary : Value → Prop := ErrorsIn fun e => e.kind ≠ .circular

theorem ordinary_fresh : AdmitsFresh fun e => e.kind ≠ .circular := fun _ _ other _ => other

variable {u v : Value}

theorem ErrorsIn.of_mem_members (inside : v.ErrorsIn E) : ∀ u ∈ v.members, u.ErrorsIn E := by
  induction inside with
  | number | text | boolean | blank => simp [members, ErrorsIn.number, ErrorsIn.text,
      ErrorsIn.boolean, ErrorsIn.blank]
  | error inside => simp [members, ErrorsIn.error inside]
  | list each ih =>
    intro u member
    rw [members, List.mem_flatMap] at member
    obtain ⟨v, inList, member⟩ := member
    exact ih v inList u member

theorem ErrorsIn.firstError {e : CellError} (inside : v.ErrorsIn E)
    (found : v.firstError? = some e) : (Value.error e).ErrorsIn E := by
  obtain ⟨u, member, isError⟩ := List.exists_of_findSome?_eq_some found
  have inside := inside.of_mem_members u member
  cases u with
  | error other => cases isError; exact inside
  | _ => cases isError

section

variable (fresh : AdmitsFresh E)
include fresh

theorem ErrorsIn.scalar (inside : v.ErrorsIn E) : v.scalar.ErrorsIn E := by
  fun_induction Value.scalar v with
  | case1 => exact .blank
  | case2 v ih =>
    cases inside with
    | list each => exact ih (each v (List.mem_singleton.2 rfl))
  | case3 => exact .error (fresh .value _ (by decide) (by decide))
  | case4 => exact inside

theorem ErrorsIn.checkFinite (inside : v.ErrorsIn E) : v.checkFinite.ErrorsIn E := by
  unfold Value.checkFinite
  split
  · split
    · exact .number
    · exact .error (fresh .value _ (by decide) (by decide))
  · exact inside

theorem errorsIn_fault (fault : FormulaError) : (Value.error fault.toCellError).ErrorsIn E := by
  refine .error ?_
  cases fault <;> exact fresh _ _ (by decide) (by decide)

theorem ErrorsIn.negate (inside : v.ErrorsIn E) : v.negate.ErrorsIn E := by
  have inside := inside.scalar fresh
  unfold Value.negate
  split
  · next same => exact same ▸ inside
  · split
    · exact .number
    · exact errorsIn_fault fresh _

theorem errorsIn_arithmetic {operation : Float → Float → Value}
    (inside : ∀ x y, (operation x y).ErrorsIn E) (l r : Value) :
    (arithmetic operation l r).ErrorsIn E := by
  unfold arithmetic
  split
  · exact (inside _ _).checkFinite fresh
  · exact errorsIn_fault fresh _
  · exact errorsIn_fault fresh _

theorem errorsIn_quotient (x y : Float) : (quotient x y).ErrorsIn E := by
  unfold quotient
  split
  · exact .error (fresh .division _ (by decide) (by decide))
  · exact .number

theorem errorsIn_applyScalars (operator : Operator) (l r : Value) :
    (operator.applyScalars l r).ErrorsIn E := by
  cases operator with
  | add | subtract | multiply => exact errorsIn_arithmetic fresh (fun _ _ => .number) l r
  | divide => exact errorsIn_arithmetic fresh (errorsIn_quotient fresh) l r
  | equal | notEqual | less | lessEqual | greater | greaterEqual => exact .boolean
  | concat => exact .text

theorem errorsIn_apply (operator : Operator) {l r : Value} (left : l.ErrorsIn E) (right : r.ErrorsIn E) :
    (operator.apply l r).ErrorsIn E := by
  have left := left.scalar fresh
  have right := right.scalar fresh
  unfold Operator.apply
  split
  · next same => exact same ▸ left
  · next same _ => exact same ▸ right
  · exact errorsIn_applyScalars fresh ..

theorem ErrorsIn.finish (inside : v.ErrorsIn E) : v.finish.ErrorsIn E := by
  have inside := (inside.scalar fresh).checkFinite fresh
  unfold Value.finish
  split
  · exact .number
  · exact inside

end

end Value

/-! ## Functions -/

namespace Function

open Value

theorem keeps_of_answers {apply : List Value → Outcome}
    (answers : ∀ vs v, apply vs = .ok v → v.ErrorsIn E) :
    (Implementation.eager apply).Keeps (ErrorsIn E) :=
  fun vs _ v outcome => answers vs v outcome

theorem keeps_answerWith (place : Nat) : (answerWith place).Keeps (ErrorsIn E) :=
  .ask fun v inside => .answer fun u same => by cases same; exact inside

theorem keeps_rescue : (Implementation.lazy rescue).Keeps (ErrorsIn E) := by
  refine fun count => .ask fun v inside => ?_
  split
  · exact keeps_answerWith 1
  · exact .answer fun u same => by cases same; exact inside

theorem errorsIn_of_bind {given : Except FormulaError Float} {onward : Float → Outcome}
    (onwardInside : ∀ x v, onward x = .ok v → v.ErrorsIn E) (v : Value)
    (outcome : (given >>= onward) = .ok v) : v.ErrorsIn E := by
  cases given with
  | error fault => cases outcome
  | ok x => exact onwardInside x v outcome

section

variable (fresh : AdmitsFresh E)
include fresh

theorem errorsIn_scalarArgument {arguments : List Value} (each : ∀ v ∈ arguments, v.ErrorsIn E)
    (place : Nat) : (scalarArgument arguments place).ErrorsIn E := by
  unfold scalarArgument
  cases given : arguments[place]? with
  | none => exact ErrorsIn.scalar fresh .blank
  | some v => exact (each v (List.mem_of_getElem? given)).scalar fresh

theorem keeps_onText {make : String → Value} (makes : ∀ s, (make s).ErrorsIn E) :
    (Implementation.eager (onText make)).Keeps (ErrorsIn E) := by
  intro vs each v outcome
  unfold onText at outcome
  cases outcome
  split
  · exact errorsIn_scalarArgument fresh each 0
  · exact makes _

theorem keeps_choose : (Implementation.lazy choose).Keeps (ErrorsIn E) := by
  refine fun count => .ask fun v inside => ?_
  dsimp only
  split
  · refine .answer fun u same => ?_
    cases same
    exact inside.scalar fresh
  · split
    · exact .answer fun u same => by cases same
    · exact keeps_answerWith 1
    · split
      · exact keeps_answerWith 2
      · exact .answer fun u same => by cases same; exact .boolean

theorem keeps_negation : (Implementation.eager negation).Keeps (ErrorsIn E) := by
  intro vs each v outcome
  unfold negation at outcome
  dsimp only at outcome
  split at outcome
  · cases outcome
    exact errorsIn_scalarArgument fresh each 0
  · cases truth : (scalarArgument vs 0).toTruth with
    | error fault => simp [truth, bind, Except.bind] at outcome
    | ok b =>
      simp only [truth, bind, Except.bind, pure, Except.pure, Except.ok.injEq] at outcome
      exact outcome ▸ .boolean

theorem keeps_aggregates (function : Function) (member : function ∈ aggregates) :
    function.implementation.Keeps (ErrorsIn E) := by
  simp only [aggregates, List.mem_cons, List.not_mem_nil, or_false] at member
  rcases member with rfl | rfl | rfl | rfl | rfl | rfl | rfl | rfl
  · exact keeps_of_answers fun vs v outcome => by cases outcome; exact .number
  · refine keeps_of_answers fun vs v outcome => ?_
    cases outcome
    split
    · exact .error (fresh .division _ (by decide) (by decide))
    · exact .number
  · exact keeps_of_answers fun vs v outcome => by cases outcome; exact .number
  · exact keeps_of_answers fun vs v outcome => by cases outcome; exact .number
  · exact keeps_of_answers fun vs v outcome => by cases outcome; exact .number
  · exact keeps_of_answers fun vs v outcome => by cases outcome; exact .number
  · exact keeps_of_answers fun vs => errorsIn_of_bind fun x v outcome => by
      cases outcome; exact .number
  · exact keeps_of_answers fun vs => errorsIn_of_bind fun x => errorsIn_of_bind fun y v outcome => by
      cases outcome; exact .number

theorem keeps_choices (function : Function) (member : function ∈ choices) :
    function.implementation.Keeps (ErrorsIn E) := by
  simp only [choices, List.mem_cons, List.not_mem_nil, or_false] at member
  rcases member with rfl | rfl | rfl | rfl | rfl
  · exact keeps_choose fresh
  · exact keeps_rescue
  · refine keeps_of_answers fun vs v outcome => ?_
    unfold conjunction at outcome
    dsimp only at outcome
    split at outcome <;> cases outcome
    exact .boolean
  · refine keeps_of_answers fun vs v outcome => ?_
    unfold disjunction at outcome
    dsimp only at outcome
    split at outcome <;> cases outcome
    exact .boolean
  · exact keeps_negation fresh

theorem keeps_wordings (function : Function) (member : function ∈ wordings) :
    function.implementation.Keeps (ErrorsIn E) := by
  simp only [wordings, List.mem_cons, List.not_mem_nil, or_false] at member
  rcases member with rfl | rfl | rfl | rfl | rfl
  · exact keeps_of_answers fun vs v outcome => by cases outcome; exact .text
  · exact keeps_onText fresh fun s => .number
  · exact keeps_onText fresh fun s => .text
  · exact keeps_onText fresh fun s => .text
  · exact keeps_onText fresh fun s => .text

end

end Function

/-! ## The library -/

namespace Library

theorem mem_of_find? {functions : List Function} {name : String} {function : Function}
    (found : (ofList functions).find? name = some function) : function ∈ functions := by
  have folded (functions : List Function) (library : Library)
      (found : (functions.foldl register library).find? name = some function) :
      library.find? name = some function ∨ function ∈ functions := by
    -- Later entries replace earlier ones of the same name, so the library so far has to be general.
    induction functions generalizing library with
    | nil => exact .inl found
    | cons first functions ih =>
      rcases ih (library.register first) found with known | later
      · rw [find?, register, Std.ExtTreeMap.getElem?_insert] at known
        split at known
        · cases known
          exact .inr List.mem_cons_self
        · exact .inl known
      · exact .inr (List.mem_cons_of_mem _ later)
  refine (folded functions empty found).resolve_left fun inEmpty => ?_
  simp [find?, empty] at inEmpty

/-- What holds of the functions of each kind holds of every function that the library finds. -/
theorem forall_builtin {P : Function → Prop} (aggregates : ∀ function ∈ Function.aggregates, P function)
    (choices : ∀ function ∈ Function.choices, P function)
    (wordings : ∀ function ∈ Function.wordings, P function) (name : String) (function : Function)
    (found : builtin.find? name = some function) : P function := by
  have member := mem_of_find? found
  simp only [List.mem_append] at member
  rcases member with (member | member) | member
  · exact aggregates function member
  · exact choices function member
  · exact wordings function member

/-- Values with errors in a set lead to values with errors in the set. -/
theorem builtin_errorsIn (fresh : AdmitsFresh E) : ValueLaw builtin (Value.ErrorsIn E) where
  number _ := .number
  text _ := .text
  boolean _ := .boolean
  blank := .blank
  fault := Value.errorsIn_fault fresh
  firstError _ _ := Value.ErrorsIn.firstError
  checkFinite _ := Value.ErrorsIn.checkFinite fresh
  negate _ := Value.ErrorsIn.negate fresh
  apply operator _ _ := Value.errorsIn_apply fresh operator
  function := forall_builtin (Function.keeps_aggregates fresh) (Function.keeps_choices fresh)
    (Function.keeps_wordings fresh)

/-- Ordinary values lead to ordinary values. -/
theorem builtin_ordinary : ValueLaw builtin Value.Ordinary := builtin_errorsIn Value.ordinary_fresh

end Library
end PageCalc

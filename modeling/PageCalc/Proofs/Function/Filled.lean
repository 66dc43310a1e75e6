import Mathlib.Data.List.Forall2
import PageCalc.Proofs.Function.Ordinary

/-!
# Ranges with blanks

A function that looks at the members of its arguments passes over the blanks among them; one that takes
its arguments as single values tells an empty list and a list of one value from longer ones. A lazy
function hands on what its value is used for to the arguments that it answers with. Two lists are alike
for a use if whoever uses them so cannot tell them from each other.
-/

namespace PageCalc

open PageCalc.Function

namespace Value

theorem isBlank_blank : isBlank .blank = true := rfl

/-- The members of a value that are not blank. -/
def filled (v : Value) : List Value := v.members.filter fun u => !isBlank u

theorem filled_blank : blank.filled = [] := by simp [filled, members, isBlank]

theorem firstError?_eq_filled (v : Value) : v.firstError? = v.filled.findSome? error? := by
  rw [firstError?, filled]
  induction v.members with
  | nil => rfl
  | cons u us ih => cases u <;> simp [List.findSome?_cons, isBlank, error?, ih]

/-- Where each argument has its first error in common with one of the others, so have all together. -/
theorem findSome?_firstError? {like : Value → Value → Prop} {us vs : List Value} (each : List.Forall₂ like us vs)
    (same : ∀ u v, like u v → u.firstError? = v.firstError?) :
    us.findSome? firstError? = vs.findSome? firstError? := by
  induction each with
  | nil => rfl
  | cons first _ ih => rw [List.findSome?_cons, List.findSome?_cons, same _ _ first, ih]

/-- The second list is the first one with blanks put in. -/
inductive Padded : List Value → List Value → Prop where
  | nil : Padded [] []
  | keep (v : Value) {us vs : List Value} (rest : Padded us vs) : Padded (v :: us) (v :: vs)
  | blank {us vs : List Value} (rest : Padded us vs) : Padded us (.blank :: vs)

variable {us vs : List Value}

theorem Padded.filled (padded : Padded us vs) : (list us).filled = (list vs).filled := by
  simp only [Value.filled, members]
  induction padded with
  | nil => rfl
  | keep v _ ih => simp [ih]
  | blank _ ih => simp [ih, members, isBlank_blank]

theorem Padded.propagated (padded : Padded us vs) :
    Padded (us.map Value.propagated) (vs.map Value.propagated) := by
  induction padded with
  | nil => exact .nil
  | keep v _ ih => exact .keep v.propagated ih
  | blank _ ih => exact .blank ih

theorem Padded.length_le (padded : Padded us vs) : us.length ≤ vs.length := by
  induction padded with
  | nil => exact Nat.le_refl _
  | keep _ _ ih => exact Nat.succ_le_succ ih
  | blank _ ih => exact Nat.le_succ_of_le ih

/-- Blanks do not change the single value of a list unless they make several values of few. -/
theorem Padded.scalar (padded : Padded us vs) (steady : 2 ≤ vs.length → 2 ≤ us.length) :
    (list us).scalar = (list vs).scalar := by
  have several {ws : List Value} (many : 2 ≤ ws.length) : (list ws).scalar = error .severalValues := by
    match ws, many with
    | _ :: _ :: _, _ => simp only [Value.scalar]
  by_cases many : 2 ≤ us.length
  · rw [several many, several (Nat.le_trans many padded.length_le)]
  · -- At most one value is left in the longer list.
    cases padded with
    | nil => rfl
    | keep v rest =>
      cases rest with
      | nil => rfl
      | keep _ _ => exact absurd (Nat.le_add_left 2 _) many
      | blank _ => exact absurd (steady (Nat.le_add_left 2 _)) many
    | blank rest =>
      cases rest with
      | nil => simp [Value.scalar]
      | keep _ _ | blank _ => exact absurd (steady (Nat.le_add_left 2 _)) many

end Value

/-! ## Uses of values -/

/-- What a value is used for. -/
inductive Use where
  /-- As a single value. -/
  | single
  /-- For the members of it that are not blank. -/
  | members
deriving DecidableEq

/-- Two values are the same, or lists that are the same for a use. -/
inductive Use.Alike (use : Use) : Value → Value → Prop where
  | same {v : Value} : Alike use v v
  | lists {us vs : List Value} (filled : (Value.list us).filled = (Value.list vs).filled)
      (scalar : use = .single → (Value.list us).scalar = (Value.list vs).scalar) :
      Alike use (.list us) (.list vs)

/-- Two outcomes are the same failure, or values that are alike. -/
inductive Use.Agree (use : Use) : Outcome → Outcome → Prop where
  | value {u v : Value} (alike : use.Alike u v) : Agree use (.ok u) (.ok v)
  | fault {fault : FormulaError} : Agree use (.error fault) (.error fault)

namespace Use

variable {use : Use} {u v : Value} {us vs : List Value}

theorem Alike.filled (alike : use.Alike u v) : u.filled = v.filled := by
  cases alike with
  | same => rfl
  | lists filled => exact filled

theorem Alike.firstError? (alike : use.Alike u v) : u.firstError? = v.firstError? := by
  rw [Value.firstError?_eq_filled, Value.firstError?_eq_filled, alike.filled]

theorem Alike.scalar (alike : single.Alike u v) : u.scalar = v.scalar := by
  cases alike with
  | same => rfl
  | lists _ scalar => exact scalar rfl

theorem Alike.finish (alike : single.Alike u v) : u.finish = v.finish := by
  rw [Value.finish, Value.finish, alike.scalar]

theorem Alike.checkFinite (alike : use.Alike u v) : use.Alike u.checkFinite v.checkFinite := by
  cases alike with
  | same => exact .same
  | lists filled scalar => exact .lists filled scalar

end Use

/-! ## Demands -/

/-- Two demands ask for the same arguments and end alike, if what they are given is alike for the use that
is made of it. -/
inductive Demand.Alike (argument : Nat → Use) (use : Use) : Demand → Demand → Prop where
  | answer {outcome outcome' : Outcome} (agree : use.Agree outcome outcome') :
      Alike argument use (.answer outcome) (.answer outcome')
  | ask {place : Nat} {next next' : Value → Demand}
      (onward : ∀ u v, (argument place).Alike u v → Alike argument use (next u) (next' v)) :
      Alike argument use (.ask place next) (.ask place next')

/-- How a function uses its arguments. -/
inductive Handling where
  /-- All of them for the same. -/
  | eager (argument : Use)
  /-- Each as it depends on its place and on what the value of the function is used for. -/
  | lazy (argument : Use → Nat → Use)

/-- What an argument is used for. -/
def Handling.argument (use : Use) (place : Nat) : Handling → Use
  | eager argument => argument
  | lazy argument => argument use place

/-- The function cannot tell arguments from each other that are alike for the uses it makes of them. -/
def Implementation.Respects : Implementation → Handling → Prop
  | .eager apply, .eager argument => ∀ us vs, List.Forall₂ argument.Alike us vs → apply us = apply vs
  | .lazy demand, .lazy argument =>
    ∀ use count, (demand count).Alike (argument use) use (demand count)
  | _, _ => False

namespace Function

/-- The functions that look at all members of their arguments. -/
def spreading : List String := ["SUM", "AVERAGE", "COUNT", "COUNTA", "MIN", "MAX", "AND", "OR", "CONCAT"]

/-- How a function uses its arguments, going by its name: a condition is a single value, and what a lazy
function may answer with is used as its value is. -/
def handling (function : Function) : Handling :=
  match function.implementation with
  | .eager _ => .eager (if function.name ∈ spreading then .members else .single)
  | .lazy _ => .lazy fun use place => if function.name = "IF" ∧ place = 0 then .single else use

/-! ## Eager functions -/

variable {us vs : List Value}

/-- The members of arguments that are not blank. -/
def allFilled (arguments : List Value) : List Value := arguments.flatMap Value.filled

theorem allFilled_eq_filter (arguments : List Value) :
    allFilled arguments = (allMembers arguments).filter fun u => !isBlank u := by
  rw [allFilled, allMembers, List.filter_flatMap]
  rfl

theorem filled_list (vs : List Value) : (Value.list vs).filled = allFilled vs := by
  rw [Value.filled, Value.members, allFilled_eq_filter, allMembers]

/-- What is picked from members passes over the blanks if nothing is picked from a blank. -/
theorem filterMap_allMembers {α : Type} (pick : Value → Option α) (none : pick .blank = none)
    (arguments : List Value) :
    (allMembers arguments).filterMap pick = (allFilled arguments).filterMap pick := by
  rw [allFilled_eq_filter]
  induction allMembers arguments with
  | nil => rfl
  | cons u us ih => cases u <;> simp [List.filterMap_cons, isBlank, ih, none]

theorem numbers_congr (same : allFilled us = allFilled vs) : numbers us = numbers vs := by
  rw [numbers, numbers, filterMap_allMembers _ rfl, filterMap_allMembers _ rfl, same]

theorem truths_congr (same : allFilled us = allFilled vs) : truths us = truths vs := by
  rw [truths, truths, filterMap_allMembers _ rfl, filterMap_allMembers _ rfl, same]

theorem countFilled_congr (same : allFilled us = allFilled vs) : countFilled us = countFilled vs := by
  simp only [countFilled, ← allFilled_eq_filter, same]

theorem join_congr (same : allFilled us = allFilled vs) : join us = join vs := by
  -- A blank has the empty text.
  have texts (arguments : List Value) : String.join ((allMembers arguments).map Value.toText) =
      String.join ((allFilled arguments).map Value.toText) := by
    rw [allFilled_eq_filter]
    induction allMembers arguments with
    | nil => rfl
    | cons u us ih =>
      cases u <;> simp [isBlank, String.join_cons, Value.toText, ih]
  simp only [join, texts, same]

end Function

/-- Two lists of arguments, which may differ in length, are the same for a use. -/
def Use.Same : Use → List Value → List Value → Prop
  | .single, us, vs => ∀ place, scalarArgument us place = scalarArgument vs place
  | .members, us, vs => allFilled us = allFilled vs

theorem Use.same_of_each {use : Use} {like : Value → Value → Prop} {us vs : List Value}
    (each : List.Forall₂ like us vs) (scalar : use = .single → ∀ u v, like u v → u.scalar = v.scalar)
    (filled : ∀ u v, like u v → u.filled = v.filled) : use.Same us vs := by
  cases use with
  | single =>
    intro place
    unfold scalarArgument
    induction each generalizing place with
    | nil => rfl
    | cons first _ ih =>
      cases place with
      | zero => exact scalar rfl _ _ first
      | succ place => simpa using ih place
  | members =>
    show allFilled us = allFilled vs
    induction each with
    | nil => rfl
    | cons first _ ih =>
      simp only [allFilled, List.flatMap_cons] at ih ⊢
      rw [filled _ _ first, ih]

/-- The function is eager, and cannot tell arguments from each other that are the same for its use. -/
def Implementation.Exact : Implementation → Handling → Prop
  | .eager apply, .eager use => ∀ us vs, use.Same us vs → apply us = apply vs
  | _, _ => False

theorem Implementation.Exact.respects {implementation : Implementation} {handling : Handling}
    (exact : implementation.Exact handling) : implementation.Respects handling := by
  cases implementation with
  | eager apply =>
    cases handling with
    | eager use =>
      intro us vs alike
      exact exact us vs (Use.same_of_each alike (fun isSingle u v alike => (isSingle ▸ alike).scalar)
        fun u v => Use.Alike.filled)
    | lazy argument => exact exact.elim
  | lazy demand => exact exact.elim

namespace Function

variable {us vs : List Value}

theorem exact_aggregates (function : Function) (member : function ∈ aggregates) :
    function.implementation.Exact function.handling := by
  simp only [aggregates, List.mem_cons, List.not_mem_nil, or_false] at member
  rcases member with rfl | rfl | rfl | rfl | rfl | rfl | rfl | rfl <;> intro us vs same
  · simp only [sum, numbers_congr same]
  · simp only [average, numbers_congr same]
  · simp only [count, numbers_congr same]
  · exact countFilled_congr same
  · simp only [minimum, numbers_congr same]
  · simp only [maximum, numbers_congr same]
  · simp only [absolute, numberArgument, show scalarArgument us 0 = scalarArgument vs 0 from same 0]
  · simp only [round, numberArgument, show scalarArgument us 0 = scalarArgument vs 0 from same 0,
      show scalarArgument us 1 = scalarArgument vs 1 from same 1]

/-- Of the functions of truth values, two are lazy. -/
theorem forall_choices {P : Function → Prop} (condition : P ⟨"IF", 2, some 3, .lazy choose⟩)
    (fallback : P ⟨"IFERROR", 2, some 2, .lazy rescue⟩) (eager : ∀ function ∈ choices.drop 2, P function) :
    ∀ function ∈ choices, P function :=
  List.forall_mem_cons.2 ⟨condition, List.forall_mem_cons.2 ⟨fallback, eager⟩⟩

/-- The functions of truth values that are eager. -/
theorem exact_connectives (function : Function) (member : function ∈ choices.drop 2) :
    function.implementation.Exact function.handling := by
  simp only [choices, List.drop_succ_cons, List.drop_zero, List.mem_cons, List.not_mem_nil, or_false] at member
  rcases member with rfl | rfl | rfl <;> intro us vs same
  · simp only [conjunction, truths_congr same]
  · simp only [disjunction, truths_congr same]
  · simp only [negation, show scalarArgument us 0 = scalarArgument vs 0 from same 0]

theorem onText_congr (make : String → Value) (same : Use.single.Same us vs) : onText make us = onText make vs := by
  simp only [onText, show scalarArgument us 0 = scalarArgument vs 0 from same 0]

theorem exact_wordings (function : Function) (member : function ∈ wordings) :
    function.implementation.Exact function.handling := by
  simp only [wordings, List.mem_cons, List.not_mem_nil, or_false] at member
  rcases member with rfl | rfl | rfl | rfl | rfl <;> intro us vs same
  · exact join_congr same
  all_goals exact onText_congr _ same

/-! ## Lazy functions -/

variable {argument : Nat → Use} {use : Use}

theorem alike_answerWith {place : Nat} (hands : argument place = use) :
    (answerWith place).Alike argument use (answerWith place) :=
  .ask fun _ _ alike => .answer (.value (hands ▸ alike))

theorem alike_choose (condition : argument 0 = .single) (hands : ∀ place, argument (place + 1) = use)
    (count : Nat) : (choose count).Alike argument use (choose count) := by
  refine .ask fun u v alike => ?_
  rw [condition] at alike
  simp only [alike.scalar]
  split
  · exact .answer (.value .same)
  · split
    · exact .answer .fault
    · exact alike_answerWith (hands 0)
    · split
      · exact alike_answerWith (hands 1)
      · exact .answer (.value .same)

theorem alike_rescue (hands : ∀ place, argument place = use) (count : Nat) :
    (rescue count).Alike argument use (rescue count) := by
  refine .ask fun u v alike => ?_
  simp only [alike.firstError?]
  split
  · exact alike_answerWith (hands 1)
  · exact .answer (.value (hands 0 ▸ alike))

theorem respects_choices : ∀ function ∈ choices, function.implementation.Respects function.handling := by
  refine forall_choices ?condition ?fallback ?eager
  case condition => exact fun use count => alike_choose rfl (fun _ => rfl) count
  case fallback => exact fun use count => alike_rescue (fun _ => rfl) count
  case eager => exact fun function isEager => (exact_connectives function isEager).respects

end Function

namespace Library

/-- No function of the library tells arguments from each other that are alike. -/
def Respects (library : Library) : Prop :=
  ∀ name function, library.find? name = some function →
    function.implementation.Respects function.handling

theorem builtin_respects : builtin.Respects :=
  forall_builtin (fun function member => (Function.exact_aggregates function member).respects)
    Function.respects_choices fun function member => (Function.exact_wordings function member).respects

end Library
end PageCalc

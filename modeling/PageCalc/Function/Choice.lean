import PageCalc.Function.Basic

/-!
# Functions of truth values

The lazy functions choose which of their arguments is evaluated. The eager ones look at the truth
values and numbers among all members of their arguments, and pass over texts and blanks.
-/

namespace PageCalc.Function

open Value

/-! ## Lazy functions -/

/-- Asks for the argument at a place and answers with its value. -/
def answerWith (place : Nat) : Demand := .ask place fun v => .answer (.ok v)

/-- The second argument if the first one is true, and else the third one, or false. -/
def choose (count : Nat) : Demand :=
  .ask 0 fun condition =>
    let condition := condition.scalar
    if condition.isError then .answer (.ok condition)
    else match condition.toTruth with
      | .error fault => .answer (.error fault)
      | .ok true => answerWith 1
      | .ok false => if 2 < count then answerWith 2 else .answer (.ok (boolean false))

/-- The first argument, or the second one if there is an error in the first. -/
def rescue (_count : Nat) : Demand :=
  .ask 0 fun v => if v.firstError?.isSome then answerWith 1 else .answer (.ok v)

/-! ## Eager functions -/

/-- The truth values among the members of the arguments; a number counts as true unless it is
zero. -/
def truths (arguments : List Value) : List Bool :=
  (allMembers arguments).filterMap fun
    | boolean b => some b
    | number x => some (x != 0)
    | _ => none

/-- The answer of a function that needs a truth value and has none. -/
def noTruths (name : String) : FormulaError :=
  .argument s!"{name} has no logical values to test"

def conjunction (arguments : List Value) : Outcome :=
  let bs := truths arguments
  if bs.isEmpty then .error (noTruths "AND") else .ok (boolean (bs.all id))

def disjunction (arguments : List Value) : Outcome :=
  let bs := truths arguments
  if bs.isEmpty then .error (noTruths "OR") else .ok (boolean (bs.any id))

def negation (arguments : List Value) : Outcome :=
  let v := scalarArgument arguments 0
  if v.isError then .ok v else do return boolean !(← v.toTruth)

def choices : List Function := [
  ⟨"IF", 2, some 3, .lazy choose⟩,
  ⟨"IFERROR", 2, some 2, .lazy rescue⟩,
  ⟨"AND", 1, none, .eager conjunction⟩,
  ⟨"OR", 1, none, .eager disjunction⟩,
  ⟨"NOT", 1, some 1, .eager negation⟩]

end PageCalc.Function

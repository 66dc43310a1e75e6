import PageCalc.Value.Basic

/-!
# Functions

A function has a name, bounds on the number of its arguments, and an implementation. An eager
one gets the values of all its arguments; a lazy one asks for those that it wants.
-/

namespace PageCalc

abbrev Outcome := Except FormulaError Value

/-- How a lazy function goes on: it answers, or it asks for the argument at a place and goes on
with its value. It chooses among its arguments and nothing else: it does not see how an argument
is written, and it has no other expression evaluated, not even one that is made of its arguments. -/
inductive Demand where
  | answer (outcome : Outcome)
  | ask (place : Nat) (next : Value → Demand)

/-- Runs a lazy function on its arguments, of which only those asked for are evaluated. -/
def Demand.run {m : Type → Type} [Monad m] (arguments : List (m Value)) : Demand → m Outcome
  | answer outcome => pure outcome
  | ask place next => do
    let value ← (arguments[place]?).getD (pure .blank)
    (next value).run arguments

/-- How a function is carried out. -/
inductive Implementation where
  /-- On the values of its arguments, of which none is an error. -/
  | eager (apply : List Value → Outcome)
  /-- By asking for arguments, whose number it is told. -/
  | lazy (demand : (count : Nat) → Demand)

/-- A function of formulas. -/
structure Function where
  name : String
  least : Nat
  /-- The greatest number of arguments, if there is one. -/
  most? : Option Nat
  implementation : Implementation

namespace Function

/-- The number of arguments that the function wants instead of `actual` ones, in words; nothing
if it takes that many. -/
def expectedInstead? (function : Function) (actual : Nat) : Option String :=
  match function.most? with
  | some most =>
    if most = function.least ∧ actual ≠ most then some s!"{most}"
    else if most < actual then some s!"at most {most}"
    else if actual < function.least then some s!"at least {function.least}"
    else none
  | none => if actual < function.least then some s!"at least {function.least}" else none

def checkCount (function : Function) (actual : Nat) : Except FormulaError Unit :=
  match function.expectedInstead? actual with
  | none => .ok ()
  | some expected => .error (.argumentCount function.name expected actual)

/-- Whether the function chooses which arguments it evaluates. -/
def isLazy (function : Function) : Bool :=
  match function.implementation with
  | .eager _ => false
  | .lazy _ => true

end Function

/-! ## Arguments -/

/-- The single value of the argument at a place; a missing argument is blank. -/
def scalarArgument (arguments : List Value) (place : Nat) : Value :=
  ((arguments[place]?).getD .blank).scalar

def numberArgument (arguments : List Value) (place : Nat) : Except FormulaError Float :=
  (scalarArgument arguments place).toNumber

/-- The values in all arguments, those in ranges included. -/
def allMembers (arguments : List Value) : List Value := arguments.flatMap Value.members

end PageCalc

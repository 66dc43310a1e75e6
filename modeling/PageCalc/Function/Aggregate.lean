import PageCalc.Function.Basic

/-!
# Functions of numbers

Sums, averages and the like look at all members of their arguments, so that a range and its
cells one by one are the same to them. Only numbers count: texts, truth values and blanks are
passed over.
-/

namespace PageCalc.Function

open Value

/-- The numbers among the members of the arguments. -/
def numbers (arguments : List Value) : List Float :=
  (allMembers arguments).filterMap fun
    | number x => some x
    | _ => none

def total (xs : List Float) : Float := xs.foldl (· + ·) 0

def sum (arguments : List Value) : Outcome := .ok (number (total (numbers arguments)))

/-- The mean of the numbers; without any it is a division by zero. -/
def average (arguments : List Value) : Outcome :=
  let xs := numbers arguments
  .ok (if xs.isEmpty then error .division else number (total xs / Float.ofNat xs.length))

def count (arguments : List Value) : Outcome :=
  .ok (number (Float.ofNat (numbers arguments).length))

def isBlank : Value → Bool
  | blank => true
  | _ => false

def countFilled (arguments : List Value) : Outcome :=
  let filled := (allMembers arguments).filter fun v => !isBlank v
  .ok (number (Float.ofNat filled.length))

/-- The lesser of two numbers; what is not a number gives way. -/
def lesser (x y : Float) : Float :=
  if x.isNaN then y else if y < x then y else x

/-- The greater of two numbers; what is not a number gives way. -/
def greater (x y : Float) : Float :=
  if x.isNaN then y else if x < y then y else x

/-- Joins the numbers from the left by an operation; without any the result is zero. -/
def reduce (operation : Float → Float → Float) : List Float → Float
  | [] => 0
  | x :: xs => xs.foldl operation x

def minimum (arguments : List Value) : Outcome :=
  .ok (number (reduce lesser (numbers arguments)))

def maximum (arguments : List Value) : Outcome :=
  .ok (number (reduce greater (numbers arguments)))

def absolute (arguments : List Value) : Outcome := do
  return number (← numberArgument arguments 0).abs

/-! ## Rounding -/

/-- The greatest number of places that rounding looks at. -/
def mostPlaces : Int := 2147483647

/-- A number of places: the whole part of a number, within bounds. -/
def places (x : Float) : Int :=
  match Number.reading x with
  | .nan => 0
  | .infinite negative => if negative then -mostPlaces - 1 else mostPlaces
  | .finite d => max (-mostPlaces - 1) (min mostPlaces d.truncate)

/-- Rounds to decimal places, a half away from zero; negative places are those before the
point. -/
def roundTo (x : Float) (places : Int) : Float :=
  let scale := Number.pow 10 places
  if x ≥ 0 then Number.floor (x * scale + 0.5) / scale
  else Number.ceil (x * scale - 0.5) / scale

/-- Rounds a number to places, none if they are not given. -/
def round (arguments : List Value) : Outcome := do
  let x ← numberArgument arguments 0
  let digits ← numberArgument arguments 1
  return number (roundTo x (places digits))

def aggregates : List Function := [
  ⟨"SUM", 1, none, .eager sum⟩,
  ⟨"AVERAGE", 1, none, .eager average⟩,
  ⟨"COUNT", 1, none, .eager count⟩,
  ⟨"COUNTA", 1, none, .eager countFilled⟩,
  ⟨"MIN", 1, none, .eager minimum⟩,
  ⟨"MAX", 1, none, .eager maximum⟩,
  ⟨"ABS", 1, some 1, .eager absolute⟩,
  ⟨"ROUND", 1, some 2, .eager round⟩]

end PageCalc.Function

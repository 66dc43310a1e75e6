import PageCalc.Number.Decimal

/-!
# Shortest decimal texts

The text of a number: the fewest digits that read back as the number, written without an
exponent. Among texts with equally many digits the nearest to the number is taken, and of two
equally near ones the greater.
-/

namespace PageCalc.Number

/-- `digits · 10 ^ exponent` in positional notation. -/
def positional (digits : List Char) (exponent : Int) : List Char :=
  if 0 ≤ exponent then digits ++ List.replicate exponent.toNat '0'
  else
    let places := (-exponent).toNat
    if places < digits.length then
      digits.take (digits.length - places) ++ '.' :: digits.drop (digits.length - places)
    else '0' :: '.' :: (List.replicate (places - digits.length) '0' ++ digits)

/-- The digits without the zeros at their end, and how many those are. -/
def dropTrailingZeros (digits : List Char) : List Char × Nat :=
  let kept := (digits.reverse.dropWhile (· = '0')).reverse
  (kept, digits.length - kept.length)

/-- `coefficient · 10 ^ exponent` in positional notation, without needless zeros. -/
def decimalText (coefficient : Nat) (exponent : Int) : List Char :=
  let (digits, zeros) := dropTrailingZeros (Nat.toDigits 10 coefficient)
  positional digits (exponent + zeros)

/-- The exponent of ten of the first digit of a positive quotient. -/
def leadingPlace (numerator denominator : Nat) : Int :=
  if denominator ≤ numerator then
    ((Nat.toDigits 10 (numerator / denominator)).length : Int) - 1
  else
    let places := (Nat.toDigits 10 (denominator / numerator)).length
    if denominator ≤ numerator * Nat.pow 10 (places - 1) then 1 - (places : Int)
    else -(places : Int)

/-- The multiples of `10 ^ exponent` next to a quotient, the nearer one first. -/
def neighbours (numerator denominator : Nat) (exponent : Int) : List Nat :=
  let scaled := numerator * Nat.pow 10 (-exponent).toNat
  let unit := denominator * Nat.pow 10 exponent.toNat
  let below := scaled / unit
  let rest := scaled % unit
  if rest = 0 then [below]
  else if 2 * rest < unit then [below, below + 1]
  else [below + 1, below]

/-- Seventeen digits always suffice to tell a double from its neighbours. -/
def mostDigits : Nat := 17

/-- All the digits of the value `significand · 2 ^ exponent`. -/
def exactText (significand : Nat) (exponent : Int) : List Char :=
  if 0 ≤ exponent then decimalText (significand * Nat.pow 2 exponent.toNat) 0
  else decimalText (significand * Nat.pow 5 (-exponent).toNat) exponent

/-- The nearest text of a grid that reads back as `x`, if one does; the value of `x` is the
quotient. -/
def textOnGrid? (x : Float) (numerator denominator : Nat) (exponent : Int) :
    Option (List Char) :=
  ((neighbours numerator denominator exponent).map (decimalText · exponent)).find? fun text =>
    ofDecimalText? text = some x

/-- The text of the positive number `x`, whose value is `significand · 2 ^ exponent`: the one on
the coarsest grid that has one. -/
def shortestText (x : Float) (significand : Nat) (exponent : Int) : List Char :=
  let numerator := significand * Nat.pow 2 exponent.toNat
  let denominator := Nat.pow 2 (-exponent).toNat
  let place := leadingPlace numerator denominator
  ((List.range mostDigits).findSome? fun (count : Nat) =>
    textOnGrid? x numerator denominator (place - count)).getD (exactText significand exponent)

/-- Whole numbers below this bound are written out by their digits. -/
def wholeBound : Nat := Nat.pow 10 15

/-- The text of a number. Zero has no sign; a number that is not finite has a name. -/
def text (x : Float) : String :=
  match reading x with
  | .nan => "NaN"
  | .infinite negative => if negative then "-inf" else "inf"
  | .finite d =>
    if d.significand = 0 then "0"
    else
      let magnitude := Dyadic.floor { d with negative := false }
      let digits :=
        if d.isWhole && magnitude.toNat < wholeBound then Nat.toDigits 10 magnitude.toNat
        else shortestText (ofMagnitudeBits false (magnitudeBits x)) d.significand d.exponent
      String.ofList (if d.negative then '-' :: digits else digits)

end PageCalc.Number

/-!
# Numbers in binary

A number of a sheet is a double. This module takes a double apart into a sign, a significand and
an exponent of two, puts the double nearest to a quotient together, and orders doubles.
-/

namespace PageCalc.Number

/-- The rational number `± significand · 2 ^ exponent`. -/
structure Dyadic where
  negative : Bool
  significand : Nat
  exponent : Int
deriving DecidableEq

/-- What a double stands for. -/
inductive Reading where
  | finite (value : Dyadic)
  | infinite (negative : Bool)
  | nan
deriving DecidableEq

/-! ## The fields of a double -/

/-- The weight of the lowest exponent bit in the bits of a double. -/
def fractionSpan : Nat := Nat.pow 2 52

/-- The weight of the sign in the bits of a double. -/
def signSpan : Nat := Nat.pow 2 63

/-- The bits of positive infinity, which are above those of every finite magnitude. -/
def infinityBits : Nat := 2047 * fractionSpan

def leastExponent : Int := -1074

def isNegative (x : Float) : Bool := signSpan ≤ x.toBits.toNat

def magnitudeBits (x : Float) : Nat := x.toBits.toNat % signSpan

/-- The significand and the exponent that the bits of a finite magnitude hold. Below `2 ^ 52`
the leading bit is not implied. -/
def magnitudeParts (bits : Nat) : Nat × Int :=
  let field := bits / fractionSpan
  let fraction := bits % fractionSpan
  if field = 0 then (fraction, leastExponent)
  else (fractionSpan + fraction, leastExponent + (field - 1))

def reading (x : Float) : Reading :=
  let bits := magnitudeBits x
  if infinityBits < bits then .nan
  else if bits = infinityBits then .infinite (isNegative x)
  else
    let (significand, exponent) := magnitudeParts bits
    .finite ⟨isNegative x, significand, exponent⟩

/-- The double with the given sign and magnitude bits. -/
def ofMagnitudeBits (negative : Bool) (bits : Nat) : Float :=
  Float.ofBits (UInt64.ofNat (if negative then signSpan + bits else bits))

/-! ## The nearest double -/

/-- The quotient of two natural numbers, rounded to the nearest; a half goes to the even one. -/
def roundQuotient (numerator denominator : Nat) : Nat :=
  let quotient := numerator / denominator
  let rest := numerator % denominator
  if 2 * rest < denominator then quotient
  else if denominator < 2 * rest then quotient + 1
  else quotient + quotient % 2

/-- The exponent of two of the leading bit of a positive quotient. -/
def leadingExponent (numerator denominator : Nat) : Int :=
  let estimate : Int := numerator.log2 - denominator.log2
  if 0 ≤ estimate then
    if denominator * Nat.pow 2 estimate.toNat ≤ numerator then estimate else estimate - 1
  else
    if denominator ≤ numerator * Nat.pow 2 (-estimate).toNat then estimate else estimate - 1

/-- The bits of the magnitude nearest to a quotient. With the exponent `e` of the last place,
the bits are `(e + 1074) · 2 ^ 52` and the rounded multiple of `2 ^ e`: the leading bit of the
multiple, and a carry out of rounding, both count in the exponent field. What exceeds every
finite magnitude is infinite. -/
def nearestBits (numerator denominator : Nat) : Nat :=
  if numerator = 0 then 0
  else
    let exponent := max leastExponent (leadingExponent numerator denominator - 52)
    let multiple := roundQuotient (numerator * Nat.pow 2 (-exponent).toNat)
      (denominator * Nat.pow 2 exponent.toNat)
    min infinityBits ((exponent - leastExponent).toNat * fractionSpan + multiple)

/-- The double nearest to `± numerator / denominator`. -/
def nearest (negative : Bool) (numerator denominator : Nat) : Float :=
  ofMagnitudeBits negative (nearestBits numerator denominator)

/-! ## Order -/

/-- The place of a number among the doubles in increasing order. Both zeros have place 0, and
what is not a number has none. -/
def rank? (x : Float) : Option Int :=
  match reading x with
  | .nan => none
  | _ => some (if isNegative x then -(magnitudeBits x : Int) else magnitudeBits x)

/-- The order of two numbers; what is not a number counts as equal to everything. -/
def order (x y : Float) : Ordering :=
  match rank? x, rank? y with
  | some i, some j => compare i j
  | _, _ => .eq

/-! ## Whole parts -/

/-- The greatest integer that is at most the value. -/
def Dyadic.floor (d : Dyadic) : Int :=
  let significand : Int := if d.negative then -(d.significand : Int) else d.significand
  if 0 ≤ d.exponent then significand * Nat.pow 2 d.exponent.toNat
  else Int.fdiv significand (Nat.pow 2 (-d.exponent).toNat)

def Dyadic.truncate (d : Dyadic) : Int :=
  if d.negative then -(Dyadic.floor { d with negative := false }) else d.floor

def Dyadic.isWhole (d : Dyadic) : Bool :=
  0 ≤ d.exponent || d.significand % Nat.pow 2 (-d.exponent).toNat == 0

/-- The greatest whole number that is at most `x`; what is not finite is left alone. -/
def floor (x : Float) : Float :=
  match reading x with
  | .finite d => if d.isWhole then x else Float.ofInt d.floor
  | _ => x

def ceil (x : Float) : Float := -(floor (-x))

/-- The base raised to a natural power by repeated squaring, the lowest bit of the power first. -/
def powNat (square result : Float) (power : Nat) : Float :=
  if power = 0 then result
  else
    let result := if power % 2 = 1 then result * square else result
    if power / 2 = 0 then result else powNat (square * square) result (power / 2)
termination_by power
decreasing_by omega

/-- The base raised to an integer power; a negative power is the inverse of the positive one. -/
def pow (base : Float) (power : Int) : Float :=
  let result := powNat base 1 power.natAbs
  if power < 0 then 1 / result else result

end PageCalc.Number

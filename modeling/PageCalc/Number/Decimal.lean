import PageCalc.Number.Binary
import PageCalc.Text.Blank

/-!
# Decimal notation

The notation in which numbers are read: an optional sign, digits with at most one point among
them, and an optional exponent of ten. A decimal is read exactly and then rounded once.
-/

namespace PageCalc.Number

/-- The rational number `± coefficient · 10 ^ exponent`. -/
structure Decimal where
  negative : Bool
  coefficient : Nat
  exponent : Int
deriving DecidableEq

namespace Decimal

def digitsValue (digits : List Char) : Nat := Nat.ofDigitChars 10 digits 0

def splitSign : List Char → Bool × List Char
  | '-' :: rest => (true, rest)
  | '+' :: rest => (false, rest)
  | cs => (false, cs)

def splitDigits (cs : List Char) : List Char × List Char :=
  (cs.takeWhile Char.isDigit, cs.dropWhile Char.isDigit)

/-- The digits after a point, if one comes first, and what follows them. -/
def splitFraction : List Char → List Char × List Char
  | '.' :: rest => splitDigits rest
  | cs => ([], cs)

/-- The exponent that a text consists of; the empty text is the exponent 0. -/
def exponentOf? : List Char → Option Int
  | [] => some 0
  | mark :: rest =>
    if mark = 'e' ∨ mark = 'E' then
      let (negative, digits) := splitSign rest
      if digits.isEmpty || !digits.all Char.isDigit then none
      else some (if negative then -(digitsValue digits : Int) else digitsValue digits)
    else none

/-- Reads a decimal. It has a digit before or after its point, and nothing around it. -/
def ofChars? (cs : List Char) : Option Decimal :=
  let (negative, body) := splitSign cs
  let (whole, rest) := splitDigits body
  let (fraction, rest) := splitFraction rest
  if whole.isEmpty && fraction.isEmpty then none
  else (exponentOf? rest).map fun exponent =>
    ⟨negative, digitsValue (whole ++ fraction), exponent - fraction.length⟩

/-- The double nearest to a decimal. Beyond `10 ^ 400` and below its inverse the powers of ten
are not computed: the result is infinite or zero. -/
def toFloat (d : Decimal) : Float :=
  if d.coefficient = 0 then ofMagnitudeBits d.negative 0
  else if 400 < d.exponent then ofMagnitudeBits d.negative infinityBits
  else if d.exponent + d.coefficient.log2 + 1 < -400 then ofMagnitudeBits d.negative 0
  else
    nearest d.negative (d.coefficient * Nat.pow 10 d.exponent.toNat)
      (Nat.pow 10 (-d.exponent).toNat)

end Decimal

/-- The number that a text in decimal notation stands for. -/
def ofDecimalText? (cs : List Char) : Option Float :=
  (Decimal.ofChars? cs).map Decimal.toFloat

/-- The finite number that an input stands for, blanks around it aside. Names of numbers that
are not written in digits do not count. -/
def ofLiteral? (text : String) : Option Float :=
  let body := Text.trim text.toList
  if body.any Char.isDigit && body.all (fun c => !c.isAlpha || c = 'e' || c = 'E') then
    (ofDecimalText? body).filter Float.isFinite
  else none

end PageCalc.Number

import PageCalc.Grid.Error
import PageCalc.Number.Decimal
import PageCalc.Text.Case
import Std.Data.ExtTreeMap
import Std.Data.ExtTreeSet

/-!
# Addresses

A cell is named by column letters and a row number, as in B12. Letters are read in bijective
base 26, from A to XFD, and rows count from 1. Addresses are ordered by rows, then by columns.
-/

namespace PageCalc

def maxRows : Nat := 1048576

def maxColumns : Nat := 16384

/-- A place in a grid; rows and columns count from 0. -/
structure Address where
  row : Nat
  column : Nat
deriving DecidableEq

namespace Address

/-! ## Order -/

/-- Row by row, and from left to right in a row. -/
instance : Ord Address where
  compare := compareLex (compareOn row) (compareOn column)

instance : Std.TransOrd Address :=
  inferInstanceAs (Std.TransCmp (compareLex (compareOn row) (compareOn column)))

instance : Std.LawfulEqOrd Address where
  eq_of_compare {a b} h := by
    have h : (compare a.row b.row).then (compare a.column b.column) = .eq := h
    rw [Ordering.then_eq_eq] at h
    cases a; cases b
    simpa using h

/-- Whether the address lies in the largest possible grid. -/
def InBounds (a : Address) : Prop := a.row < maxRows ∧ a.column < maxColumns

instance (a : Address) : Decidable a.InBounds := inferInstanceAs (Decidable (_ ∧ _))

/-! ## Column letters -/

/-- The letter with the given place in the alphabet. -/
def letter (place : Nat) : Char := Char.ofNat ('A'.toNat + place)

/-- The place of a letter in the alphabet, counted from 1; case does not matter. -/
def letterValue (c : Char) : Nat := c.toUpper.toNat - 'A'.toNat + 1

def columnChars (column : Nat) : List Char :=
  if column < 26 then [letter column]
  else columnChars (column / 26 - 1) ++ [letter (column % 26)]
termination_by column
decreasing_by omega

def columnLetters (column : Nat) : String := String.ofList (columnChars column)

/-- Reads letters on top of the value `sum` of those before them; `letters` is the whole text.
The value counts columns from 1, and reading stops at the first one out of bounds. -/
def readLetters (letters : String) (sum : Nat) : List Char → Except GridError Nat
  | [] => .ok sum
  | c :: rest =>
    if !c.isAlpha then .error (.invalidAddress s!"invalid column letter '{c}'")
    else
      let sum := sum * 26 + letterValue c
      if maxColumns < sum then .error (.columnOutOfBounds (Text.upperAscii letters))
      else readLetters letters sum rest

def columnOfLetters (letters : String) : Except GridError Nat :=
  if letters.isEmpty then .error (.invalidAddress "empty column letters")
  else (readLetters letters 0 letters.toList).map (· - 1)

/-! ## Address texts -/

def chars (a : Address) : List Char := columnChars a.column ++ Nat.toDigits 10 (a.row + 1)

def text (a : Address) : String := String.ofList a.chars

instance : ToString Address := ⟨text⟩

/-- The text without a leading marker of an absolute row or column. -/
def dropMarker : List Char → List Char
  | '$' :: rest => rest
  | cs => cs

/-- Row numbers beyond this bound are refused before they are looked at. -/
def rowNumberLimit : Nat := 4294967296

/-- Reads a row number; `shown` is the text of the whole address. -/
def readRow (shown : String) (digits : List Char) : Except GridError Nat :=
  if digits.isEmpty then .error (.invalidAddress s!"no row number in '{shown}'")
  else if !digits.all Char.isDigit then
    .error (.invalidAddress s!"invalid row number in '{shown}'")
  else
    let number := Number.Decimal.digitsValue digits
    if rowNumberLimit ≤ number then
      .error (.invalidAddress s!"invalid row number in '{shown}'")
    else if number = 0 then
      .error (.invalidAddress s!"row number must be >= 1 in '{shown}'")
    else if maxRows < number then .error (.rowOutOfBounds (number - 1) (maxRows - 1))
    else .ok (number - 1)

/-- Reads an address. Blanks around it and markers of absolute rows and columns do not matter,
nor does the case of its letters. -/
def ofText (text : String) : Except GridError Address :=
  let body := Text.trim text.toList
  let shown := String.ofList body
  let unmarked := dropMarker body
  let letters := unmarked.takeWhile Char.isAlpha
  let rest := dropMarker (unmarked.dropWhile Char.isAlpha)
  if body.isEmpty then .error (.invalidAddress "empty address")
  else if letters.isEmpty then .error (.invalidAddress s!"no column letters in '{shown}'")
  else do
    let column ← columnOfLetters (String.ofList letters)
    let row ← readRow shown rest
    return ⟨row, column⟩

end Address

/-- A set of addresses, walked row by row. -/
abbrev AddressSet := Std.ExtTreeSet Address

/-- A map whose keys are addresses, walked row by row. -/
abbrev AddressMap (β : Type) := Std.ExtTreeMap Address β

end PageCalc

import PageCalc.Formula.Error
import PageCalc.Number.Shortest
import PageCalc.Text.Case

/-!
# Values

What expressions evaluate to, and how a value serves as a number, a truth value or a text where
one of these is wanted.
-/

namespace PageCalc

/-- What an expression evaluates to. -/
inductive Value where
  | number (value : Float)
  | text (value : String)
  | boolean (value : Bool)
  | error (error : CellError)
  /-- The contents of a range, row by row. -/
  | list (items : List Value)
  /-- The content of a blank cell. -/
  | blank

instance : Inhabited Value := ⟨.blank⟩

/-- What a cell shows: a value that is neither blank nor many. -/
inductive CellValue where
  | number (value : Float)
  | text (value : String)
  | boolean (value : Bool)
  | error (error : CellError)
deriving DecidableEq

def truthWord (b : Bool) : String := if b then "TRUE" else "FALSE"

namespace CellValue

def display : CellValue → String
  | number x => Number.text x
  | text s => s
  | boolean b => truthWord b
  | error e => e.token

def error? : CellValue → Option CellError
  | error e => some e
  | _ => none

def number? : CellValue → Option Float
  | number x => some x
  | _ => none

end CellValue

namespace Value

/-! ## Lists -/

/-- The values in a list, those in its lists included; a value that is no list is its own only
member. -/
def members : Value → List Value
  | list items => items.flatMap members
  | v => [v]

/-- The single value that a value stands for. An empty list is blank, a list of one value is
that value, and a longer list stands for none. -/
def scalar : Value → Value
  | list [] => blank
  | list [v] => v.scalar
  | list (_ :: _ :: _) => error .severalValues
  | v => v

/-! ## Errors -/

def error? : Value → Option CellError
  | error e => some e
  | _ => none

def isError (v : Value) : Bool := v.error?.isSome

def firstError? (v : Value) : Option CellError := v.members.findSome? error?

/-- The value as a cell sees it that reads it: errors are propagated ones. -/
def propagated : Value → Value
  | error e => error e.propagated
  | v => v

/-! ## Coercions -/

/-- The value as a number. A text counts if it is the literal of a number, and a blank is
zero. -/
def number? : Value → Option Float
  | number x => some x
  | boolean b => some (if b then 1 else 0)
  | text s => Number.ofLiteral? s
  | blank => some 0
  | error _ | list _ => none

/-- The value as a number, or the reason why it is none. -/
def toNumber (v : Value) : Except FormulaError Float :=
  match v.number? with
  | some x => .ok x
  | none =>
    .error (.argument (match v with
      | text s => s!"Cannot convert \"{s}\" to a number"
      | error e => e.message
      | _ => CellError.severalValues.message))

def toText : Value → String
  | number x => Number.text x
  | text s => s
  | boolean b => truthWord b
  | error e => e.token
  | blank => ""
  | list _ => ErrorKind.value.token

/-- The value as a truth value. A number counts as true unless it is zero, and a blank as
false. -/
def truth? : Value → Option Bool
  | boolean b => some b
  | number x => some (x != 0)
  | blank => some false
  | text s =>
    if Text.upperAscii s = "TRUE" then some true
    else if Text.upperAscii s = "FALSE" then some false
    else none
  | error _ | list _ => none

/-- The value as a truth value, or the reason why it is none. -/
def toTruth (v : Value) : Except FormulaError Bool :=
  match v.truth? with
  | some b => .ok b
  | none => .error (.argument s!"Cannot use \"{v.toText}\" as a logical value")

/-- What a cell shows that has the value: a blank shows zero, and a list what it stands for. -/
def toCellValue (v : Value) : CellValue :=
  match v.scalar with
  | blank => .number 0
  | number x => .number x
  | text s => .text s
  | boolean b => .boolean b
  | error e => .error e
  | list _ => .error .severalValues

/-! ## Finite numbers -/

/-- A number that is not finite is an error. -/
def checkFinite : Value → Value
  | number x => if x.isFinite then number x else error .overflow
  | v => v

/-- The value of the cell whose formula has the value `v`. -/
def finish (v : Value) : Value :=
  match v.scalar.checkFinite with
  | blank => number 0
  | v => v

end Value
end PageCalc

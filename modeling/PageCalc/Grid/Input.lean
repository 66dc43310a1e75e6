import PageCalc.Number.Decimal

/-!
# Inputs

What a user typed into a cell is a number, a text or a formula; the empty input leaves the cell
blank.
-/

namespace PageCalc

/-- How an input is understood. -/
inductive Input where
  | blank
  | number (value : Float)
  | text (value : String)
  | formula (source : String)
deriving DecidableEq

def isFormulaText (raw : String) : Bool := raw.toList.head? == some '='

namespace Input

def ofText (raw : String) : Input :=
  if raw.isEmpty then .blank
  else if isFormulaText raw then .formula raw
  else match Number.ofLiteral? raw with
    | some value => .number value
    | none => .text raw

def isFormula : Input → Bool
  | .formula _ => true
  | _ => false

end Input
end PageCalc

import PageCalc.Grid.Error
import PageCalc.Value.Error

/-!
# Formula errors

Why a formula cannot be parsed, or a function not be applied. In a cell such a fault becomes an
error value.
-/

namespace PageCalc

/-- The faults of formulas. -/
inductive FormulaError where
  | parse (detail : String)
  /-- A function or an operator got an argument that it cannot use. -/
  | argument (detail : String)
  | unknownFunction (name : String)
  /-- The function takes another number of arguments. -/
  | argumentCount (function expected : String) (actual : Nat)
  | invalidReference (detail : String)
deriving DecidableEq

namespace FormulaError

def message : FormulaError → String
  | parse detail => s!"Parse error: {detail}"
  | argument detail => s!"Invalid argument: {detail}"
  | unknownFunction name => s!"Unknown function: {name}"
  | argumentCount function expected actual =>
    s!"Wrong number of arguments for {function}: expected {expected}, got {actual}"
  | invalidReference detail => s!"Invalid reference: {detail}"

def toCellError : FormulaError → CellError
  | parse detail => .fresh .parse detail
  | invalidReference detail => .fresh .parse detail
  | argument detail => .fresh .value detail
  | e@(unknownFunction _) => .fresh .name e.message
  | e@(argumentCount ..) => .fresh .name e.message

/-- The fault of a formula with a faulty address or range in it. -/
def ofGridError (fault : GridError) : FormulaError := invalidReference fault.message

/-- The fault of a formula that is nested too deeply. -/
def tooNested : FormulaError := parse "Formula nested too deeply"

end FormulaError
end PageCalc

/-!
# Grid errors

Why a text is no address or range, and why a cell cannot be set.
-/

namespace PageCalc

/-- The faults of addresses and ranges. -/
inductive GridError where
  | invalidAddress (detail : String)
  | invalidRange (detail : String)
  | rowOutOfBounds (row last : Nat)
  | columnOutOfBounds (letters : String)
  | other (detail : String)
deriving DecidableEq

def GridError.message : GridError → String
  | .invalidAddress detail => s!"Invalid cell address: {detail}"
  | .invalidRange detail => s!"Invalid cell range: {detail}"
  | .rowOutOfBounds row last => s!"Row index {row} out of bounds (max: {last})"
  | .columnOutOfBounds letters => s!"Column {letters} out of bounds (max: XFD)"
  | .other detail => detail

end PageCalc

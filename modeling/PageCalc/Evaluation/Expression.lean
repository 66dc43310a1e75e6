import PageCalc.Function.Library
import PageCalc.Value.Operation

/-!
# The values of expressions

The value of an expression, whose references are read as the caller wants: at once, as steps of an
evaluation, or only if they are known.
-/

namespace PageCalc

variable {m : Type → Type} [Monad m]

/-- Applies a function to arguments. An eager one is not applied if there is an error among
them: the first error is the result. -/
def applyFunction (function : Function) (arguments : List (m Value)) : m Value := do
  let outcome ← match function.implementation with
    | .lazy demand => (demand arguments.length).run arguments
    | .eager apply => do
      let values ← arguments.mapM id
      pure (match values.findSome? Value.firstError? with
        | some e => .ok (.error e)
        | none => apply values)
  return match outcome with
    | .ok v => v.checkFinite
    | .error fault => .error fault.toCellError

def callFunction (library : Library) (name : String) (arguments : List (m Value)) : m Value :=
  match library.find? name with
  | none => return .error (FormulaError.unknownFunction name).toCellError
  | some function =>
    match function.checkCount arguments.length with
    | .error fault => return .error fault.toCellError
    | .ok () => applyFunction function arguments

mutual

/-- The value of an expression whose references are read by `read`. -/
def evaluateExpr (library : Library) (read : Reference → m Value) : Expr → m Value
  | .number x => return .number x
  | .text s => return .text s
  | .boolean b => return .boolean b
  | .reference r => read r
  | .binary operator left right => do
    let l ← evaluateExpr library read left
    let r ← evaluateExpr library read right
    return operator.apply l r
  | .negate operand => do return (← evaluateExpr library read operand).negate
  | .call name arguments => callFunction library name (evaluators library read arguments)

/-- The evaluations of expressions, none of which is carried out yet. -/
def evaluators (library : Library) (read : Reference → m Value) : List Expr → List (m Value)
  | [] => []
  | e :: es => evaluateExpr library read e :: evaluators library read es

end

end PageCalc

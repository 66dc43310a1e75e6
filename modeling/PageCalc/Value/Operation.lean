import PageCalc.Formula.Expr
import PageCalc.Value.Basic

/-!
# Operations

What the operators of expressions do with values. Errors among the operands come first, the left
one before the right one. Comparison orders numbers before texts and texts before truth values;
a blank takes the type of what it is compared with.
-/

namespace PageCalc

namespace Value

/-! ## Comparison -/

/-- The value, and in place of a blank the empty value of the type of `other`. -/
def filledLike : (v other : Value) → Value
  | blank, text _ => text ""
  | blank, boolean _ => boolean false
  | blank, _ => number 0
  | v, _ => v

/-- The order of two values that are not blank. Texts compare without regard to case. -/
def compareFilled : Value → Value → Ordering
  | number x, number y => Number.order x y
  | text s, text t => compare (Text.lower s) (Text.lower t)
  | boolean a, boolean b => compare a b
  | number _, _ => .lt
  | _, number _ => .gt
  | text _, _ => .lt
  | _, text _ => .gt
  | _, _ => .eq

/-- The order of two values. The left one is filled first, and then the right one. -/
def order (left right : Value) : Ordering :=
  let left := left.filledLike right
  compareFilled left (right.filledLike left)

/-! ## Arithmetic -/

/-- The result of an operation on two numbers, if both operands serve as numbers. -/
def arithmetic (operation : Float → Float → Value) (left right : Value) : Value :=
  match left.toNumber, right.toNumber with
  | .ok x, .ok y => (operation x y).checkFinite
  | .error fault, _ => error fault.toCellError
  | .ok _, .error fault => error fault.toCellError

/-- The quotient of two numbers; there is none by zero. -/
def quotient (x y : Float) : Value :=
  if y == 0 then error .division else number (x / y)

def negate (v : Value) : Value :=
  match v.scalar with
  | error e => error e
  | v =>
    match v.toNumber with
    | .ok x => number (-x)
    | .error fault => error fault.toCellError

end Value

namespace Operator

open Value

/-- The operation on single values that are no errors. -/
def applyScalars (left right : Value) : Operator → Value
  | .add => arithmetic (fun x y => number (x + y)) left right
  | .subtract => arithmetic (fun x y => number (x - y)) left right
  | .multiply => arithmetic (fun x y => number (x * y)) left right
  | .divide => arithmetic quotient left right
  | .equal => boolean (left.order right = .eq)
  | .notEqual => boolean (left.order right ≠ .eq)
  | .less => boolean (left.order right = .lt)
  | .lessEqual => boolean (left.order right ≠ .gt)
  | .greater => boolean (left.order right = .gt)
  | .greaterEqual => boolean (left.order right ≠ .lt)
  | .concat => text (left.toText ++ right.toText)

def apply (operator : Operator) (left right : Value) : Value :=
  match left.scalar, right.scalar with
  | error e, _ => error e
  | _, error e => error e
  | left, right => operator.applyScalars left right

end Operator
end PageCalc

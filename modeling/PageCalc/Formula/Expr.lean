import PageCalc.Formula.Reference

/-!
# Expressions

The tree of a formula: literals, references, operators and calls.
-/

namespace PageCalc

/-- The operators between two operands. -/
inductive Operator where
  | add
  | subtract
  | multiply
  | divide
  | equal
  | notEqual
  | less
  | lessEqual
  | greater
  | greaterEqual
  | concat
deriving DecidableEq

namespace Operator

def all : List Operator :=
  [add, subtract, multiply, divide, equal, notEqual, less, lessEqual, greater, greaterEqual,
    concat]

def symbol : Operator → String
  | add => "+"
  | subtract => "-"
  | multiply => "*"
  | divide => "/"
  | equal => "="
  | notEqual => "<>"
  | less => "<"
  | lessEqual => "<="
  | greater => ">"
  | greaterEqual => ">="
  | concat => "&"

/-- How strongly the operator binds: comparisons bind least, then concatenation, sums and
products. -/
def precedence : Operator → Nat
  | equal | notEqual | less | lessEqual | greater | greaterEqual => 1
  | concat => 2
  | add | subtract => 3
  | multiply | divide => 4

end Operator

/-- A minus before an operand binds more strongly than any operator between two. -/
def negationPrecedence : Nat := 5

/-- The tree of a formula. -/
inductive Expr where
  | number (value : Float)
  | text (value : String)
  | boolean (value : Bool)
  | reference (reference : Reference)
  | binary (operator : Operator) (left right : Expr)
  | negate (operand : Expr)
  | call (name : String) (arguments : List Expr)
deriving BEq

namespace Expr

mutual

/-- The references in the expression, from left to right. -/
def references : Expr → List Reference
  | number _ | text _ | boolean _ => []
  | reference r => [r]
  | binary _ left right => left.references ++ right.references
  | negate operand => operand.references
  | call _ arguments => referencesOf arguments

/-- The references in a list of expressions, from left to right. -/
def referencesOf : List Expr → List Reference
  | [] => []
  | e :: es => e.references ++ referencesOf es

end

mutual

/-- The greatest number of nodes from the root of the expression to a leaf. -/
def height : Expr → Nat
  | number _ | text _ | boolean _ | reference _ => 1
  | binary _ left right => max left.height right.height + 1
  | negate operand => operand.height + 1
  | call _ arguments => heightOf arguments + 1

def heightOf : List Expr → Nat
  | [] => 0
  | e :: es => max e.height (heightOf es)

end

end Expr
end PageCalc

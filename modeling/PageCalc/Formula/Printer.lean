import PageCalc.Formula.Expr
import PageCalc.Number.Shortest

/-!
# Printed formulas

The text of an expression, with parentheses only where the precedence of the operators needs
them. Operators of equal precedence group from the left, so the right one of two such operands
is put into parentheses.
-/

namespace PageCalc.Expr

/-- A text in quotes; a quote in it is written twice. -/
def quote (text : String) : List Char :=
  '"' :: (text.toList.flatMap fun c => if c = '"' then ['"', '"'] else [c]) ++ ['"']

/-- Puts parentheses around a text if they are needed. -/
def enclose (needed : Bool) (cs : List Char) : List Char :=
  if needed then '(' :: cs ++ [')'] else cs

mutual

/-- The text of an expression that stands where operators weaker than `level` need
parentheses. -/
def chars (level : Nat) : Expr → List Char
  | number value => (Number.text value).toList
  | text value => quote value
  | boolean value => if value then ['T', 'R', 'U', 'E'] else ['F', 'A', 'L', 'S', 'E']
  | reference r => r.text.toList
  | binary operator left right =>
    let strength := operator.precedence
    enclose (strength < level)
      (left.chars strength ++ operator.symbol.toList ++ right.chars (strength + 1))
  | negate operand =>
    enclose (negationPrecedence < level) ('-' :: operand.chars negationPrecedence)
  | call name arguments => name.toList ++ '(' :: (argumentChars arguments ++ [')'])

/-- The texts of arguments with commas between them. -/
def argumentChars : List Expr → List Char
  | [] => []
  | [e] => e.chars 0
  | e :: es => e.chars 0 ++ ',' :: argumentChars es

end

/-- The formula of an expression, with its equals sign. -/
def formula (e : Expr) : String := String.ofList ('=' :: e.chars 0)

end PageCalc.Expr

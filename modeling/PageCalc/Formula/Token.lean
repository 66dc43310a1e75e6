import PageCalc.Formula.Expr
import PageCalc.Number.Shortest

/-!
# Tokens

The words of a formula. A range and a reference to another page are one token each. The end of
a formula is the end of its list of tokens.
-/

namespace PageCalc

/-- The words of a formula. -/
inductive Token where
  | number (value : Float)
  | text (value : String)
  | boolean (value : Bool)
  /-- A name, of a function if a parenthesis follows. -/
  | name (name : String)
  | cell (address : Address)
  | range (range : Range)
  | external (external : ExternalReference)
  | operator (operator : Operator)
  | comma
  | leftParen
  | rightParen
deriving DecidableEq

namespace Token

def describe : Token → String
  | .number x => s!"number {Number.text x}"
  | .text t => s!"string \"{t}\""
  | .boolean b => if b then "boolean TRUE" else "boolean FALSE"
  | .name n => s!"name '{n}'"
  | .cell a => s!"reference {a}"
  | .range r => s!"range {r}"
  | .external e => s!"page reference {e.page.text}"
  | .operator o => s!"'{o.symbol}'"
  | .comma => "','"
  | .leftParen => "'('"
  | .rightParen => "')'"

/-- What an error message calls the first of the tokens that are left. -/
def describeFirst : List Token → String
  | [] => "end of formula"
  | token :: _ => token.describe

end Token
end PageCalc

import PageCalc.Formula.Lexer

/-!
# The expression of a formula

Builds the tree of a list of tokens by recursive descent, one precedence after the other.
Operators of equal precedence group from the left. Every parenthesis, argument, minus sign and
operator of a chain takes up room, and what does not fit into the room is refused, so that the
height of the tree is bounded; a plus sign before an operand stands for nothing and takes none.
-/

namespace PageCalc

def maxNesting : Nat := 256

namespace Expr

abbrev Parsed := Except FormulaError (Expr × List Token)

/-- Refuses tokens that do not begin with the wanted one. -/
def expect (wanted : Token) : List Token → Except FormulaError (List Token)
  | [] => .error (.parse s!"Expected {wanted.describe}, got {Token.describeFirst []}")
  | token :: rest =>
    if token = wanted then .ok rest
    else .error (.parse s!"Expected {wanted.describe}, got {token.describe}")

/-- The operator of the given precedence that the tokens begin with, and what follows it. -/
def operatorAt? (precedence : Nat) : List Token → Option (Operator × List Token)
  | .operator operator :: rest =>
    if operator.precedence = precedence then some (operator, rest) else none
  | _ => none

def dropPluses : List Token → List Token
  | .operator .add :: rest => dropPluses rest
  | tokens => tokens

mutual

/-- Parses an expression in parentheses, an argument or a whole formula. -/
def expression (room : Nat) (tokens : List Token) : Parsed :=
  match room with
  | 0 => .error .tooNested
  | room + 1 => operand 1 room tokens
termination_by (room, 0, 0)

/-- Parses operands and operators that bind at least as strongly as `level`. -/
def operand (level room : Nat) (tokens : List Token) : Parsed :=
  if level < negationPrecedence then do
    let (left, rest) ← operand (level + 1) room tokens
    chain level room left rest
  else signed room tokens
termination_by (room, 4 + (negationPrecedence - level), 0)

/-- Parses the operators of precedence `level` and their right operands after `left`. -/
def chain (level room : Nat) (left : Expr) (tokens : List Token) : Parsed :=
  match operatorAt? level tokens with
  | none => .ok (left, tokens)
  | some (operator, rest) =>
    match room with
    | 0 => .error .tooNested
    | room + 1 => do
      let (right, rest) ← operand (level + 1) room rest
      chain level room (.binary operator left right) rest
termination_by (room, 0, 0)

def signed (room : Nat) (tokens : List Token) : Parsed :=
  match dropPluses tokens with
  | .operator .subtract :: rest =>
    match room with
    | 0 => .error .tooNested
    | room + 1 => do
      let (inner, rest) ← signed room rest
      return (.negate inner, rest)
  | tokens => primary room tokens
termination_by (room, 3, 0)

def primary (room : Nat) (tokens : List Token) : Parsed :=
  match tokens with
  | .number value :: rest => .ok (.number value, rest)
  | .text value :: rest => .ok (.text value, rest)
  | .boolean value :: rest => .ok (.boolean value, rest)
  | .cell a :: rest => .ok (.reference (.cell a), rest)
  | .range r :: rest => .ok (.reference (.range r), rest)
  | .external e :: rest => .ok (.reference (.external e), rest)
  | .leftParen :: rest => do
    let (inner, rest) ← expression room rest
    let rest ← expect .rightParen rest
    return (inner, rest)
  | .name name :: .leftParen :: .rightParen :: rest => .ok (.call (Text.upper name) [], rest)
  | .name name :: .leftParen :: rest => do
    let (arguments, rest) ← arguments room rest
    let rest ← expect .rightParen rest
    return (.call (Text.upper name) arguments, rest)
  | .name name :: _ => .error (.parse s!"Unknown name '{name}'")
  | [] => .error (.parse "Unexpected end of formula")
  | token :: _ => .error (.parse s!"Unexpected {token.describe}")
termination_by (room, 2, 0)

def arguments (room : Nat) (tokens : List Token) :
    Except FormulaError (List Expr × List Token) := do
  let (first, rest) ← expression room tokens
  match rest with
  | .comma :: rest =>
    if rest.length < tokens.length then
      let (others, rest) ← arguments room rest
      return (first :: others, rest)
    else throw (.parse s!"Unexpected {Token.comma.describe}")
  | rest => return ([first], rest)
termination_by (room, 1, tokens.length)

end

def ofTokens (tokens : List Token) : Except FormulaError Expr := do
  let (e, rest) ← expression maxNesting tokens
  if rest.isEmpty then return e
  else throw (.parse s!"Unexpected {Token.describeFirst rest} after expression")

/-- Parses a formula. It begins with an equals sign. -/
def ofFormula (formula : String) : Except FormulaError Expr :=
  match formula.toList with
  | '=' :: body =>
    if (Text.trim body).isEmpty then .error (.parse "Empty formula")
    else do
      let tokens ← Token.ofText (String.ofList body)
      ofTokens tokens
  | _ => .error (.parse "Formula must start with '='")

end Expr
end PageCalc

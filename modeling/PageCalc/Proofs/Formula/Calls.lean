import Mathlib.Logic.Function.Iterate
import PageCalc.Proofs.Formula.Acceptance

/-!
# The calls of the parser

The parser step by step, with the calls that are open and one counter for all of them. Where the functions of
the parser pass on the room that is left, here the counter is raised before a call and lowered after it, by a
chain for all of its operators at once, and whoever goes on after a call has to find it as it was. The steps of
each call end with what the function gives, the counter being where it was.
-/

namespace PageCalc.Parsing

open PageCalc.Expr (Parsed expect operatorAt?)

/-! ## Calls -/

/-- The functions of the parser. -/
inductive Call where
  | expression
  /-- An operand with the operators of `level` after it. -/
  | operand (level : Nat)
  /-- An operand with its signs, called directly after a minus or not. -/
  | signed (afterMinus : Bool)
  | primary
  /-- The parentheses after the name of a function, with the arguments. -/
  | function (name : String)
deriving DecidableEq

namespace Call

/-- What the operators weaker than `level` have for operands. -/
def inner (level : Nat) : Call := if level < negationPrecedence then .operand level else .signed false

/-- The calls that can enclose each other again and again: expressions, and operands directly after a minus. -/
def nests : Call → Bool
  | .expression | .signed true => true
  | .operand _ | .signed false | .primary | .function _ => false

end Call

/-- A call that waits for another one, with all that it goes on with. -/
inductive Frame where
  | expression
  /-- A chain before its first operand. -/
  | first (level : Nat)
  /-- A chain before its next operand. The operator is the last of `count` operators, with `left` before it. -/
  | next (level count : Nat) (left : Expr) (operator : Operator)
  /-- An operand with signs after a minus of its own. -/
  | negation (afterMinus : Bool)
  /-- An operand with signs after the last of them. -/
  | sign (afterMinus : Bool)
  | parentheses
  | name (name : String)
  | argument (name : String) (earlier : List Expr)

namespace Frame

/-- The call that waits. -/
def call : Frame → Call
  | expression => .expression
  | first level | next level _ _ _ => .operand level
  | negation afterMinus | sign afterMinus => .signed afterMinus
  | parentheses | name _ => .primary
  | argument function _ => .function function

/-- The call that is waited for. -/
def awaited : Frame → Call
  | expression => .inner 1
  | first level | next level _ _ _ => .inner (level + 1)
  | negation _ => .signed true
  | sign _ => .primary
  | parentheses | argument _ _ => .expression
  | name function => .function function

/-- How much the waiting call has raised the counter. -/
def raised : Frame → Nat
  | expression | negation _ => 1
  | next _ count _ _ => count
  | first _ | sign _ | parentheses | name _ | argument _ _ => 0

end Frame

/-! ## Steps -/

/-- What is to be done next. -/
inductive Control where
  | call (call : Call)
  | returned (e : Expr)
  | failed (fault : FormulaError)
  /-- The counter would have been lowered below zero. -/
  | underflowed

/-- The calls that wait, the newest first, the counter, and the tokens that are left. -/
structure State where
  control : Control
  stack : List Frame
  depth : Nat
  tokens : List Token

namespace State

def fail (s : State) (fault : FormulaError) : State := { s with control := .failed fault }

/-- Returns from the newest call. -/
def finish (s : State) (e : Expr) (rest : List Token) : State :=
  { s with control := .returned e, tokens := rest }

def wait (s : State) (frame : Frame) (rest : List Token) : State :=
  { s with control := .call frame.awaited, stack := frame :: s.stack, tokens := rest }

/-- Raises the counter and then calls, if the counter is not too high. -/
def descend (s : State) (frame : Frame) (rest : List Token) : State :=
  let raised := { s with depth := s.depth + 1 }
  if maxNesting < raised.depth then raised.fail .tooNested else raised.wait frame rest

/-- Lowers the counter and then returns. -/
def lower (s : State) (count : Nat) (e : Expr) : State :=
  if count ≤ s.depth then { s with control := .returned e, depth := s.depth - count }
  else { s with control := .underflowed }

/-- Goes on after an operand of a chain, in front of which there were `count` operators. -/
def chain (s : State) (level count : Nat) (left : Expr) : State :=
  match operatorAt? level s.tokens with
  | none => s.lower count left
  | some (operator, rest) => s.descend (.next level (count + 1) left operator) rest

/-- Returns after the closing parenthesis that has to come. -/
def close (s : State) (e : Expr) : State :=
  match expect .rightParen s.tokens with
  | .error fault => s.fail fault
  | .ok rest => s.finish e rest

def signed (s : State) (afterMinus : Bool) : List Token → State
  | .operator .add :: rest => { s with tokens := rest }
  | .operator .subtract :: rest => s.descend (.negation afterMinus) rest
  | tokens => s.wait (.sign afterMinus) tokens

def primary (s : State) : List Token → State
  | .number value :: rest => s.finish (.number value) rest
  | .text value :: rest => s.finish (.text value) rest
  | .boolean value :: rest => s.finish (.boolean value) rest
  | .cell a :: rest => s.finish (.reference (.cell a)) rest
  | .range r :: rest => s.finish (.reference (.range r)) rest
  | .external e :: rest => s.finish (.reference (.external e)) rest
  | .leftParen :: rest => s.wait .parentheses rest
  | .name name :: .leftParen :: rest => s.wait (.name name) (.leftParen :: rest)
  | .name name :: _ => s.fail (.parse s!"Unknown name '{name}'")
  | [] => s.fail (.parse "Unexpected end of formula")
  | token :: _ => s.fail (.parse s!"Unexpected {token.describe}")

/-- Goes on after the parenthesis that opens the arguments. -/
def arguments (s : State) (name : String) : List Token → State
  | .rightParen :: rest => s.finish (.call (Text.upper name) []) rest
  | tokens => s.wait (.argument name []) tokens

/-- Goes on after an argument. -/
def further (s : State) (name : String) (read : List Expr) : List Token → State
  | .comma :: rest => s.wait (.argument name read) rest
  | _ => s.close (.call (Text.upper name) read)

/-- What a call begins with. -/
def begin (s : State) : Call → State
  | .expression => s.descend .expression s.tokens
  | .operand level => s.wait (.first level) s.tokens
  | .signed afterMinus => s.signed afterMinus s.tokens
  | .primary => s.primary s.tokens
  | .function name =>
    match expect .leftParen s.tokens with
    | .error fault => s.fail fault
    | .ok rest => s.arguments name rest

/-- What a call that waited goes on with. -/
def resume (s : State) (e : Expr) : Frame → State
  | .expression => s.lower 1 e
  | .first level => s.chain level 0 e
  | .next level count left operator => s.chain level count (.binary operator left e)
  | .negation _ => s.lower 1 (.negate e)
  | .sign _ | .name _ => s.finish e s.tokens
  | .parentheses => s.close e
  | .argument name earlier => s.further name (earlier ++ [e]) s.tokens

/-- One step. A state in which nothing is left to do remains as it is. -/
def step (s : State) : State :=
  match s.control, s.stack with
  | .call call, _ => s.begin call
  | .returned e, frame :: stack => { s with stack }.resume e frame
  | _, _ => s

/-- What the steps have come to. -/
def outcome? (s : State) : Option Parsed :=
  match s.control, s.stack with
  | .returned e, [] => some (.ok (e, s.tokens))
  | .failed fault, _ => some (.error fault)
  | _, _ => none

/-- The calls that are open, the newest first. -/
def calls (s : State) : List Call :=
  match s.control with
  | .call call => call :: s.stack.map Frame.call
  | _ => s.stack.map Frame.call

/-- How many of the open calls can enclose each other again and again. -/
def nesting (s : State) : Nat := s.calls.countP Call.nests

end State

open State (step)

/-- The states that parsing goes through, from the call for the whole formula on. -/
def Reached (tokens : List Token) (s : State) : Prop := ∃ steps, step^[steps] ⟨.call .expression, [], 0, tokens⟩ = s

/-! ## What calls come to -/

/-- What the parser gives for the parentheses after a name. -/
def functionCall (name : String) (room : Nat) (tokens : List Token) : Parsed := do
  let rest ← expect .leftParen tokens
  match rest with
  | .rightParen :: rest => return (.call (Text.upper name) [], rest)
  | rest =>
    let (arguments, rest) ← Expr.arguments room rest
    let rest ← expect .rightParen rest
    return (.call (Text.upper name) arguments, rest)

/-- What the parser gives for a call. -/
def Call.answer (room : Nat) (tokens : List Token) : Call → Parsed
  | .expression => Expr.expression room tokens
  | .operand level => Expr.operand level room tokens
  | .signed _ => Expr.signed room tokens
  | .primary => Expr.primary room tokens
  | .function name => functionCall name room tokens

/-- The steps come to the result with the counter at `depth` and the calls of `stack` waiting, or to the fault. -/
def Yields (s : State) (stack : List Frame) (depth : Nat) : Parsed → Prop
  | .ok (e, rest) => ∃ steps, step^[steps] s = ⟨.returned e, stack, depth, rest⟩
  | .error fault => ∃ steps, (step^[steps] s).control = .failed fault

variable {s : State} {stack waiting : List Frame} {depth inside room : Nat} {tokens : List Token}
variable {outcome : Parsed}

theorem Yields.of_step (yields : Yields (step s) stack depth outcome) : Yields s stack depth outcome := by
  match outcome, yields with
  | .ok (e, rest), ⟨steps, same⟩ => exact ⟨steps + 1, same⟩
  | .error fault, ⟨steps, same⟩ => exact ⟨steps + 1, same⟩

theorem Yields.of_iterate {steps : Nat} (yields : Yields (step^[steps] s) stack depth outcome) :
    Yields s stack depth outcome := by
  induction steps generalizing s with
  | zero => exact yields
  | succ steps ih => exact (ih yields).of_step

/-- What follows a call that returns goes on from there. -/
theorem Yields.bind {f : Expr × List Token → Parsed} (first : Yields s waiting inside outcome)
    (next : ∀ e rest, outcome = .ok (e, rest) →
      Yields ⟨.returned e, waiting, inside, rest⟩ stack depth (f (e, rest))) :
    Yields s stack depth (outcome >>= f) := by
  match outcome, first with
  | .ok (e, rest), ⟨steps, same⟩ => exact Yields.of_iterate (same ▸ next e rest rfl)
  | .error fault, failed => exact failed

/-- A call that returns what another one has returned. -/
theorem Yields.through (first : Yields s waiting inside outcome)
    (next : ∀ e rest, Yields ⟨.returned e, waiting, inside, rest⟩ stack depth (.ok (e, rest))) :
    Yields s stack depth outcome := by
  have whole := first.bind fun e rest _ => next e rest
  rwa [show outcome >>= Except.ok = outcome from bind_pure outcome] at whole

/-! ## The steps of the parser -/

variable {control : Control} {frame : Frame} {e : Expr} {rest : List Token}

theorem step_call {call : Call} : step ⟨.call call, stack, depth, tokens⟩ =
    State.begin ⟨.call call, stack, depth, tokens⟩ call := rfl

theorem step_returned : step ⟨.returned e, frame :: stack, depth, tokens⟩ =
    State.resume ⟨.returned e, stack, depth, tokens⟩ e frame := rfl

theorem descend_of_le (full : maxNesting ≤ depth) : State.descend ⟨control, stack, depth, tokens⟩ frame rest =
    ⟨.failed .tooNested, stack, depth + 1, tokens⟩ := by
  simp only [State.descend, Nat.lt_succ_of_le full, if_true]
  rfl

theorem descend_of_lt (fits : depth < maxNesting) : State.descend ⟨control, stack, depth, tokens⟩ frame rest =
    ⟨.call frame.awaited, frame :: stack, depth + 1, rest⟩ := by
  simp only [State.descend, Nat.not_lt.2 fits, if_false]
  rfl

/-- A call that raises the counter is made if there is room for it. -/
theorem yields_descend {answer : Nat → Parsed} (fits : depth + room = maxNesting)
    (called : ∀ left, room = left + 1 →
      Yields ⟨.call frame.awaited, frame :: stack, depth + 1, rest⟩ waiting inside (answer left)) :
    Yields (State.descend ⟨control, stack, depth, tokens⟩ frame rest) waiting inside
      (match room with
      | 0 => .error .tooNested
      | left + 1 => answer left) := by
  cases room with
  | zero =>
    rw [descend_of_le (by omega)]
    exact ⟨0, rfl⟩
  | succ left =>
    rw [descend_of_lt (by omega)]
    exact called left rfl

theorem lower_add {count : Nat} : State.lower ⟨control, stack, depth + count, tokens⟩ count e =
    ⟨.returned e, stack, depth, tokens⟩ := by
  simp only [State.lower, Nat.le_add_left, if_true, Nat.add_sub_cancel]

/-- Pluses are dropped one by one, and nothing else changes. -/
theorem Yields.of_dropPluses {afterMinus : Bool}
    (yields : Yields ⟨.call (.signed afterMinus), stack, depth, Expr.dropPluses tokens⟩ waiting inside outcome) :
    Yields ⟨.call (.signed afterMinus), stack, depth, tokens⟩ waiting inside outcome := by
  fun_induction Expr.dropPluses tokens with
  | case1 rest ih => exact Yields.of_step (ih yields)
  | case2 tokens _ => exact yields

theorem dropPluses_ne (tokens rest : List Token) : Expr.dropPluses tokens ≠ .operator .add :: rest := by
  fun_induction Expr.dropPluses tokens with
  | case1 _ ih => exact ih
  | case2 tokens notPlus => exact notPlus rest

theorem step_minus {afterMinus : Bool} :
    step ⟨.call (.signed afterMinus), stack, depth, .operator .subtract :: rest⟩ =
      State.descend ⟨.call (.signed afterMinus), stack, depth, .operator .subtract :: rest⟩
        (.negation afterMinus) rest := rfl

theorem step_unsigned {afterMinus : Bool} (notPlus : ∀ rest, tokens ≠ .operator .add :: rest)
    (notMinus : ∀ rest, tokens ≠ .operator .subtract :: rest) :
    step ⟨.call (.signed afterMinus), stack, depth, tokens⟩ =
      ⟨.call .primary, .sign afterMinus :: stack, depth, tokens⟩ := by
  rw [step_call, State.begin, State.signed]
  · rfl
  · exact notPlus
  · exact notMinus

theorem functionCall_of_arguments {name : String} (opened : expect .leftParen tokens = .ok rest)
    (notClosing : ∀ after, rest ≠ .rightParen :: after) :
    functionCall name room tokens = (do
      let (arguments, rest) ← Expr.arguments room rest
      let rest ← expect .rightParen rest
      return (.call (Text.upper name) arguments, rest)) := by
  rw [functionCall, opened]
  simp only [bind, Except.bind]

/-- A name and a parenthesis after it are the call of a function. -/
theorem primary_call (name : String) (room : Nat) (rest : List Token) :
    Expr.primary room (.name name :: .leftParen :: rest) = functionCall name room (.leftParen :: rest) := by
  have opened : expect .leftParen (.leftParen :: rest) = .ok rest := by rw [expect, if_pos rfl]
  by_cases closing : ∃ after, rest = .rightParen :: after
  · obtain ⟨after, rfl⟩ := closing
    rw [functionCall, opened, Expr.primary]
    rfl
  · have notClosing (after : List Token) (same : rest = .rightParen :: after) : False := closing ⟨after, same⟩
    rw [functionCall_of_arguments opened notClosing, Expr.primary]
    exact notClosing

theorem yields_close (e : Expr) (rest : List Token) :
    Yields (State.close ⟨control, stack, depth, rest⟩ e) stack depth (do
      let rest ← expect .rightParen rest
      return (e, rest)) := by
  rw [State.close]
  dsimp only
  cases expect .rightParen rest <;> exact ⟨0, rfl⟩

/-! One theorem for each function of the parser, by its recursion. The room that the function is given is what
the counter leaves. -/

mutual

theorem yields_expression (room : Nat) {depth : Nat} (fits : depth + room = maxNesting) (stack : List Frame)
    (tokens : List Token) :
    Yields ⟨.call .expression, stack, depth, tokens⟩ stack depth (Expr.expression room tokens) := by
  refine Yields.of_step ?_
  rw [step_call, State.begin, Expr.expression.eq_def]
  refine yields_descend fits ?_
  rintro room rfl
  refine (yields_operand 1 room (by omega) (.expression :: stack) tokens).through fun e rest => ?_
  refine Yields.of_step ?_
  rw [step_returned, State.resume, lower_add]
  exact ⟨0, rfl⟩
termination_by (room, 0, 0)

theorem yields_operand (level room : Nat) {depth : Nat} (fits : depth + room = maxNesting) (stack : List Frame)
    (tokens : List Token) :
    Yields ⟨.call (.inner level), stack, depth, tokens⟩ stack depth (Expr.operand level room tokens) := by
  rw [Expr.operand, Call.inner]
  by_cases weak : level < negationPrecedence
  · rw [if_pos weak, if_pos weak]
    refine Yields.of_step ?_
    refine (yields_operand (level + 1) room fits (.first level :: stack) tokens).bind fun left rest _ => ?_
    exact Yields.of_step (yields_chain level room 0 fits left stack rest _)
  · rw [if_neg weak, if_neg weak]
    exact yields_signed false room fits stack tokens
termination_by (room, 5 + (negationPrecedence - level), 0)

/-- The operators before the operand have raised the counter by `count`, which is taken back at the end. -/
theorem yields_chain (level room count : Nat) {depth : Nat} (fits : depth + count + room = maxNesting)
    (left : Expr) (stack : List Frame) (tokens : List Token) (control : Control) :
    Yields (State.chain ⟨control, stack, depth + count, tokens⟩ level count left) stack depth
      (Expr.chain level room left tokens) := by
  rw [State.chain, Expr.chain]
  dsimp only
  cases operatorAt? level tokens with
  | none =>
    dsimp only
    rw [lower_add]
    exact ⟨0, rfl⟩
  | some found =>
    obtain ⟨operator, rest⟩ := found
    refine yields_descend fits ?_
    rintro room rfl
    refine (yields_operand (level + 1) room (by omega) (.next level (count + 1) left operator :: stack)
      rest).bind fun right rest _ => ?_
    have counted : depth + (count + 1) + room = maxNesting := by omega
    exact Yields.of_step (yields_chain level room (count + 1) counted (.binary operator left right) stack rest _)
termination_by (room, 0, 0)

theorem yields_signed (afterMinus : Bool) (room : Nat) {depth : Nat} (fits : depth + room = maxNesting)
    (stack : List Frame) (tokens : List Token) :
    Yields ⟨.call (.signed afterMinus), stack, depth, tokens⟩ stack depth (Expr.signed room tokens) := by
  refine Yields.of_dropPluses ?_
  rw [Expr.signed]
  have notPlus := dropPluses_ne tokens
  generalize Expr.dropPluses tokens = tokens at notPlus
  refine Yields.of_step ?_
  split
  · next rest =>
    rw [step_minus]
    refine yields_descend fits ?_
    rintro room rfl
    refine (yields_signed true room (by omega) (.negation afterMinus :: stack) rest).bind fun e rest _ => ?_
    refine Yields.of_step ?_
    rw [step_returned, State.resume, lower_add]
    exact ⟨0, rfl⟩
  · next notMinus =>
    rw [step_unsigned notPlus notMinus]
    refine (yields_primary room fits (.sign afterMinus :: stack) tokens).through fun e rest => ?_
    exact Yields.of_step ⟨0, rfl⟩
termination_by (room, 4, 0)

theorem yields_primary (room : Nat) {depth : Nat} (fits : depth + room = maxNesting) (stack : List Frame)
    (tokens : List Token) :
    Yields ⟨.call .primary, stack, depth, tokens⟩ stack depth (Expr.primary room tokens) := by
  by_cases called : ∃ name rest, tokens = .name name :: .leftParen :: rest
  · obtain ⟨name, rest, rfl⟩ := called
    rw [primary_call]
    refine Yields.of_step ?_
    refine (yields_function room fits (.name name :: stack) name (.leftParen :: rest)).through fun e rest => ?_
    exact Yields.of_step ⟨0, rfl⟩
  · rw [Expr.primary.eq_def]
    split
    case h_7 rest =>
      refine Yields.of_step ?_
      refine (yields_expression room fits (.parentheses :: stack) rest).bind fun e rest _ => ?_
      exact Yields.of_step (yields_close e rest)
    case h_8 name rest => exact absurd ⟨name, _, rfl⟩ called
    case h_9 name rest _ => exact absurd ⟨name, _, rfl⟩ called
    case h_10 | h_12 =>
      refine Yields.of_step ?_
      rw [step_call, State.begin, State.primary]
      · exact ⟨0, rfl⟩
      all_goals assumption
    all_goals exact Yields.of_step ⟨0, rfl⟩
termination_by (room, 3, 0)

theorem yields_function (room : Nat) {depth : Nat} (fits : depth + room = maxNesting) (stack : List Frame)
    (name : String) (tokens : List Token) :
    Yields ⟨.call (.function name), stack, depth, tokens⟩ stack depth (functionCall name room tokens) := by
  refine Yields.of_step ?_
  rw [step_call, State.begin]
  dsimp only
  cases opened : expect .leftParen tokens with
  | error fault =>
    rw [functionCall, opened]
    exact ⟨0, rfl⟩
  | ok rest =>
    by_cases closing : ∃ after, rest = .rightParen :: after
    · obtain ⟨after, rfl⟩ := closing
      rw [functionCall, opened]
      exact ⟨0, rfl⟩
    · have notClosing (after : List Token) (same : rest = .rightParen :: after) : False := closing ⟨after, same⟩
      dsimp only
      rw [functionCall_of_arguments opened notClosing, State.arguments]
      · exact yields_arguments room fits stack name [] rest
      · exact notClosing
termination_by (room, 2, 0)

theorem yields_arguments (room : Nat) {depth : Nat} (fits : depth + room = maxNesting) (stack : List Frame)
    (name : String) (earlier : List Expr) (tokens : List Token) :
    Yields ⟨.call .expression, .argument name earlier :: stack, depth, tokens⟩ stack depth (do
      let (arguments, rest) ← Expr.arguments room tokens
      let rest ← expect .rightParen rest
      return (.call (Text.upper name) (earlier ++ arguments), rest)) := by
  rw [Expr.arguments, bind_assoc]
  refine (yields_expression room fits (.argument name earlier :: stack) tokens).bind fun e rest found => ?_
  refine Yields.of_step ?_
  rw [step_returned, State.resume]
  dsimp only
  by_cases more : ∃ after, rest = .comma :: after
  · obtain ⟨rest, rfl⟩ := more
    -- An expression and the comma after it are tokens of their own.
    have shorter : rest.length < tokens.length := by
      have justified := Expr.justified_expression room tokens
      rw [found] at justified
      obtain ⟨used, same, -⟩ := justified
      rw [same, List.length_append, List.length_cons]
      omega
    have onward := yields_arguments room fits stack name (earlier ++ [e]) rest
    rw [State.further]
    dsimp only
    rw [if_pos shorter, bind_assoc]
    simp only [pure_bind, List.append_assoc, List.singleton_append] at onward ⊢
    exact onward
  · rw [State.further]
    · split
      · exact absurd ⟨_, rfl⟩ more
      · rw [pure_bind]
        exact yields_close _ _
    · exact fun after same => more ⟨after, same⟩
termination_by (room, 1, tokens.length)

end

/-- Parsing comes to an end, with what the parser gives. -/
theorem exists_outcome (tokens : List Token) :
    ∃ s, Reached tokens s ∧ s.outcome? = some (Expr.expression maxNesting tokens) := by
  have yields := yields_expression maxNesting (Nat.zero_add _) [] tokens
  match Expr.expression maxNesting tokens, yields with
  | .ok (e, rest), ⟨steps, same⟩ => exact ⟨_, ⟨steps, same⟩, rfl⟩
  | .error fault, ⟨steps, same⟩ =>
    refine ⟨_, ⟨steps, rfl⟩, ?_⟩
    unfold State.outcome?
    rw [same]

end PageCalc.Parsing

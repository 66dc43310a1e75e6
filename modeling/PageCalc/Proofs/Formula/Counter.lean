import PageCalc.Proofs.Formula.Calls

/-!
# The counter of nesting

In every state of parsing the counter is the sum of what the waiting calls have raised it by. So a call that
returns leaves it as it was, it is never lowered below zero, and it bounds the number of open calls: of those
that can enclose each other again and again, each has raised it by one, was called by one that has, or has just
been made.
-/

namespace PageCalc.Parsing

open State (step)

variable {s t : State} {control : Control} {stack : List Frame} {frame : Frame} {call : Call}
variable {depth count : Nat} {tokens rest : List Token} {e : Expr} {fault : FormulaError}

/-! ## Waiting calls -/

/-- What calls may wait below a call: each for the one above it, and the one for the whole formula below all. -/
inductive Stacked : Call → List Frame → Prop where
  | whole : Stacked .expression []
  | above {frame : Frame} {stack : List Frame} (stacked : Stacked frame.call stack) :
      Stacked frame.awaited (frame :: stack)

/-- By how much the waiting calls have raised the counter. -/
def raised : List Frame → Nat
  | [] => 0
  | frame :: stack => raised stack + frame.raised

theorem raised_le_of_suffix {waiting : List Frame} (suffix : waiting <:+ stack) : raised waiting ≤ raised stack := by
  obtain ⟨newer, rfl⟩ := suffix
  induction newer with
  | nil => exact Nat.le_refl _
  | cons frame newer ih => exact Nat.le_add_right_of_le ih

theorem Stacked.of_cons (stacked : Stacked call (frame :: stack)) : Stacked frame.call stack := by
  cases stacked with
  | above stacked => exact stacked

/-- Only operators between two operands have chains. -/
theorem Stacked.weak {level : Nat} (stacked : Stacked (.operand level) stack) : level < negationPrecedence := by
  generalize isOperand : Call.operand level = call at stacked
  have weak {next : Nat} (same : Call.operand level = .inner next) : level < negationPrecedence := by
    unfold Call.inner at same
    split at same
    · next weak => cases same; exact weak
    · cases same
  cases stacked with
  | whole => cases isOperand
  | @above frame =>
    cases frame with
    | expression | first | next => exact weak isOperand
    | negation | sign | parentheses | name | argument => cases isOperand

/-! ## How many calls are open -/

theorem nests_inner (level : Nat) : (Call.inner level).nests = false := by
  unfold Call.inner
  split <;> rfl

/-- A call that counts has raised the counter itself, was called by one that has, or is about to raise it. -/
theorem Stacked.nesting_le (stacked : Stacked call stack) :
    (call :: stack.map Frame.call).countP Call.nests ≤ raised stack + if call = .expression then 1 else 0 := by
  induction stacked with
  | whole => decide
  | @above frame stack stacked ih =>
    -- An expression that waits is no longer about to raise the counter: it has.
    have own : (if frame.awaited.nests then 1 else 0) + (if frame.call = .expression then 1 else 0) ≤
        frame.raised + if frame.awaited = .expression then 1 else 0 := by
      cases frame with
      | expression | first | next => simp [Frame.awaited, Frame.call, Frame.raised, nests_inner]
      | negation | sign | parentheses | name | argument =>
        simp [Frame.awaited, Frame.call, Frame.raised, Call.nests]
    rw [List.map_cons, List.countP_cons, raised]
    omega

theorem Stacked.waiting_le (stacked : Stacked call stack) :
    (stack.map Frame.call).countP Call.nests ≤ raised stack := by
  have all := stacked.nesting_le
  rw [List.countP_cons] at all
  by_cases isExpression : call = .expression
  · have counts : call.nests := by rw [isExpression]; rfl
    rw [if_pos isExpression, if_pos counts] at all
    omega
  · rw [if_neg isExpression] at all
    omega

/-- The functions of the parser in the order in which they call each other. -/
def Call.rank : Call → Nat
  | .expression => 1
  | .operand level => level + 1
  | .signed _ => 6
  | .primary => 7
  | .function _ => 8

/-- From one call that counts to the next there are no more calls than functions. -/
theorem Stacked.length_le (stacked : Stacked call stack) :
    (call :: stack.map Frame.call).length + 8 ≤
      8 * (call :: stack.map Frame.call).countP Call.nests + call.rank := by
  induction stacked with
  | whole => decide
  | @above frame stack stacked ih =>
    have own : frame.call.rank + 1 ≤ 8 * (if frame.awaited.nests then 1 else 0) + frame.awaited.rank := by
      cases frame with
      | expression => decide
      | first level | next level =>
        have weak : level < 5 := stacked.weak
        simp only [Frame.call, Frame.awaited, Call.rank, Call.inner]
        split
        · exact Nat.le_add_left _ _
        · dsimp only
          omega
      | negation | sign | parentheses | name | argument =>
        simp [Frame.awaited, Frame.call, Call.rank, Call.nests]
    rw [List.map_cons, List.countP_cons, List.length_cons]
    omega

theorem Stacked.calls_le (stacked : Stacked call stack) :
    (call :: stack.map Frame.call).length ≤ 8 * (call :: stack.map Frame.call).countP Call.nests := by
  have all := stacked.length_le
  have last : call.rank ≤ 8 := by
    cases call with
    | operand level =>
      have weak : level < 5 := stacked.weak
      rw [Call.rank]
      omega
    | expression | signed | primary | function => simp [Call.rank]
  omega

/-! ## Sound states -/

/-- The counter is what the waiting calls have raised it by; it is above that only after it has been raised
too high. -/
inductive Sound : State → Prop where
  | call {call : Call} {stack : List Frame} {depth : Nat} {tokens : List Token} (stacked : Stacked call stack)
      (counted : depth = raised stack) (low : depth ≤ maxNesting) : Sound ⟨.call call, stack, depth, tokens⟩
  | returned {e : Expr} {call : Call} {stack : List Frame} {depth : Nat} {tokens : List Token}
      (stacked : Stacked call stack) (counted : depth = raised stack) (low : depth ≤ maxNesting) :
      Sound ⟨.returned e, stack, depth, tokens⟩
  | failed {fault : FormulaError} {call : Call} {stack : List Frame} {depth : Nat} {tokens : List Token}
      (stacked : Stacked call stack) (counted : raised stack ≤ depth) (low : raised stack ≤ maxNesting)
      (atMost : depth ≤ maxNesting + 1) : Sound ⟨.failed fault, stack, depth, tokens⟩

section Steps

variable (stacked : Stacked call stack) (low : raised stack ≤ maxNesting)
include stacked low

theorem sound_fail : Sound (State.fail ⟨control, stack, raised stack, tokens⟩ fault) :=
  .failed stacked (Nat.le_refl _) low (Nat.le_succ_of_le low)

theorem sound_finish : Sound (State.finish ⟨control, stack, raised stack, tokens⟩ e rest) :=
  .returned stacked rfl low

theorem sound_close : Sound (State.close ⟨control, stack, raised stack, tokens⟩ e) := by
  unfold State.close
  split
  · exact sound_fail stacked low
  · exact sound_finish stacked low

theorem sound_lower : Sound (State.lower ⟨control, stack, raised stack + count, tokens⟩ count e) := by
  rw [lower_add]
  exact .returned stacked rfl low

end Steps

theorem sound_wait (frame : Frame) (stacked : Stacked frame.call stack) (raises : frame.raised = 0)
    (low : raised stack ≤ maxNesting) : Sound (State.wait ⟨control, stack, raised stack, tokens⟩ frame rest) :=
  .call (.above stacked) (by rw [raised, raises, Nat.add_zero]) low

/-- A call is made with a counter that is raised by one, or the counter was too high for it. -/
theorem sound_descend (frame : Frame) (count : Nat) (stacked : Stacked frame.call stack)
    (raises : frame.raised = count + 1) (low : raised stack + count ≤ maxNesting) :
    Sound (State.descend ⟨control, stack, raised stack + count, tokens⟩ frame rest) := by
  rcases Nat.lt_or_eq_of_le low with fits | full
  · rw [descend_of_lt fits]
    exact .call (.above stacked) (by rw [raised, raises, Nat.add_assoc]) fits
  · rw [descend_of_le (Nat.le_of_eq full.symm)]
    exact .failed stacked (by omega) (by omega) (by omega)

theorem sound_chain {level : Nat} (stacked : Stacked (.operand level) stack)
    (low : raised stack + count ≤ maxNesting) (left : Expr) :
    Sound (State.chain ⟨control, stack, raised stack + count, tokens⟩ level count left) := by
  unfold State.chain
  split
  · exact sound_lower stacked (by omega)
  · next operator rest _ => exact sound_descend (.next level (count + 1) left operator) count stacked rfl low

theorem sound_primary (stacked : Stacked .primary stack) (low : raised stack ≤ maxNesting) (next : List Token) :
    Sound (State.primary ⟨control, stack, raised stack, tokens⟩ next) := by
  unfold State.primary
  split
  case h_7 => exact sound_wait .parentheses stacked rfl low
  case h_8 name _ => exact sound_wait (.name name) stacked rfl low
  all_goals first
    | exact sound_finish stacked low
    | exact sound_fail stacked low

theorem sound_begin (stacked : Stacked call stack) (low : raised stack ≤ maxNesting) :
    Sound (State.begin ⟨.call call, stack, raised stack, tokens⟩ call) := by
  cases call with
  | expression => exact sound_descend .expression 0 stacked rfl low
  | operand level => exact sound_wait (.first level) stacked rfl low
  | signed afterMinus =>
    show Sound (State.signed _ afterMinus tokens)
    unfold State.signed
    split
    · exact .call stacked rfl low
    · exact sound_descend (.negation afterMinus) 0 stacked rfl low
    · exact sound_wait (.sign afterMinus) stacked rfl low
  | primary => exact sound_primary stacked low tokens
  | function name =>
    unfold State.begin State.arguments
    dsimp only
    split
    · exact sound_fail stacked low
    · split
      · exact sound_finish stacked low
      · exact sound_wait (.argument name []) stacked rfl low

theorem sound_resume (stacked : Stacked frame.call stack) (low : raised stack + frame.raised ≤ maxNesting) :
    Sound (State.resume ⟨control, stack, raised stack + frame.raised, tokens⟩ e frame) := by
  have lower : raised stack ≤ maxNesting := Nat.le_of_add_right_le low
  cases frame with
  | expression | negation => exact sound_lower stacked lower
  | first level => exact sound_chain stacked low e
  | next level count left operator => exact sound_chain stacked low _
  | sign | name => exact sound_finish stacked lower
  | parentheses => exact sound_close stacked lower
  | argument name earlier =>
    show Sound (State.further _ name _ tokens)
    unfold State.further
    split
    · exact sound_wait (.argument name (earlier ++ [e])) stacked rfl lower
    · exact sound_close stacked lower

theorem Sound.next (sound : Sound s) : Sound (step s) := by
  cases sound with
  | call stacked counted low =>
    subst counted
    exact sound_begin stacked low
  | @returned e _ stack _ _ stacked counted low =>
    cases stack with
    | nil => exact .returned stacked counted low
    | cons frame stack =>
      rw [raised] at counted
      subst counted
      exact sound_resume stacked.of_cons low
  | failed stacked counted low atMost => exact .failed stacked counted low atMost

theorem Reached.sound (reached : Reached tokens s) : Sound s := by
  obtain ⟨steps, rfl⟩ := reached
  induction steps with
  | zero => exact .call .whole rfl (Nat.zero_le _)
  | succ steps ih =>
    rw [Function.iterate_succ_apply']
    exact ih.next

theorem Sound.raised_le (sound : Sound s) : raised s.stack ≤ s.depth := by
  cases sound with
  | call _ counted | returned _ counted => exact Nat.le_of_eq counted.symm
  | failed _ counted => exact counted

theorem Sound.depth_le (sound : Sound s) : s.depth ≤ maxNesting + 1 := by
  cases sound with
  | call _ _ low | returned _ _ low => exact Nat.le_succ_of_le low
  | failed _ _ _ atMost => exact atMost

theorem Sound.of_call (sound : Sound s) (isCall : s.control = .call call) :
    Stacked call s.stack ∧ s.depth = raised s.stack ∧ s.depth ≤ maxNesting := by
  cases sound with
  | call stacked counted low => cases isCall; exact ⟨stacked, counted, low⟩
  | returned | failed => cases isCall

theorem Sound.of_returned (sound : Sound s) (hasReturned : s.control = .returned e) : s.depth = raised s.stack := by
  cases sound with
  | returned _ counted => exact counted
  | call | failed => cases hasReturned

theorem Sound.not_underflowed (sound : Sound s) : s.control ≠ .underflowed := by
  cases sound <;> exact nofun

/-- The open calls are those that wait, and perhaps one more. -/
theorem Sound.exists_stacked (sound : Sound s) : ∃ call, Stacked call s.stack ∧ raised s.stack ≤ maxNesting ∧
    s.calls <:+ call :: s.stack.map Frame.call := by
  cases sound with
  | call stacked counted low => exact ⟨_, stacked, counted ▸ low, List.suffix_rfl⟩
  | returned stacked counted low => exact ⟨_, stacked, counted ▸ low, List.suffix_cons _ _⟩
  | failed stacked _ low => exact ⟨_, stacked, low, List.suffix_cons _ _⟩

theorem Stacked.nesting_le_succ (stacked : Stacked call stack) :
    (call :: stack.map Frame.call).countP Call.nests ≤ raised stack + 1 := by
  have few := stacked.nesting_le
  split at few <;> omega

theorem Sound.nesting_le (sound : Sound s) : s.nesting ≤ maxNesting + 1 := by
  obtain ⟨call, stacked, low, within⟩ := sound.exists_stacked
  calc s.nesting
      ≤ (call :: s.stack.map Frame.call).countP Call.nests := within.sublist.countP_le
    _ ≤ raised s.stack + 1 := stacked.nesting_le_succ
    _ ≤ maxNesting + 1 := Nat.succ_le_succ low

theorem Sound.calls_le (sound : Sound s) : s.calls.length ≤ 8 * (maxNesting + 1) := by
  obtain ⟨call, stacked, low, within⟩ := sound.exists_stacked
  calc s.calls.length
      ≤ (call :: s.stack.map Frame.call).length := within.length_le
    _ ≤ 8 * (call :: s.stack.map Frame.call).countP Call.nests := stacked.calls_le
    _ ≤ 8 * (raised s.stack + 1) := Nat.mul_le_mul_left _ stacked.nesting_le_succ
    _ ≤ 8 * (maxNesting + 1) := Nat.mul_le_mul_left _ (Nat.succ_le_succ low)

/-- As many calls as can be are open only if the newest of them finds no room left. -/
theorem Sound.step_of_full (sound : Sound s) (full : s.nesting = maxNesting + 1) :
    (step s).control = .failed .tooNested := by
  cases sound with
  | @call call stack depth tokens stacked counted low =>
    have few : State.nesting ⟨.call call, stack, depth, tokens⟩ ≤
        raised stack + if call = .expression then 1 else 0 := stacked.nesting_le
    rw [full] at few
    by_cases isExpression : call = .expression
    · subst isExpression
      rw [if_pos rfl] at few
      rw [step_call, State.begin, descend_of_le (by omega)]
    · rw [if_neg isExpression] at few
      omega
  | @returned e call stack depth tokens stacked counted low =>
    have few : State.nesting ⟨.returned e, stack, depth, tokens⟩ ≤ raised stack := stacked.waiting_le
    omega
  | @failed fault call stack depth tokens stacked _ low =>
    have few : State.nesting ⟨.failed fault, stack, depth, tokens⟩ ≤ raised stack := stacked.waiting_le
    omega

/-! ## The parser keeps to the counter -/

/-- Every call that is made comes to an end, and if it returns, the counter is what it was. -/
theorem yields_call (stacked : Stacked call stack) {room : Nat} (fits : depth + room = maxNesting) :
    Yields ⟨.call call, stack, depth, tokens⟩ stack depth (call.answer room tokens) := by
  cases call with
  | expression => exact yields_expression room fits stack tokens
  | operand level =>
    have yields := yields_operand level room fits stack tokens
    rwa [Call.inner, if_pos stacked.weak] at yields
  | signed afterMinus => exact yields_signed afterMinus room fits stack tokens
  | primary => exact yields_primary room fits stack tokens
  | function name => exact yields_function room fits stack name tokens

/-- A run of pluses is dropped, one with each step. -/
theorem iterate_step_pluses (afterMinus : Bool) (steps left : Nat) :
    step^[steps] ⟨.call (.signed afterMinus), stack, depth,
        List.replicate (steps + left) (.operator .add) ++ rest⟩ =
      ⟨.call (.signed afterMinus), stack, depth, List.replicate left (.operator .add) ++ rest⟩ := by
  induction steps with
  | zero => rw [Nat.zero_add]; rfl
  | succ steps ih =>
    rw [Nat.add_right_comm, List.replicate_succ, List.cons_append]
    exact ih

theorem dropPluses_replicate (count : Nat) (tokens : List Token) :
    Expr.dropPluses (List.replicate count (.operator .add) ++ tokens) = Expr.dropPluses tokens := by
  induction count with
  | zero => rfl
  | succ count ih =>
    rw [List.replicate_succ, List.cons_append, Expr.dropPluses]
    exact ih

/-- Pluses before an operand take up no room. -/
theorem operand_pluses (level room count : Nat) (tokens : List Token) :
    Expr.operand level room (List.replicate count (.operator .add) ++ tokens) = Expr.operand level room tokens := by
  by_cases weak : level < negationPrecedence
  · rw [Expr.operand, if_pos weak, operand_pluses (level + 1) room count tokens, Expr.operand.eq_def level,
      if_pos weak]
  · rw [Expr.operand, if_neg weak, Expr.operand, if_neg weak, Expr.signed, dropPluses_replicate, Expr.signed]
termination_by negationPrecedence - level

theorem expression_pluses (room count : Nat) (tokens : List Token) :
    Expr.expression room (List.replicate count (.operator .add) ++ tokens) = Expr.expression room tokens := by
  rw [Expr.expression.eq_def, Expr.expression.eq_def]
  cases room with
  | zero => rfl
  | succ room => exact operand_pluses 1 room count tokens

/-- Each parenthesis at the beginning leads to one more call that counts. -/
theorem exists_reached_parentheses (count : Nat) (fits : count ≤ maxNesting) (rest : List Token) :
    ∃ stack, Reached (List.replicate count .leftParen ++ rest) ⟨.call .expression, stack, count, rest⟩ ∧
      (stack.map Frame.call).countP Call.nests = count := by
  induction count generalizing rest with
  | zero => exact ⟨[], ⟨0, rfl⟩, rfl⟩
  | succ count ih =>
    obtain ⟨stack, ⟨steps, reached⟩, counted⟩ := ih (Nat.le_of_succ_le fits) (.leftParen :: rest)
    -- One call of each function on the way down to the parenthesis, and the call for what it encloses.
    let inner : List Frame := [.parentheses, .sign false, .first 4, .first 3, .first 2, .first 1, .expression]
    have onward : step^[7] ⟨.call .expression, stack, count, .leftParen :: rest⟩ =
        ⟨.call .expression, inner ++ stack, count + 1, rest⟩ := by
      rw [Function.iterate_succ_apply, step_call, State.begin, descend_of_lt fits]
      rfl
    refine ⟨inner ++ stack, ⟨7 + steps, ?_⟩, ?_⟩
    · rw [Function.iterate_add_apply, List.replicate_succ', List.append_assoc, List.singleton_append, reached,
        onward]
    · rw [List.map_append, List.countP_append, counted]
      exact Nat.add_comm 1 count

/-- However many tokens there are, parsing ends, with what the parser gives. Of the calls that count, at most as
many are open as there is room for nesting and one more, which is refused then; all open calls together are
at most eight times as many. Each call that is made ends with what its function gives for the room that the
counter leaves, and if it returns, the counter is as it was. The counter is never below that while the call is
open, so that it is never lowered below zero. Pluses before an operand do not count. -/
theorem nesting_bounded :
    (∀ tokens, ∃ s, Reached tokens s ∧ s.outcome? = some (Expr.expression maxNesting tokens)) ∧
    (∀ tokens s, Reached tokens s →
      s.nesting ≤ maxNesting + 1 ∧ (s.nesting = maxNesting + 1 → (step s).control = .failed .tooNested) ∧
      s.calls.length ≤ 8 * (maxNesting + 1) ∧ s.depth ≤ maxNesting + 1 ∧ s.control ≠ .underflowed) ∧
    (∃ tokens s, Reached tokens s ∧ s.nesting = maxNesting + 1) ∧
    (∀ tokens s call, Reached tokens s → s.control = .call call →
      Yields s s.stack s.depth (call.answer (maxNesting - s.depth) s.tokens) ∧
      ∀ t, Reached tokens t → s.stack <:+ t.stack → s.depth ≤ t.depth ∧
        ∀ e, t.control = .returned e → t.stack = s.stack → t.depth = s.depth) ∧
    (∀ (s : State) afterMinus count rest, s.control = .call (.signed afterMinus) →
      s.tokens = List.replicate count (.operator .add) ++ rest → ∀ steps ≤ count,
        step^[steps] s = { s with tokens := List.replicate (count - steps) (.operator .add) ++ rest }) ∧
    ∀ room count tokens, Expr.expression room (List.replicate count (.operator .add) ++ tokens) =
      Expr.expression room tokens := by
  refine ⟨exists_outcome, fun tokens s reached => ?bounds, ?attained, fun tokens s call reached isCall => ?calls,
    fun s afterMinus count rest isCall pluses steps few => ?pluses, expression_pluses⟩
  case bounds =>
    have sound := reached.sound
    exact ⟨sound.nesting_le, sound.step_of_full, sound.calls_le, sound.depth_le, sound.not_underflowed⟩
  case attained =>
    obtain ⟨stack, reached, counted⟩ := exists_reached_parentheses maxNesting (Nat.le_refl _) []
    refine ⟨_, _, reached, ?_⟩
    show (Call.expression :: stack.map Frame.call).countP Call.nests = maxNesting + 1
    rw [List.countP_cons, counted]
    rfl
  case calls =>
    obtain ⟨stacked, counted, low⟩ := reached.sound.of_call isCall
    refine ⟨?_, fun t reachedToo waits => ⟨?_, fun e hasReturned same => ?_⟩⟩
    · obtain ⟨control, stack, depth, left⟩ := s
      cases isCall
      exact yields_call stacked (Nat.add_sub_cancel' low)
    · calc s.depth
          = raised s.stack := counted
        _ ≤ raised t.stack := raised_le_of_suffix waits
        _ ≤ t.depth := reachedToo.sound.raised_le
    · rw [reachedToo.sound.of_returned hasReturned, same, counted]
  case pluses =>
    obtain ⟨control, stack, depth, left⟩ := s
    cases isCall
    have parts : List.replicate count (.operator .add) =
        List.replicate (steps + (count - steps)) (Token.operator .add) := by rw [Nat.add_sub_cancel' few]
    rw [show left = _ from pluses, parts]
    exact iterate_step_pluses afterMinus steps (count - steps)

end PageCalc.Parsing

import PageCalc.Proofs.Evaluation.ValueLaws
import PageCalc.Proofs.Function.Filled

/-!
# Expressions that cannot tell ranges apart

Which references of an expression are used as single values is seen from the expression. If what it reads
is replaced by what is alike for the use that is made of it, its value is alike as well, for the use that
is made of the expression.
-/

namespace PageCalc

/-! ## References that are used as single values -/

mutual

/-- The references that are used as single values by an expression that is used itself for something.
Arguments of refused calls are not used. -/
def Expr.singles (library : Library) (use : Use) : Expr → List Reference
  | .number _ | .text _ | .boolean _ => []
  | .reference r => if use = .single then [r] else []
  | .binary _ left right => left.singles library .single ++ right.singles library .single
  | .negate operand => operand.singles library .single
  | .call name arguments =>
    match library.find? name with
    | some function =>
      if library.accepts name arguments.length then
        singlesOf library (fun place => function.handling.argument use place) 0 arguments
      else []
    | none => []

/-- The references that are used as single values by the arguments from a place on. -/
def Expr.singlesOf (library : Library) (argument : Nat → Use) (place : Nat) : List Expr → List Reference
  | [] => []
  | e :: es => e.singles library (argument place) ++ singlesOf library argument (place + 1) es

end

/-! ## Plans that go on alike -/

namespace Plan

variable {α β : Type} {seen : Reference → Value → Value → Prop} {Ψ : α → α → Prop}

/-- Two plans read the same references and end alike, if they see what is alike. -/
inductive Alike (seen : Reference → Value → Value → Prop) (Ψ : α → α → Prop) :
    Plan α → Plan α → Prop where
  | done {a b : α} (holds : Ψ a b) : Alike seen Ψ (.done a) (.done b)
  | read {r : Reference} {next next' : Value → Plan α}
      (onward : ∀ u v, seen r u v → Alike seen Ψ (next u) (next' v)) :
      Alike seen Ψ (.read r next) (.read r next')

variable {plan plan' : Plan α}

theorem Alike.bind {Ω : β → β → Prop} {f f' : α → Plan β} (first : Alike seen Ψ plan plan')
    (second : ∀ a b, Ψ a b → Alike seen Ω (f a) (f' b)) : Alike seen Ω (plan >>= f) (plan' >>= f') := by
  induction first with
  | done holds => exact second _ _ holds
  | read _ ih => exact .read ih

/-- What a plan yields the other one yields as well, up to what is alike. -/
theorem Alike.yields {answers others : Reference → Value → Prop} {a : α}
    (alike : Alike seen Ψ plan plan') (yields : plan.Yields answers a)
    (matched : ∀ r u, answers r u → ∃ v, others r v ∧ seen r u v) : ∃ b, plan'.Yields others b ∧ Ψ a b := by
  induction yields generalizing plan' with
  | done =>
    cases alike with
    | done holds => exact ⟨_, .done, holds⟩
  | read answered _ ih =>
    cases alike with
    | read onward =>
      obtain ⟨v, answered', isSeen⟩ := matched _ _ answered
      obtain ⟨b, rest, holds⟩ := ih (onward _ v isSeen)
      exact ⟨b, .read answered' rest, holds⟩

theorem alike_mapM {plans plans' : List (Plan α)} (each : List.Forall₂ (Alike seen Ψ) plans plans') :
    Alike seen (List.Forall₂ Ψ) (plans.mapM id) (plans'.mapM id) := by
  induction each with
  | nil => exact .done .nil
  | cons first _ ih =>
    rw [List.mapM_cons, List.mapM_cons]
    exact first.bind fun a b holds => ih.bind fun _ _ rest => .done (.cons holds rest)

variable {use : Use} {arguments : List (Plan Value)}

theorem alike_demand {argument : Nat → Use} {demand demand' : Demand}
    (alike : demand.Alike argument use demand')
    (each : ∀ place plan, arguments[place]? = some plan → Alike seen (argument place).Alike plan plan) :
    Alike seen use.Agree (demand.run arguments) (demand'.run arguments) := by
  induction alike with
  | answer agree => exact .done agree
  | @ask place next next' _ ih =>
    have asked : Alike seen (argument place).Alike ((arguments[place]?).getD (pure .blank))
        ((arguments[place]?).getD (pure .blank)) := by
      cases given : arguments[place]? with
      | none => exact .done .same
      | some plan => exact each place plan given
    exact asked.bind ih

theorem alike_outcome {outcome outcome' : Outcome} :
    use.Agree outcome outcome' → Alike seen use.Alike
      (pure (match outcome with
        | .ok v => v.checkFinite
        | .error fault => .error fault.toCellError))
      (pure (match outcome' with
        | .ok v => v.checkFinite
        | .error fault => .error fault.toCellError)) := by
  intro agree
  cases agree with
  | value alike => exact .done alike.checkFinite
  | fault => exact .done .same

theorem agree_refl (use : Use) (outcome : Outcome) : use.Agree outcome outcome := by
  cases outcome with
  | ok v => exact .value .same
  | error fault => exact .fault

theorem alike_applyFunction {function : Function}
    (respects : function.implementation.Respects function.handling)
    (each : ∀ place plan, arguments[place]? = some plan →
      Alike seen (function.handling.argument use place).Alike plan plan) :
    Alike seen use.Alike (applyFunction function arguments) (applyFunction function arguments) := by
  unfold applyFunction
  cases implementation : function.implementation with
  | lazy demand =>
    cases handling : function.handling with
    | eager argument => simp [implementation, handling, Implementation.Respects] at respects
    | lazy argument =>
      rw [implementation, handling] at respects
      rw [handling] at each
      exact (alike_demand (respects use _) each).bind fun _ _ => alike_outcome
  | eager apply =>
    cases handling : function.handling with
    | lazy argument => simp [implementation, handling, Implementation.Respects] at respects
    | eager argument =>
      rw [implementation, handling] at respects
      rw [handling] at each
      have all : List.Forall₂ (Alike seen argument.Alike) arguments arguments :=
        List.forall₂_same.2 fun plan member => by
          obtain ⟨place, isPlan⟩ := List.getElem?_of_mem member
          exact each place plan isPlan
      refine (alike_mapM all).bind fun us vs alike => ?_
      rw [pure_bind, pure_bind]
      -- The same error comes first, or the function makes the same of the arguments.
      rw [Value.findSome?_firstError? alike fun _ _ => Use.Alike.firstError?, respects us vs alike]
      exact alike_outcome (agree_refl use _)

end Plan

/-! ## Expressions -/

section Expressions

variable {library : Library} {tight : Reference → Prop}

/-- What is seen in place of something else: alike for its members at least, and where it is used as a
single value, alike as that. -/
def Seen (tight : Reference → Prop) (r : Reference) (u v : Value) : Prop :=
  (tight r → Use.single.Alike u v) ∧ Use.members.Alike u v

theorem Seen.same {r : Reference} {v : Value} : Seen tight r v v := ⟨fun _ => .same, .same⟩

theorem Operator.apply_congr (operator : Operator) {l l' r r' : Value} (left : Use.single.Alike l l')
    (right : Use.single.Alike r r') : operator.apply l r = operator.apply l' r' := by
  simp only [Operator.apply, left.scalar, right.scalar]

theorem Value.negate_congr {v v' : Value} (alike : Use.single.Alike v v') : v.negate = v'.negate := by
  simp only [Value.negate, alike.scalar]

mutual

/-- An expression cannot tell what is alike for the uses that it makes of its references. -/
theorem alike_plan (respects : library.Respects) (use : Use) (e : Expr)
    (within : ∀ r ∈ e.singles library use, tight r) :
    (e.plan library).Alike (Seen tight) use.Alike (e.plan library) := by
  match e with
  | .number _ | .text _ | .boolean _ => exact .done .same
  | .reference r =>
    refine .read fun u v seen => .done ?_
    cases use with
    | single => exact seen.1 (within r (by simp [Expr.singles]))
    | members => exact seen.2
  | .binary operator left right =>
    simp only [Expr.singles, List.mem_append] at within
    simp only [Expr.plan, evaluateExpr]
    refine (alike_plan respects .single left fun r member => within r (.inl member)).bind ?_
    refine fun l l' leftAlike =>
      (alike_plan respects .single right fun r member => within r (.inr member)).bind ?_
    refine fun r r' rightAlike => .done ?_
    rw [operator.apply_congr leftAlike rightAlike]
    exact .same
  | .negate operand =>
    simp only [Expr.singles] at within
    simp only [Expr.plan, evaluateExpr]
    refine (alike_plan respects .single operand within).bind fun v v' alike => .done ?_
    rw [Value.negate_congr alike]
    exact .same
  | .call name arguments =>
    simp only [Expr.singles] at within
    simp only [Expr.plan, evaluateExpr]
    unfold callFunction
    cases found : library.find? name with
    | none => exact .done .same
    | some function =>
      simp only
      split
      · exact .done .same
      · next counted =>
        -- Only now are the arguments looked at, each in the use that the function makes of it.
        rw [length_evaluators] at counted
        simp only [found, Library.accepts_of_counted found counted, if_true] at within
        refine Plan.alike_applyFunction (respects name function found) fun place plan given => ?_
        have alike := alike_plans respects (fun place => function.handling.argument use place) 0 arguments
          within place plan given
        rwa [Nat.zero_add] at alike
termination_by sizeOf e

theorem alike_plans (respects : library.Respects) (argument : Nat → Use) (first : Nat) (es : List Expr)
    (within : ∀ r ∈ Expr.singlesOf library argument first es, tight r) (place : Nat) (plan : Plan Value)
    (given : (evaluators library (fun r => Plan.read r Plan.done) es)[place]? = some plan) :
    plan.Alike (Seen tight) (argument (first + place)).Alike plan := by
  match es with
  | [] => simp [evaluators] at given
  | e :: es =>
    simp only [Expr.singlesOf, List.mem_append] at within
    cases place with
    | zero =>
      have isPlan : e.plan library = plan := by simpa [evaluators, Expr.plan] using given
      subst isPlan
      exact alike_plan respects (argument first) e fun r member => within r (.inl member)
    | succ place =>
      have shifted : first + (place + 1) = first + 1 + place := by omega
      rw [shifted]
      refine alike_plans respects argument (first + 1) es (fun r member => within r (.inr member)) place
        plan ?_
      simpa [evaluators] using given
termination_by sizeOf es

end

end Expressions
end PageCalc

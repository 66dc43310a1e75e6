import PageCalc.Proofs.Evaluation.ValueLaws

/-!
# Strict expressions

An expression that calls no lazy function reads all of its references outside of refused calls,
whatever it finds there.
-/

namespace PageCalc

mutual

/-- The expression calls no lazy function. -/
def Expr.Strict (library : Library) : Expr → Prop
  | .number _ | .text _ | .boolean _ | .reference _ => True
  | .binary _ left right => left.Strict library ∧ right.Strict library
  | .negate operand => operand.Strict library
  | .call name arguments =>
    (∀ function, library.find? name = some function → function.isLazy = false) ∧
      AllStrict library arguments

def Expr.AllStrict (library : Library) : List Expr → Prop
  | [] => True
  | e :: es => e.Strict library ∧ AllStrict library es

end

namespace Plan

variable {α β : Type} {r : Reference} {plan : Plan α}

/-- The plan reads a reference, whatever it finds elsewhere. -/
inductive Surely (r : Reference) : Plan α → Prop where
  | now {next : Value → Plan α} : Surely r (.read r next)
  | later {other : Reference} {next : Value → Plan α} (onward : ∀ v, Surely r (next v)) :
      Surely r (.read other next)

theorem Surely.answered {answers : Reference → Value → Prop} {a : α} (surely : plan.Surely r)
    (yields : plan.Yields answers a) : ∃ v, answers r v := by
  induction yields with
  | done => cases surely
  | read answered _ ih =>
    cases surely with
    | now => exact ⟨_, answered⟩
    | later onward => exact ih (onward _)

theorem Surely.bind (surely : plan.Surely r) (f : α → Plan β) : (plan >>= f).Surely r := by
  induction surely with
  | now => exact .now
  | later _ ih => exact .later ih

theorem Surely.after {f : α → Plan β} (surely : ∀ a, (f a).Surely r) : (plan >>= f).Surely r := by
  induction plan with
  | done a => exact surely a
  | read other next ih => exact .later ih

theorem surely_mapM {plans : List (Plan α)} (member : plan ∈ plans) (surely : plan.Surely r) :
    (plans.mapM id).Surely r := by
  induction plans with
  | nil => cases member
  | cons first plans ih =>
    rw [List.mapM_cons]
    rcases List.mem_cons.1 member with rfl | later
    · exact surely.bind _
    · exact .after fun _ => (ih later).bind _

theorem surely_applyFunction {function : Function} {plan : Plan Value} {arguments : List (Plan Value)}
    (isEager : function.isLazy = false) (member : plan ∈ arguments) (surely : plan.Surely r) :
    (applyFunction function arguments).Surely r := by
  unfold applyFunction
  unfold Function.isLazy at isEager
  split at isEager
  · next apply implementation =>
    rw [implementation]
    exact (surely_mapM member surely).bind _
  · cases isEager

theorem surely_callFunction {library : Library} {name : String} {plan : Plan Value}
    {arguments : List (Plan Value)} (accepted : library.accepts name arguments.length)
    (isEager : ∀ function, library.find? name = some function → function.isLazy = false)
    (member : plan ∈ arguments) (surely : plan.Surely r) :
    (callFunction library name arguments).Surely r := by
  unfold callFunction
  unfold Library.accepts at accepted
  cases found : library.find? name with
  | none => simp [found] at accepted
  | some function =>
    rw [found, Option.any_some, Option.isNone_iff_eq_none] at accepted
    simp only [Function.checkCount, accepted]
    exact surely_applyFunction (isEager function found) member surely

end Plan

section Expressions

variable {library : Library} {r : Reference}

mutual

/-- A strict expression reads every reference outside of refused calls. -/
theorem surely_plan (e : Expr) (strict : e.Strict library) (member : r ∈ e.evaluated library) :
    (e.plan library).Surely r := by
  match e with
  | .number _ | .text _ | .boolean _ => simp [Expr.evaluated] at member
  | .reference other =>
    cases List.mem_singleton.1 (by simpa [Expr.evaluated] using member)
    exact .now
  | .binary operator left right =>
    simp only [Expr.Strict] at strict
    simp only [Expr.evaluated, List.mem_append] at member
    simp only [Expr.plan, evaluateExpr]
    rcases member with inLeft | inRight
    · exact (surely_plan left strict.1 inLeft).bind _
    · exact .after fun _ => (surely_plan right strict.2 inRight).bind _
  | .negate operand =>
    simp only [Expr.Strict] at strict
    simp only [Expr.evaluated] at member
    simp only [Expr.plan, evaluateExpr]
    exact (surely_plan operand strict member).bind _
  | .call name arguments =>
    simp only [Expr.Strict] at strict
    simp only [Expr.evaluated] at member
    split at member
    · next accepted =>
      obtain ⟨plan, inArguments, surely⟩ := surely_plans arguments strict.2 member
      simp only [Expr.plan, evaluateExpr]
      -- An eager function evaluates all of its arguments, so also the one that reads the reference.
      rw [← length_evaluators (fun r => Plan.read r .done) arguments] at accepted
      exact Plan.surely_callFunction accepted strict.1 inArguments surely
    · cases member
termination_by sizeOf e

theorem surely_plans (es : List Expr) (strict : Expr.AllStrict library es)
    (member : r ∈ Expr.evaluatedOf library es) :
    ∃ plan ∈ evaluators library (fun r => .read r .done) es, Plan.Surely r plan := by
  match es with
  | [] => simp [Expr.evaluatedOf] at member
  | e :: es =>
    simp only [Expr.AllStrict] at strict
    simp only [Expr.evaluatedOf, List.mem_append] at member
    rw [evaluators]
    rcases member with here | later
    · exact ⟨_, List.mem_cons_self, surely_plan e strict.1 here⟩
    · obtain ⟨plan, inRest, surely⟩ := surely_plans es strict.2 later
      exact ⟨plan, List.mem_cons_of_mem _ inRest, surely⟩
termination_by sizeOf es

end

end Expressions
end PageCalc

import PageCalc.Evaluation.Expression

/-!
# What expressions read

The plan of an expression tells which reference it reads first, how it goes on with what it finds
there, and what it makes of it in the end. It is the expression itself, evaluated in the monad of
plans, and any other evaluation carries it out.
-/

set_option linter.unusedSectionVars false

namespace PageCalc

/-- Reads of references one after the other, and an outcome. -/
inductive Plan (α : Type) where
  | done (outcome : α)
  | read (r : Reference) (next : Value → Plan α)

namespace Plan

variable {α β : Type}

def bind (plan : Plan α) (f : α → Plan β) : Plan β :=
  match plan with
  | done a => f a
  | read r next => read r fun v => (next v).bind f

instance : Monad Plan where
  pure := done
  bind := bind

theorem bind_finished (plan : Plan α) : plan.bind done = plan := by
  induction plan with
  | done a => rfl
  | read r next ih => simp only [bind, ih]

theorem bind_bind {γ : Type} (plan : Plan α) (f : α → Plan β) (g : β → Plan γ) :
    (plan.bind f).bind g = plan.bind fun a => (f a).bind g := by
  induction plan with
  | done a => rfl
  | read r next ih => simp only [bind, ih]

instance : LawfulMonad Plan :=
  .mk' Plan (fun plan => bind_finished plan) (fun _ _ => rfl) (fun plan f g => bind_bind plan f g)

/-! ## Carrying a plan out -/

section Run

variable {m : Type → Type} [Monad m]

/-- Carries a plan out; `ask` reads the references. -/
def run (ask : Reference → m Value) : Plan α → m α
  | done a => pure a
  | read r next => do
    let v ← ask r
    (next v).run ask

variable {ask : Reference → m Value}

@[simp]
theorem run_pure (a : α) : (pure a : Plan α).run ask = pure a := rfl

variable [LawfulMonad m]

@[simp]
theorem run_bind (plan : Plan α) (f : α → Plan β) :
    (plan >>= f).run ask = plan.run ask >>= fun a => (f a).run ask := by
  induction plan with
  | done a => exact (pure_bind a fun a => (f a).run ask).symm
  | read r next ih =>
    calc ask r >>= (fun v => (next v >>= f).run ask)
      _ = ask r >>= fun v => (next v).run ask >>= fun a => (f a).run ask := by simp only [ih]
      _ = (ask r >>= fun v => (next v).run ask) >>= fun a => (f a).run ask :=
        (bind_assoc ..).symm

theorem run_mapM (plans : List (Plan α)) :
    (plans.mapM id).run ask = (plans.map (run ask)).mapM id := by
  induction plans with
  | nil => rfl
  | cons plan plans ih => simp only [List.map_cons, List.mapM_cons, run_bind, run_pure, ih, id]

theorem run_demand (arguments : List (Plan Value)) (demand : Demand) :
    (demand.run arguments).run ask = demand.run (arguments.map (run ask)) := by
  induction demand with
  | answer outcome => rfl
  | ask place next ih =>
    have sameArgument : ((arguments[place]?).getD (pure .blank)).run ask =
        ((arguments.map (run ask))[place]?).getD (pure .blank) := by
      rw [List.getElem?_map]
      cases arguments[place]? <;> rfl
    simp only [Demand.run, run_bind, sameArgument, ih]

theorem run_applyFunction (function : Function) (arguments : List (Plan Value)) :
    (applyFunction function arguments).run ask =
      applyFunction function (arguments.map (run ask)) := by
  unfold applyFunction
  cases function.implementation with
  | lazy demand => simp only [run_bind, run_demand, run_pure, List.length_map]
  | eager apply => simp only [run_bind, run_mapM, run_pure]

theorem run_callFunction (library : Library) (name : String) (arguments : List (Plan Value)) :
    (callFunction library name arguments).run ask =
      callFunction library name (arguments.map (run ask)) := by
  unfold callFunction
  rw [List.length_map]
  split
  · rfl
  · split
    · rfl
    · exact run_applyFunction ..

end Run

/-! ## Answers -/

variable {answers others : Reference → Value → Prop} {plan : Plan α} {a b : α}

/-- What a plan makes of answers to what it reads. -/
inductive Yields (answers : Reference → Value → Prop) : Plan α → α → Prop where
  | done {a : α} : Yields answers (.done a) a
  | read {r : Reference} {next : Value → Plan α} {v : Value} {a : α} (answered : answers r v)
      (rest : Yields answers (next v) a) : Yields answers (.read r next) a

theorem Yields.mono (yields : plan.Yields answers a) (weaker : ∀ r v, answers r v → others r v) :
    plan.Yields others a := by
  induction yields with
  | done => exact .done
  | read answered _ ih => exact .read (weaker _ _ answered) ih

/-- Answers that agree with each other lead to the same outcome. -/
theorem Yields.unique (yields : plan.Yields answers a) (yieldsToo : plan.Yields others b)
    (agree : ∀ r u v, answers r u → others r v → u = v) : a = b := by
  induction yields with
  | done => cases yieldsToo; rfl
  | read answered _ ih =>
    cases yieldsToo with
    | read answeredToo rest =>
      cases agree _ _ _ answered answeredToo
      exact ih rest

theorem Yields.of_bind {f : α → Plan β} {b : β} (yields : (plan >>= f).Yields answers b) :
    ∃ a, plan.Yields answers a ∧ (f a).Yields answers b := by
  induction plan with
  | done a => exact ⟨a, .done, yields⟩
  | read r next ih =>
    have yields : (Plan.read r fun v => next v >>= f).Yields answers b := yields
    cases yields with
    | read answered rest =>
      obtain ⟨a, first, onward⟩ := ih _ rest
      exact ⟨a, .read answered first, onward⟩

/-- Of plans that are carried out one after the other, each has its outcome among all of them. -/
theorem Yields.of_mapM {plans : List (Plan α)} {outcomes : List α} (member : plan ∈ plans)
    (yields : (plans.mapM id).Yields answers outcomes) : ∃ a ∈ outcomes, plan.Yields answers a := by
  induction plans generalizing outcomes with
  | nil => cases member
  | cons first plans ih =>
    rw [List.mapM_cons] at yields
    obtain ⟨a, isFirst, yields⟩ := yields.of_bind
    obtain ⟨others, areOthers, yields⟩ := yields.of_bind
    cases yields
    rcases List.mem_cons.1 member with rfl | later
    · exact ⟨a, List.mem_cons_self, isFirst⟩
    · obtain ⟨b, inOthers, isOutcome⟩ := ih later areOthers
      exact ⟨b, List.mem_cons_of_mem _ inOthers, isOutcome⟩

theorem yields_run (ask : Reference → Id Value) :
    plan.Yields (fun r v => (ask r).run = v) (plan.run ask).run := by
  induction plan with
  | done a => exact .done
  | read r next ih => exact .read rfl (ih (ask r).run)

end Plan

/-- The plan of an expression. -/
def Expr.plan (library : Library) (e : Expr) : Plan Value :=
  evaluateExpr library (fun r => .read r .done) e

/-- The arguments of a call are evaluated like any expressions. -/
theorem evaluators_eq_map {m : Type → Type} [Monad m] (library : Library) (read : Reference → m Value)
    (es : List Expr) : evaluators library read es = es.map (evaluateExpr library read) := by
  induction es with
  | nil => rfl
  | cons e es ih => rw [evaluators, ih, List.map_cons]

section Naturality

variable {m : Type → Type} [Monad m] [LawfulMonad m] {ask : Reference → m Value}

mutual

/-- Any evaluation of an expression carries its plan out. -/
theorem evaluateExpr_eq_run (library : Library) (e : Expr) :
    evaluateExpr library ask e = (e.plan library).run ask := by
  match e with
  | .number x | .text s | .boolean b => rfl
  | .reference r =>
    simp only [Expr.plan, evaluateExpr, Plan.run]
    exact (bind_pure (ask r)).symm
  | .binary operator left right =>
    simp only [evaluateExpr, evaluateExpr_eq_run library left, evaluateExpr_eq_run library right,
      Expr.plan, Plan.run_bind, Plan.run_pure]
  | .negate operand =>
    simp only [evaluateExpr, evaluateExpr_eq_run library operand, Expr.plan, Plan.run_bind,
      Plan.run_pure]
  -- The arguments of a call are plans as well, and are run as often as the function asks for them.
  | .call name arguments =>
    simp only [evaluateExpr, Expr.plan, Plan.run_callFunction, evaluators_eq_run library arguments]
termination_by sizeOf e

theorem evaluators_eq_run (library : Library) (es : List Expr) :
    evaluators library ask es =
      (evaluators library (fun r => .read r .done) es).map (Plan.run ask) := by
  match es with
  | [] => rfl
  | e :: es =>
    simp only [evaluators, List.map_cons, evaluators_eq_run library es,
      evaluateExpr_eq_run library e, Expr.plan]
termination_by sizeOf es

end

end Naturality

end PageCalc

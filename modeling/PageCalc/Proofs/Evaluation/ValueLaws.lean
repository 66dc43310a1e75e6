import PageCalc.Proofs.Evaluation.ExpressionReads

/-!
# Laws of values

A property that literals have and all operations and functions keep is a property of whatever an
expression makes of references that read values with the property. An expression reads no other
references than those outside of refused calls.
-/

namespace PageCalc

/-! ## Refused calls -/

/-- Whether there is a function of the name that takes that many arguments. -/
def Library.accepts (library : Library) (name : String) (count : Nat) : Bool :=
  (library.find? name).any fun function => (function.expectedInstead? count).isNone

theorem Library.accepts_of_counted {library : Library} {name : String} {function : Function} {count : Nat}
    (found : library.find? name = some function) (counted : function.checkCount count = .ok ()) :
    library.accepts name count := by
  unfold Function.checkCount at counted
  rw [accepts, found, Option.any_some]
  cases expected : function.expectedInstead? count with
  | none => rfl
  | some _ => simp [expected] at counted

mutual

/-- The references of an expression that stand outside of refused calls. -/
def Expr.evaluated (library : Library) : Expr → List Reference
  | .number _ | .text _ | .boolean _ => []
  | .reference r => [r]
  | .binary _ left right => left.evaluated library ++ right.evaluated library
  | .negate operand => operand.evaluated library
  | .call name arguments =>
    if library.accepts name arguments.length then evaluatedOf library arguments else []

def Expr.evaluatedOf (library : Library) : List Expr → List Reference
  | [] => []
  | e :: es => e.evaluated library ++ evaluatedOf library es

end

mutual

theorem Expr.evaluated_subset (library : Library) (e : Expr) : e.evaluated library ⊆ e.references := by
  match e with
  | .number _ | .text _ | .boolean _ | .reference _ =>
    simp only [Expr.evaluated, Expr.references]
    exact List.Subset.refl _
  | .binary _ left right =>
    simp only [Expr.evaluated, Expr.references]
    exact List.append_subset.2 ⟨
      List.Subset.trans (evaluated_subset library left) (List.subset_append_left ..),
      List.Subset.trans (evaluated_subset library right) (List.subset_append_right ..)⟩
  | .negate operand =>
    simp only [Expr.evaluated, Expr.references]
    exact evaluated_subset library operand
  | .call name arguments =>
    simp only [Expr.evaluated, Expr.references]
    split
    · exact evaluatedOf_subset library arguments
    · exact List.nil_subset _
termination_by sizeOf e

theorem Expr.evaluatedOf_subset (library : Library) (es : List Expr) :
    Expr.evaluatedOf library es ⊆ Expr.referencesOf es := by
  match es with
  | [] => exact List.Subset.refl _
  | e :: es =>
    simp only [Expr.evaluatedOf, Expr.referencesOf]
    exact List.append_subset.2 ⟨
      List.Subset.trans (evaluated_subset library e) (List.subset_append_left ..),
      List.Subset.trans (evaluatedOf_subset library es) (List.subset_append_right ..)⟩
termination_by sizeOf es

end

/-! ## Properties of values -/

/-- A lazy function answers with what has a property if its arguments have it. -/
inductive Demand.Keeps (Φ : Value → Prop) : Demand → Prop where
  | answer {outcome : Outcome} (holds : ∀ v, outcome = .ok v → Φ v) : Keeps Φ (.answer outcome)
  | ask {place : Nat} {next : Value → Demand} (onward : ∀ v, Φ v → (next v).Keeps Φ) :
      Keeps Φ (.ask place next)

/-- A function gives what has a property if its arguments have it. -/
def Implementation.Keeps (Φ : Value → Prop) : Implementation → Prop
  | .eager apply => ∀ vs, (∀ v ∈ vs, Φ v) → ∀ v, apply vs = .ok v → Φ v
  | .lazy demand => ∀ count, (demand count).Keeps Φ

/-- A property that literals have and all operations and functions keep. -/
structure ValueLaw (library : Library) (Φ : Value → Prop) : Prop where
  number : ∀ x, Φ (.number x)
  text : ∀ s, Φ (.text s)
  boolean : ∀ b, Φ (.boolean b)
  blank : Φ .blank
  fault : ∀ fault : FormulaError, Φ (.error fault.toCellError)
  firstError : ∀ v e, Φ v → v.firstError? = some e → Φ (.error e)
  checkFinite : ∀ v, Φ v → Φ v.checkFinite
  negate : ∀ v, Φ v → Φ v.negate
  apply : ∀ (operator : Operator) l r, Φ l → Φ r → Φ (operator.apply l r)
  function : ∀ name function, library.find? name = some function →
    function.implementation.Keeps Φ

theorem Demand.keeps_true (demand : Demand) : demand.Keeps fun _ => True := by
  induction demand with
  | answer outcome => exact .answer fun _ _ => trivial
  | ask place next ih => exact .ask fun v _ => ih v

theorem ValueLaw.trivial (library : Library) : ValueLaw library fun _ => True where
  number _ := .intro
  text _ := .intro
  boolean _ := .intro
  blank := .intro
  fault _ := .intro
  firstError _ _ _ _ := .intro
  checkFinite _ _ := .intro
  negate _ _ := .intro
  apply _ _ _ _ _ := .intro
  function _ function _ := by
    cases function.implementation with
    | eager apply => exact fun _ _ _ _ => .intro
    | lazy demand => exact fun count => Demand.keeps_true _

/-! ## Properties of plans -/

namespace Plan

variable {α β : Type} {S : Reference → Prop} {Φ : Value → Prop} {Ψ : α → Prop}

/-- The plan reads references in `S` only, and if it finds values in `Φ` there, its outcome is in
`Ψ`. -/
def Ensures (S : Reference → Prop) (Φ : Value → Prop) (Ψ : α → Prop) : Plan α → Prop
  | done a => Ψ a
  | read r next => S r ∧ ∀ v, Φ v → (next v).Ensures S Φ Ψ

theorem Ensures.mono {T : Reference → Prop} {plan : Plan α} (ensures : plan.Ensures S Φ Ψ)
    (wider : ∀ r, S r → T r) : plan.Ensures T Φ Ψ := by
  induction plan with
  | done a => exact ensures
  | read r next ih => exact ⟨wider r ensures.1, fun v holds => ih v (ensures.2 v holds)⟩

theorem Ensures.bind {Ω : β → Prop} {plan : Plan α} {f : α → Plan β}
    (first : plan.Ensures S Φ Ψ) (second : ∀ a, Ψ a → (f a).Ensures S Φ Ω) :
    (plan >>= f).Ensures S Φ Ω := by
  induction plan with
  | done a => exact second a first
  | read r next ih => exact ⟨first.1, fun v holds => ih v (first.2 v holds)⟩

/-- What a plan makes of answers with the property. -/
theorem Ensures.yields {plan : Plan α} {answers : Reference → Value → Prop} {a : α}
    (ensures : plan.Ensures S Φ Ψ) (yields : plan.Yields answers a)
    (holds : ∀ r v, S r → answers r v → Φ v) : Ψ a := by
  induction yields with
  | done => exact ensures
  | read answered _ ih => exact ih (ensures.2 _ (holds _ _ ensures.1 answered))

theorem Ensures.within {plan : Plan α} {answers : Reference → Value → Prop} {a : α}
    (ensures : plan.Ensures S (fun _ => True) Ψ) (yields : plan.Yields answers a) :
    plan.Yields (fun r v => S r ∧ answers r v) a := by
  induction yields with
  | done => exact .done
  | read answered _ ih => exact .read ⟨ensures.1, answered⟩ (ih (ensures.2 _ trivial))

theorem ensures_mapM (plans : List (Plan α)) (each : ∀ plan ∈ plans, plan.Ensures S Φ Ψ) :
    (plans.mapM id).Ensures S Φ fun outcomes => ∀ a ∈ outcomes, Ψ a := by
  induction plans with
  | nil => exact fun a member => absurd member List.not_mem_nil
  | cons plan plans ih =>
    obtain ⟨first, rest⟩ := List.forall_mem_cons.1 each
    rw [List.mapM_cons]
    refine first.bind fun a holds => (ih rest).bind fun outcomes others => ?_
    exact List.forall_mem_cons.2 ⟨holds, others⟩

theorem ensures_demand {arguments : List (Plan Value)} {demand : Demand} (blank : Φ .blank)
    (keeps : demand.Keeps Φ) (each : ∀ plan ∈ arguments, plan.Ensures S Φ Φ) :
    (demand.run arguments).Ensures S Φ fun outcome => ∀ v, outcome = .ok v → Φ v := by
  induction keeps with
  | answer holds => exact holds
  | @ask place next onward ih =>
    have asked : ((arguments[place]?).getD (pure .blank)).Ensures S Φ Φ := by
      cases given : arguments[place]? with
      | none => exact blank
      | some plan => exact each plan (List.mem_of_getElem? given)
    exact asked.bind ih

theorem ensures_outcome {library : Library} (law : ValueLaw library Φ) (outcome : Outcome) :
    (∀ v, outcome = .ok v → Φ v) → Ensures S Φ Φ (pure (match outcome with
      | .ok v => v.checkFinite
      | .error fault => .error fault.toCellError)) := by
  intro holds
  cases outcome with
  | ok v => exact law.checkFinite v (holds v rfl)
  | error fault => exact law.fault fault

theorem ensures_applyFunction {library : Library} (law : ValueLaw library Φ) {function : Function}
    {arguments : List (Plan Value)} (keeps : function.implementation.Keeps Φ)
    (each : ∀ plan ∈ arguments, plan.Ensures S Φ Φ) :
    (applyFunction function arguments).Ensures S Φ Φ := by
  unfold applyFunction
  cases implementation : function.implementation with
  | lazy demand =>
    rw [implementation] at keeps
    exact (ensures_demand law.blank (keeps _) each).bind (ensures_outcome law)
  | eager apply =>
    rw [implementation] at keeps
    refine (ensures_mapM arguments each).bind fun values holds => ?_
    rw [pure_bind]
    refine ensures_outcome law _ fun v outcome => ?_
    split at outcome
    -- The first error among the arguments is given back unchanged.
    · next e found =>
      cases outcome
      obtain ⟨argument, member, found⟩ := List.exists_of_findSome?_eq_some found
      exact law.firstError argument e (holds argument member) found
    · exact keeps values holds v outcome

theorem ensures_callFunction {library : Library} (law : ValueLaw library Φ) {name : String}
    {arguments : List (Plan Value)}
    (each : library.accepts name arguments.length → ∀ plan ∈ arguments, plan.Ensures S Φ Φ) :
    (callFunction library name arguments).Ensures S Φ Φ := by
  unfold callFunction
  split
  · exact law.fault _
  · next function found =>
    split
    · exact law.fault _
    · next counted =>
      -- A call that is counted as right is accepted, so its arguments may be read.
      exact ensures_applyFunction law (law.function name function found)
        (each (Library.accepts_of_counted found counted))

end Plan

section Expressions

variable {library : Library} {Φ : Value → Prop}

theorem length_evaluators {m : Type → Type} [Monad m] (read : Reference → m Value) (es : List Expr) :
    (evaluators library read es).length = es.length := by
  rw [evaluators_eq_map, List.length_map]

mutual

/-- An expression reads the references outside of refused calls, and keeps every law. -/
theorem ensures_plan (law : ValueLaw library Φ) (e : Expr) :
    (e.plan library).Ensures (· ∈ e.evaluated library) Φ Φ := by
  match e with
  | .number x => exact law.number x
  | .text s => exact law.text s
  | .boolean b => exact law.boolean b
  | .reference r => exact ⟨List.mem_singleton.2 rfl, fun v holds => holds⟩
  | .binary operator left right =>
    simp only [Expr.plan, evaluateExpr, Expr.evaluated]
    refine ((ensures_plan law left).mono fun r => List.mem_append_left _).bind fun l leftHolds => ?_
    refine ((ensures_plan law right).mono fun r => List.mem_append_right _).bind ?_
    exact fun r rightHolds => law.apply operator l r leftHolds rightHolds
  | .negate operand =>
    simp only [Expr.plan, evaluateExpr, Expr.evaluated]
    exact (ensures_plan law operand).bind law.negate
  | .call name arguments =>
    simp only [Expr.plan, evaluateExpr, Expr.evaluated]
    -- A refused call reads nothing, an accepted one no more than its arguments do.
    refine Plan.ensures_callFunction law fun accepted => ?_
    rw [length_evaluators] at accepted
    rw [if_pos accepted]
    exact ensures_plans law arguments
termination_by sizeOf e

theorem ensures_plans (law : ValueLaw library Φ) (es : List Expr) :
    ∀ plan ∈ evaluators library (fun r => .read r .done) es,
      Plan.Ensures (· ∈ Expr.evaluatedOf library es) Φ Φ plan := by
  match es with
  | [] => simp [evaluators]
  | e :: es =>
    rw [evaluators, List.forall_mem_cons]
    simp only [Expr.evaluatedOf]
    refine ⟨(ensures_plan law e).mono fun r => List.mem_append_left _, fun plan member => ?_⟩
    exact (ensures_plans law es plan member).mono fun r => List.mem_append_right _
termination_by sizeOf es

end

theorem yields_within {e : Expr} {answers : Reference → Value → Prop} {v : Value}
    (yields : (e.plan library).Yields answers v) :
    (e.plan library).Yields (fun r u => r ∈ e.evaluated library ∧ answers r u) v :=
  (ensures_plan (ValueLaw.trivial library) e).within yields

end Expressions
end PageCalc

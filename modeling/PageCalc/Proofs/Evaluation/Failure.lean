import PageCalc.Proofs.Evaluation.Strict
import PageCalc.Proofs.Formula.Occurrence
import PageCalc.Proofs.Value.Finished

/-!
# What fails with its references

An operation on a value with an error in it gives an error, and so does a call of a function that is not
lazy, or that is not accepted. An expression without calls of lazy functions therefore fails as soon as one
of its references does, wherever that stands.
-/

namespace PageCalc

namespace Value

variable {u v : Value}

/-- The value is an error, or there is one in it. -/
inductive Failed : Value → Prop where
  | error {e : CellError} : Failed (error e)
  | list {vs : List Value} {v : Value} (member : v ∈ vs) (failed : Failed v) : Failed (list vs)

theorem Failed.exists_firstError? (failed : v.Failed) : ∃ e, v.firstError? = some e := by
  have isError : ∃ u ∈ v.members, u.isError := by
    induction failed with
    | @error e => exact ⟨.error e, by simp [members], rfl⟩
    | list member _ ih =>
      obtain ⟨u, inside, isError⟩ := ih
      exact ⟨u, by rw [members]; exact List.mem_flatMap.2 ⟨_, member, inside⟩, isError⟩
  exact Option.isSome_iff_exists.1 (List.findSome?_isSome_iff.2 isError)

/-- A value with an error in it does not stand for any other single value. -/
theorem Failed.scalar (failed : v.Failed) : ∃ e, v.scalar = .error e := by
  fun_induction Value.scalar v with
  | case1 => cases failed with | list member => cases member
  | case2 v ih =>
    cases failed with
    | list member failed =>
      cases List.mem_singleton.1 member
      exact ih failed
  | case3 => exact ⟨_, rfl⟩
  | case4 v notEmpty notOne notMany =>
    cases failed with
    | error => exact ⟨_, rfl⟩
    | @list vs u member failed =>
      -- Lists of every length were taken apart before.
      cases vs with
      | nil => exact absurd rfl notEmpty
      | cons v vs =>
        cases vs with
        | nil => exact absurd rfl (notOne v)
        | cons v' vs => exact absurd rfl (notMany v v' vs)

theorem Failed.negate (failed : v.Failed) : v.negate.Failed := by
  obtain ⟨e, isError⟩ := failed.scalar
  rw [Value.negate, isError]
  exact .error

theorem Failed.apply_left (failed : u.Failed) (operator : Operator) : (operator.apply u v).Failed := by
  obtain ⟨e, isError⟩ := failed.scalar
  rw [Operator.apply, isError]
  exact .error

theorem Failed.apply_right (failed : v.Failed) (operator : Operator) : (operator.apply u v).Failed := by
  obtain ⟨e, isError⟩ := failed.scalar
  unfold Operator.apply
  rw [isError]
  split
  · exact .error
  · exact .error
  · next noError => exact absurd rfl (noError e)

theorem Failed.finish (failed : v.Failed) : ∃ e, v.finish = .error e := by
  obtain ⟨e, isError⟩ := failed.scalar
  refine ⟨e, ?_⟩
  rw [Value.finish, isError]
  rfl

end Value

namespace Plan

variable {answers : Reference → Value → Prop} {plan : Plan Value} {arguments : List (Plan Value)} {v : Value}

/-- A function that is not lazy fails with any of its arguments. -/
theorem failed_of_applyFunction {function : Function} (isEager : function.isLazy = false)
    (member : plan ∈ arguments) (failing : ∀ u, plan.Yields answers u → u.Failed)
    (yields : (applyFunction function arguments).Yields answers v) : v.Failed := by
  unfold applyFunction at yields
  unfold Function.isLazy at isEager
  split at isEager
  · next apply implementation =>
    rw [implementation] at yields
    obtain ⟨values, areValues, yields⟩ := yields.of_bind
    obtain ⟨u, inValues, isValue⟩ := areValues.of_mapM member
    obtain ⟨e, isError⟩ := (failing u isValue).exists_firstError?
    -- Some argument has an error, so the function is not even applied.
    have found : (values.findSome? Value.firstError?).isSome :=
      List.findSome?_isSome_iff.2 ⟨u, inValues, by rw [isError]; rfl⟩
    obtain ⟨first, isFirst⟩ := Option.isSome_iff_exists.1 found
    rw [isFirst] at yields
    cases yields
    exact .error
  · cases isEager

/-- A call of a function that is not lazy fails with any of its arguments, whether or not it is accepted. -/
theorem failed_of_callFunction {library : Library} {name : String}
    (isEager : ∀ function, library.find? name = some function → function.isLazy = false)
    (member : plan ∈ arguments) (failing : ∀ u, plan.Yields answers u → u.Failed)
    (yields : (callFunction library name arguments).Yields answers v) : v.Failed := by
  unfold callFunction at yields
  split at yields
  · cases yields
    exact .error
  · next function found =>
    split at yields
    · cases yields
      exact .error
    · exact failed_of_applyFunction (isEager function found) member failing yields

end Plan

section Expressions

variable {library : Library} {answers : Reference → Value → Prop} {r : Reference}

theorem mem_evaluators {m : Type → Type} [Monad m] {read : Reference → m Value} {e : Expr} {es : List Expr}
    (member : e ∈ es) : evaluateExpr library read e ∈ evaluators library read es := by
  rw [evaluators_eq_map]
  exact List.mem_map_of_mem member

theorem Expr.AllStrict.of_mem {e : Expr} {es : List Expr} (strict : Expr.AllStrict library es)
    (member : e ∈ es) : e.Strict library := by
  induction es with
  | nil => cases member
  | cons first es ih =>
    simp only [Expr.AllStrict] at strict
    rcases List.mem_cons.1 member with rfl | later
    · exact strict.1
    · exact ih strict.2 later

/-- An expression without calls of lazy functions fails with any of its references. -/
theorem Expr.Contains.failed {e : Expr} (contains : e.Contains r) (strict : e.Strict library)
    (failing : ∀ u, answers r u → u.Failed) {v : Value} (yields : (e.plan library).Yields answers v) :
    v.Failed := by
  -- Along the way to the reference: what is strict computes all its operands.
  induction contains generalizing v with
  | here =>
    cases yields with
    | read answered rest =>
      cases rest
      exact failing _ answered
  | left _ ih =>
    simp only [Expr.Strict] at strict
    simp only [Expr.plan, evaluateExpr] at yields
    obtain ⟨l, left, yields⟩ := yields.of_bind
    obtain ⟨r, right, yields⟩ := yields.of_bind
    cases yields
    exact (ih strict.1 left).apply_left _
  | right _ ih =>
    simp only [Expr.Strict] at strict
    simp only [Expr.plan, evaluateExpr] at yields
    obtain ⟨l, left, yields⟩ := yields.of_bind
    obtain ⟨r, right, yields⟩ := yields.of_bind
    cases yields
    exact (ih strict.2 right).apply_right _
  | operand _ ih =>
    simp only [Expr.Strict] at strict
    simp only [Expr.plan, evaluateExpr] at yields
    obtain ⟨u, operand, yields⟩ := yields.of_bind
    cases yields
    exact (ih strict operand).negate
  | argument isArgument _ ih =>
    simp only [Expr.Strict] at strict
    simp only [Expr.plan, evaluateExpr] at yields
    exact Plan.failed_of_callFunction strict.1 (mem_evaluators isArgument)
      (fun u yields => ih (strict.2.of_mem isArgument) yields) yields

end Expressions
end PageCalc

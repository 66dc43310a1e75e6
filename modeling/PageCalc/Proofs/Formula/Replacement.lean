import PageCalc.Evaluation.Expression

/-!
# Replaced subexpressions

One expression is made into another one by replacing subexpressions, any number of them and at any
depth. What each replacement keeps, the whole expression keeps as well.
-/

namespace PageCalc

mutual

/-- The second expression is the first one with some subexpressions replaced. -/
inductive Expr.Replaced (base : Expr → Expr → Prop) : Expr → Expr → Prop where
  | same (e : Expr) : Replaced base e e
  | here {e e' : Expr} (replaced : base e e') : Replaced base e e'
  | binary (operator : Operator) {left left' right right' : Expr} (first : Replaced base left left')
      (second : Replaced base right right') :
      Replaced base (.binary operator left right) (.binary operator left' right')
  | negate {operand operand' : Expr} (inner : Replaced base operand operand') :
      Replaced base (.negate operand) (.negate operand')
  | call (name : String) {arguments arguments' : List Expr} (each : ReplacedAll base arguments arguments') :
      Replaced base (.call name arguments) (.call name arguments')

/-- The expressions of the second list are those of the first one with some subexpressions replaced. -/
inductive Expr.ReplacedAll (base : Expr → Expr → Prop) : List Expr → List Expr → Prop where
  | nil : ReplacedAll base [] []
  | cons {e e' : Expr} {es es' : List Expr} (head : Replaced base e e') (tail : ReplacedAll base es es') :
      ReplacedAll base (e :: es) (e' :: es')

end

section Evaluation

variable {m : Type → Type} [Monad m] {library : Library} {read : Reference → m Value}
variable {base : Expr → Expr → Prop}

mutual

/-- Replacements that are evaluated in the same way leave the evaluation of the whole as it is. -/
theorem Expr.Replaced.evaluateExpr_eq {e e' : Expr} (replaced : e.Replaced base e')
    (same : ∀ a b, base a b → evaluateExpr library read a = evaluateExpr library read b) :
    evaluateExpr library read e = evaluateExpr library read e' := by
  cases replaced with
  | same => rfl
  | here isBase => exact same e e' isBase
  | binary operator first second =>
    simp only [evaluateExpr, first.evaluateExpr_eq same, second.evaluateExpr_eq same]
  | negate inner => simp only [evaluateExpr, inner.evaluateExpr_eq same]
  | call name each => simp only [evaluateExpr, each.evaluators_eq same]
termination_by sizeOf e

theorem Expr.ReplacedAll.evaluators_eq {es es' : List Expr} (replaced : Expr.ReplacedAll base es es')
    (same : ∀ a b, base a b → evaluateExpr library read a = evaluateExpr library read b) :
    evaluators library read es = evaluators library read es' := by
  cases replaced with
  | nil => rfl
  | cons head tail => simp only [evaluators, head.evaluateExpr_eq same, tail.evaluators_eq same]
termination_by sizeOf es

end

end Evaluation
end PageCalc

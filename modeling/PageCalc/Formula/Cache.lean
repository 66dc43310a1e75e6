import PageCalc.Formula.Parser
import Std.Data.ExtTreeMap

/-!
# Parsed formulas

Keeps the outcome of parsing a formula by its text, so that equal formulas are parsed once. What
is kept is always what parsing gives.
-/

namespace PageCalc

abbrev ParseOutcome := Except FormulaError Expr

/-- The outcomes for the formulas parsed so far. -/
structure ParseCache where
  outcomes : Std.ExtTreeMap String ParseOutcome
  faithful : ∀ (formula : String) (outcome : ParseOutcome),
    outcomes[formula]? = some outcome → outcome = Expr.ofFormula formula

namespace ParseCache

def empty : ParseCache := ⟨∅, by simp⟩

instance : Inhabited ParseCache := ⟨empty⟩

/-- The cache with the outcome for one more formula. -/
def insert (cache : ParseCache) (formula : String) (outcome : ParseOutcome)
    (parsed : outcome = Expr.ofFormula formula) : ParseCache where
  outcomes := cache.outcomes.insert formula outcome
  faithful other known h := by
    rw [Std.ExtTreeMap.getElem?_insert] at h
    split at h
    · next same =>
      cases Std.LawfulEqOrd.eq_of_compare same
      rw [← parsed]
      exact (Option.some.inj h).symm
    · exact cache.faithful other known h

/-- The outcome for a formula, and the cache that holds it from now on. -/
def parse (cache : ParseCache) (formula : String) : ParseOutcome × ParseCache :=
  match cache.outcomes[formula]? with
  | some outcome => (outcome, cache)
  | none =>
    let outcome := Expr.ofFormula formula
    (outcome, cache.insert formula outcome rfl)

def size (cache : ParseCache) : Nat := cache.outcomes.size

def isEmpty (cache : ParseCache) : Bool := cache.outcomes.isEmpty

end ParseCache
end PageCalc

import PageCalc.Proofs.Evaluation.Refinement
import PageCalc.Proofs.Formula.Spelling
import PageCalc.Proofs.Value.Finished

/-!
# Where an evaluation enters the graph

A formula that refers to a cell shows what the evaluation of the whole sheet shows in the cell, as
long as both find the same cells on those cycles that go across pages.
-/

namespace PageCalc

open Collection

/-! ## Finished values -/

theorem Input.finished_of_literal {raw : String} {v : Value} (nonblank : raw ≠ "")
    (typed : (Input.ofText raw).literal? = some v) : v.Finished := by
  unfold ofText at typed
  split at typed
  · next isBlank => exact absurd (String.isEmpty_iff.1 isBlank) nonblank
  · split at typed
    · cases typed
    · split at typed
      · next x isNumber =>
        cases typed
        exact .number (Number.isFinite_of_ofLiteral? isNumber)
      · cases typed
        exact .text

theorem Atlas.Means.finished {π : Type} {atlas : Atlas π} {known marked : Site π → Prop} {s : Site π}
    {v : Value} (nonblank : s.address ∈ (atlas.sheet s.page).inputs)
    (means : atlas.Means known marked s v) : v.Finished := by
  cases means with
  | literal typed =>
    obtain ⟨raw, inputs⟩ := mem_iff_exists.1 nonblank
    refine Input.finished_of_literal ((atlas.sheet s.page).nonempty s.address raw inputs) ?_
    simpa [Atlas.input, Sheet.input, Sheet.get, inputs] using typed
  | fault | circular => exact .error
  | formula => exact Value.finish_finished _

namespace Workbook

variable {w : Workbook} {a : Address} {e : Expr} {s t : Site Page}

/-- The evaluations of the sheet and of an expression do not differ in which cells they find on
cycles that go across pages, as far as these can be reached from a site. -/
def SameVerdicts (w : Workbook) (e : Expr) (s : Site Page) : Prop :=
  ∀ t, w.atlas.Reaches s t → w.atlas.DependsOn t t → ¬ w.atlas.OnCycle t →
    (w.finalState .empty).Known t → (w.finalStateOf e).Known t →
    ((w.finalState .empty).Marked w t ↔ (w.finalStateOf e).Marked w t)

/-- The evaluations of the sheet and of an expression give the same values to the cells that both
finish, as far as these can be reached from a site. -/
def SameValues (w : Workbook) (e : Expr) (s : Site Page) : Prop :=
  ∀ t v v', w.atlas.Reaches s t → (w.finalState .empty).Holds t v → (w.finalStateOf e).Holds t v' →
    v = v'

theorem SameVerdicts.marked_iff (same : w.SameVerdicts e s) (coherent : w.Coherent)
    (runs : w.pass.Runs (w.begin .empty) (w.finalState .empty))
    (runsToo : (Pass.ofFormula w none).Runs (w.begin .empty) (w.finalStateOf e))
    (reached : w.atlas.Reaches s t) (known : (w.finalState .empty).Known t)
    (knownToo : (w.finalStateOf e).Known t) :
    (w.finalState .empty).Marked w t ↔ (w.finalStateOf e).Marked w t := by
  by_cases onCycle : w.atlas.OnCycle t
  · exact iff_of_true (Pass.Steps.marked_of_onCycle coherent runs.steps known onCycle)
      (Pass.Steps.marked_of_onCycle coherent runsToo.steps knownToo onCycle)
  · by_cases depends : w.atlas.DependsOn t t
    · exact same t reached depends onCycle known knownToo
    · exact iff_of_false (fun marked => depends marked.2) fun marked => depends marked.2

/-- What two states mean by a site that can be reached is the same if the verdicts are. -/
theorem SameVerdicts.eq_of_means {v v' : Value} (same : w.SameVerdicts e s) (coherent : w.Coherent)
    (runs : w.pass.Runs (w.begin .empty) (w.finalState .empty))
    (runsToo : (Pass.ofFormula w none).Runs (w.begin .empty) (w.finalStateOf e))
    (reached : w.atlas.Reaches s t)
    (means : w.atlas.Means (w.finalState .empty).Known ((w.finalState .empty).Marked w) t v)
    (meansToo : w.atlas.Means (w.finalStateOf e).Known ((w.finalStateOf e).Marked w) t v') :
    v = v' := by
  have closed : w.atlas.Closed (w.atlas.Reaches s) := fun _ _ path reads => path.tail reads
  -- Verdicts agree on cycles inside pages anyway, and off cycles there are none.
  have agree (u : Site Page) (reachedU : w.atlas.Reaches s u) (known : (w.finalState .empty).Known u)
      (knownToo : (w.finalStateOf e).Known u) :
      (w.finalState .empty).Marked w u ↔ (w.finalStateOf e).Marked w u :=
    same.marked_iff coherent runs runsToo reachedU known knownToo
  exact means.unique closed agree reached meansToo

theorem sameVerdicts_iff_sameValues (coherent : w.Coherent)
    (runs : w.pass.Runs (w.begin .empty) (w.finalState .empty))
    (runsToo : (Pass.ofFormula w none).Runs (w.begin .empty) (w.finalStateOf e)) :
    w.SameVerdicts e s ↔ w.SameValues e s := by
  constructor
  · rintro same t v v' reached ⟨key, known, rfl⟩ ⟨other, knownToo, isT⟩
    have means := Pass.Steps.explained coherent rfl runs.steps key v known
    have meansToo := Pass.Steps.explained coherent rfl runsToo.steps other v' knownToo
    rw [isT] at meansToo
    exact same.eq_of_means coherent runs runsToo reached means meansToo
  -- A site that both hold holds one value, so that one is marked in both states or in none.
  · intro same t reached depends _ known knownToo
    obtain ⟨v, holds⟩ := known.exists_holds
    obtain ⟨v', holdsToo⟩ := knownToo.exists_holds
    constructor
    · rintro ⟨circular, -⟩
      obtain rfl := same t _ _ reached circular holdsToo
      exact ⟨holdsToo, depends⟩
    · rintro ⟨circular, -⟩
      obtain rfl := same t _ _ reached holds circular
      exact ⟨holds, depends⟩

/-- If the depth is not limited, the evaluations of the sheet and of a formula that refers to a cell
agree on whatever the cell leads to if and only if both find the same cells on those cycles that go
across pages. Then the formula shows what the sheet shows in the cell, an error as a propagated one. -/
theorem evaluateFormula_text (w : Workbook) (a : Address) (coherent : w.Coherent)
    (typed : a ∈ w.sheet.inputs) (unused : w.DepthUnused .empty)
    (unusedToo : w.DepthUnusedBy (.reference (.cell a))) :
    (w.SameVerdicts (.reference (.cell a)) ⟨w.rootPage, a⟩ ↔
      w.SameValues (.reference (.cell a)) ⟨w.rootPage, a⟩) ∧
    (w.SameVerdicts (.reference (.cell a)) ⟨w.rootPage, a⟩ →
      (w.evaluate[a]?).map CellValue.propagated = some (w.evaluateFormula ("=" ++ a.text)).1) := by
  obtain ⟨runs, found⟩ := unused.run
  obtain ⟨runsToo, yields⟩ := unusedToo.run
  refine ⟨sameVerdicts_iff_sameValues coherent runs runsToo, fun same => ?_⟩
  rw [evaluateFormula_of_parsed (Expr.ofFormula_text (w.sheet.inBounds_of_mem typed)), evaluate]
  obtain ⟨v, answers, shown⟩ := found a typed
  have valid := runs.valid (w.pass.valid_begin .empty)
  have valid' := runsToo.valid ((Pass.ofFormula w none).valid_begin .empty)
  have means := answers.root_means valid (Pass.Steps.explained coherent rfl runs.steps) rfl runs.stack
  -- The formula only reads the cell, so it gives what this means, as a propagated value.
  generalize ((w.evaluation (.reference (.cell a))).run (w.begin .empty)).1 = x at yields ⊢
  have yields : (Plan.read (.cell a) .done).Yields _ x := yields
  cases yields with
  | read answered rest =>
    cases rest
    obtain ⟨-, u, answersToo, rfl⟩ := answered
    have meansToo := answersToo.root_means valid' (Pass.Steps.explained coherent rfl runsToo.steps) rfl
      runsToo.stack
    obtain rfl := same.eq_of_means coherent runs runsToo .refl means meansToo
    rw [shown, (means.finished typed).finish_propagated]
    rfl

/-- A formula that refers to a cell shows what is shown there, although the cell reads another page and another
cell of its page lies on a cycle. -/
theorem evaluateFormula_text_cycleBeside :
    (cycleBeside.evaluate[(⟨0, 0⟩ : Address)]?).map CellValue.propagated =
      some (cycleBeside.evaluateFormula ("=" ++ Address.text ⟨0, 0⟩)).1 := by
  have typed : (⟨0, 0⟩ : Address) ∈ cycleBeside.sheet.inputs := by decide +kernel
  have unused : (∀ cache, cycleBeside.DepthUnused cache) ∧ ∀ e, cycleBeside.DepthUnusedBy e :=
    depthUnused_of_shelf rfl (by decide +kernel)
  obtain ⟨-, agree⟩ := evaluateFormula_text cycleBeside ⟨0, 0⟩ (coherent_ofTwo _ _) typed (unused.1 _) (unused.2 _)
  -- No cycle goes across pages, so the evaluations cannot differ in what they find of one.
  exact agree fun t reached depends offCycle =>
    absurd (cyclesInside_cycleBeside.onCycle ⟨⟨0, 0⟩, reached⟩ depends) offCycle

end Workbook
end PageCalc

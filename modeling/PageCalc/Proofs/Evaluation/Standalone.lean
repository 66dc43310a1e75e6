import PageCalc.Proofs.Evaluation.Refinement
import PageCalc.Proofs.Evaluation.RootAnswers

/-!
# Formulas that stand in no cell

The references of a formula that stands in no cell are read one after the other while no formula is
under evaluation. Between two reads every finished cell means its value, as in the evaluation of a
sheet.
-/

namespace PageCalc

variable {α : Type} {w : Workbook} {p p' : Progress} {r : Reference} {v : Value}

/-- While no formula is under evaluation it does not matter who asks for the next one. -/
theorem Pass.Valid.of_idle {entry entry' : CellKey → Prop} {limit? limit?' : Option Nat}
    (valid : Pass.Valid ⟨w, entry, limit?⟩ p) (idle : p.stack = []) : Pass.Valid ⟨w, entry', limit?'⟩ p :=
  { valid with
    rooted := fun key last => by simp [idle] at last }

/-- The reads of what a reference shows while no formula is under evaluation. -/
def Pass.ofReference (w : Workbook) (p : Progress) (r : Reference) : Pass :=
  ⟨w, fun t => t ∈ (p.atlas w).targets Progress.root r, some w.options.maxDepth⟩

/-- No walk from a site that a reference on the root page shows goes across pages as often as the limit on
the depth. -/
def Workbook.Shallow (w : Workbook) (r : Reference) : Prop :=
  ∀ s ∈ w.atlas.targets w.rootPage r, ∀ (n : Nat) (t : Site Page), w.atlas.Crosses s n t →
    n < w.options.maxDepth

/-- A state in which no formula is under evaluation, and what is finished means its value. -/
structure Progress.Idle (w : Workbook) (p : Progress) : Prop where
  valid : (Pass.ofFormula w none).Valid p
  faithful : p.Faithful w
  explained : p.Explained w
  idle : p.stack = []

namespace Progress.Idle

theorem start (w : Workbook) (cache : ParseCache) : (w.begin cache).Idle w where
  valid := (Pass.ofFormula w none).valid_begin cache
  faithful := begin_faithful w cache
  explained := (Pass.ofFormula w none).explained_begin cache
  idle := rfl

theorem runs {entry : CellKey → Prop} (before : p.Idle w) (coherent : w.Coherent)
    (runs : Pass.Runs ⟨w, entry, none⟩ p p') : p'.Idle w := by
  have valid : Pass.Valid ⟨w, entry, none⟩ p := before.valid.of_idle before.idle
  have idle : p'.stack = [] := runs.stack.trans before.idle
  exact ⟨(runs.valid valid).of_idle idle, Pass.Steps.faithful coherent valid runs.steps before.faithful,
    Pass.Steps.stays_explained coherent rfl valid before.faithful before.explained runs.steps, idle⟩

/-- There is room for whatever is read under a reference, if its sites do not nest too deeply. -/
theorem roomy (before : p.Idle w) (coherent : w.Coherent) (shallow : w.Shallow r)
    (steps : (Pass.ofReference w p r).Steps p p') : (Pass.ofReference w p r).Roomy p' := by
  have valid : (Pass.ofReference w p r).Valid p := before.valid.of_idle before.idle
  have valid' := Pass.Steps.valid valid steps
  have faithful := Pass.Steps.faithful coherent valid steps before.faithful
  refine valid'.roomy_of_crosses faithful ?_
  rintro key n t isEntry - walk limit isLimit
  cases isLimit
  -- What the reference shows it still shows after some steps.
  have target := (Pass.Steps.grows valid steps).target valid.toPlaced (Pass.root_loaded valid) isEntry
  have target := Progress.site_of_target faithful valid'.toPlaced target
  rw [Progress.pageAt_root valid'.toPlaced] at target
  exact shallow _ target n t walk

theorem read (before : p.Idle w) (coherent : w.Coherent) (shallow : w.Shallow r)
    (runs : (Pass.ofReference w p r).Runs p p')
    (answers : (Pass.ofReference w p r).AnswersReference p' root r v) :
    p'.Idle w ∧ (w.atlas.sight w.rootPage r).Gives (w.atlas.Means p'.Known (p'.Marked w)) v := by
  have roomy (q : Progress) (steps : (Pass.ofReference w p r).Steps p q) :=
    before.roomy coherent shallow steps
  have after : p'.Idle w := before.runs coherent (runs.unlimited fun q steps _ => roomy q steps)
  have answers : Pass.AnswersReference ⟨w, _, none⟩ p' root r v := answers.unlimited (roomy p' runs.steps)
  have means := answers.means (after.valid.of_idle after.idle) after.faithful rfl after.explained
    (by simp [after.idle])
  rw [Progress.pageAt_root after.valid.toPlaced] at means
  exact ⟨after, means⟩

/-- A reference shows values that its sites mean. -/
theorem after_readReference (before : p.Idle w.rooted) (coherent : w.rooted.Coherent)
    (shallow : w.rooted.Shallow r) :
    After (readReference w (readCell w w.options.maxDepth) root r) p fun v p' =>
      p'.Idle w.rooted ∧ p.Grows p' ∧ (w.rooted.atlas.sight w.rootPage r).Gives
        (w.rooted.atlas.Means p'.Known (p'.Marked w.rooted)) v := by
  let located := Pass.locate w p r
  let pass := Pass.ofReference w located r
  have valid {entry : CellKey → Prop} {limit? : Option Nat} : Pass.Valid ⟨w, entry, limit?⟩ p :=
    Pass.valid_rooted_iff.1 (before.valid.of_idle before.idle)
  have ready : pass.Ready w.options.maxDepth p :=
    ⟨valid, by rw [before.idle]; exact congrArg some (Nat.zero_add _).symm⟩
  have locating : pass.Runs p located := .locate p r
  have there : located.Idle w.rooted := by
    have freely : (Pass.ofFormula w none).Runs p located := .locate p r
    exact before.runs coherent (freely.rooted valid)
  have asks (t : CellKey) (target : t ∈ (located.atlas w).targets root r) : pass.Asked located t := by
    rw [Pass.Asked, there.idle]
    exact target
  have follows := pass.readCell_follows w.options.maxDepth
  refine (Pass.after_readReference follows ready (Pass.root_loaded ready.valid) asks).mono ?_
  rintro v p' ⟨runs, answers⟩
  have means := there.read coherent shallow (runs.rooted (locating.valid valid)) answers.rooted
  exact ⟨means.1, (locating.trans runs).grows valid, means.2⟩

/-- The references of a plan are read one after the other. -/
theorem after_plan {plan : Plan α} {S : Reference → Prop} (before : p.Idle w.rooted)
    (coherent : w.rooted.Coherent) (ensures : plan.Ensures S (fun _ => True) fun _ => True)
    (shallow : ∀ r, S r → w.rooted.Shallow r) :
    After (plan.run (readReference w (readCell w w.options.maxDepth) root)) p fun a p' =>
      p'.Idle w.rooted ∧ p.Grows p' ∧ plan.Yields (fun r => (w.rooted.atlas.sight w.rootPage r).Gives
        (w.rooted.atlas.Means p'.Known (p'.Marked w.rooted))) a := by
  induction plan generalizing p with
  | done a => exact .pure ⟨before, .refl p, .done⟩
  | read r next ih =>
    refine (before.after_readReference coherent (shallow r ensures.1)).bind ?_
    rintro v q ⟨between, grows, gives⟩
    refine (ih v between (ensures.2 v trivial)).mono ?_
    rintro a p' ⟨after, grows', yields⟩
    -- What a site was found to mean it means at any later time.
    have gives := gives.mono fun s _ u means => grows'.means between.valid.toKept after.valid.toKept means
    exact ⟨after, grows.trans grows', .read gives yields⟩

end Progress.Idle
end PageCalc

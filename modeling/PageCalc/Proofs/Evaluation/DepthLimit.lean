import Mathlib.Data.List.Perm.Subperm
import PageCalc.Proofs.Evaluation.OtherMonads

/-!
# The limit on the depth

Where there is room for every formula that is asked for, an evaluation with a limit on the depth goes
on as one without a limit, and as one with any higher limit. There is such room if the limit is not below
the number of the formulas on the pages that are loaded in the end.
-/

namespace PageCalc

open Collection

namespace Progress

variable {p : Progress} {key : CellKey}

/-- The cells of all loaded pages that hold formulas. -/
def formulaCells (p : Progress) : List CellKey :=
  (List.range p.pages.size).flatMap fun place =>
    (p.sheet place).formulas.map fun entry => ⟨place, entry.1⟩

theorem IsFormula.mem_formulaCells (formula : p.IsFormula key) : key ∈ p.formulaCells := by
  obtain ⟨source, typed⟩ := Sheet.isFormula_iff.1 formula
  refine List.mem_flatMap.2 ⟨key.page, List.mem_range.2 formula.loaded, ?_⟩
  exact List.mem_map.2 ⟨(key.address, source), Sheet.input_eq_formula_iff.1 typed, rfl⟩

end Progress

namespace Pass

variable {pass : Pass} {p p' : Progress} {key : CellKey} {v : Value} {place : Nat} {r : Reference}

/-- The same stretch of an evaluation without a limit. -/
def unlimited (pass : Pass) : Pass := { pass with limit? := none }

/-- Whatever formula is asked for next may be entered. -/
def Roomy (pass : Pass) (p : Progress) : Prop :=
  ∀ key, p.IsFormula key → key ∉ p.stack → pass.AskedAcross p key →
    ∀ limit ∈ pass.limit?, p.stack.length < limit

/-- No more formulas are under evaluation than there are on the pages loaded in the end. -/
theorem Valid.roomy_of_grows (valid : pass.Valid p) (grows : p.Grows p')
    (room : ∀ limit ∈ pass.limit?, p'.formulaCells.length ≤ limit) : pass.Roomy p := by
  intro key formula outside asked limit isLimit
  -- With the new one, the formulas under evaluation are different formulas of the loaded pages.
  have distinct : (key :: p.stack).Nodup := List.nodup_cons.2 ⟨outside, valid.distinct⟩
  have within : key :: p.stack ⊆ p'.formulaCells := by
    intro other member
    refine (grows.isFormula ?_).mem_formulaCells
    rcases List.mem_cons.1 member with rfl | entered
    · exact formula
    · exact (valid.entered other entered).1
  have fewer : (key :: p.stack).length ≤ p'.formulaCells.length :=
    (List.subperm_of_subset distinct within).length_le
  have enough := room limit isLimit
  rw [List.length_cons] at fewer
  omega

theorem Answers.unlimited (answers : pass.Answers p key v) (roomy : pass.Roomy p) :
    pass.unlimited.Answers p key v := by
  cases answers with
  | finished known => exact .finished known
  | typed loaded literal => exact .typed loaded literal
  | waiting entered marked => exact .waiting entered marked
  | tooDeep formula outside asked deep =>
    obtain ⟨limit, isLimit, deep⟩ := deep
    exact absurd (roomy key formula outside asked limit isLimit) (Nat.not_lt.2 deep)

theorem AnswersReference.unlimited (answers : pass.AnswersReference p place r v)
    (roomy : pass.Roomy p) : pass.unlimited.AnswersReference p place r v :=
  ⟨answers.1, answers.2.mono fun _ _ _ answered => answered.unlimited roomy⟩

theorem Computed.unlimited (computed : pass.Computed p key v) (roomy : pass.Roomy p) :
    pass.unlimited.Computed p key v := by
  cases computed with
  | fault typed parsed => exact .fault typed parsed
  | value typed parsed yields =>
    exact .value typed parsed (yields.mono fun _ _ answered => answered.unlimited roomy)

theorem Step.unlimited (step : pass.Step p p') (roomy : pass.Roomy p) :
    pass.unlimited.Step p p' := by
  cases step with
  | parse source => exact .parse source
  | resolve page => exact .resolve page
  | close entered asked => exact .close entered asked
  | enter pending settled asked askedPending path =>
    exact .enter pending settled asked askedPending path
  | leave innermost computed => exact .leave innermost (computed.unlimited roomy)

theorem Steps.unlimited (steps : pass.Steps p p')
    (roomy : ∀ q, pass.Steps p q → pass.Steps q p' → pass.Roomy q) : pass.unlimited.Steps p p' := by
  induction steps with
  | refl => exact .refl
  | @tail q p' steps step ih =>
    refine .tail (ih fun q before after => roomy q before (after.tail step)) ?_
    exact step.unlimited (roomy q steps (.single step))

theorem Runs.unlimited (runs : pass.Runs p p')
    (roomy : ∀ q, pass.Steps p q → pass.Steps q p' → pass.Roomy q) : pass.unlimited.Runs p p' :=
  ⟨Steps.unlimited runs.steps roomy, runs.stack⟩

theorem Valid.roomy_between (valid : pass.Valid p)
    (room : ∀ limit ∈ pass.limit?, p'.formulaCells.length ≤ limit) (q : Progress)
    (before : pass.Steps p q) (after : pass.Steps q p') : pass.Roomy q := by
  have validQ := Steps.valid valid before
  exact validQ.roomy_of_grows (Steps.grows validQ after) room

end Pass

namespace Workbook

variable {w : Workbook} {cache : ParseCache} {e : Expr}

/-- The evaluation of the sheet without a limit on the depth. -/
abbrev pass (w : Workbook) : Pass := .ofSheet w none

/-- The state after the evaluation of an expression on the root page. -/
abbrev finalStateOf (w : Workbook) (e : Expr) : Progress := ((w.evaluation e).run (w.begin .empty)).2

/-- The evaluation of the sheet never reaches the limit on the depth: no higher one changes anything. -/
def DepthUnused (w : Workbook) (cache : ParseCache) : Prop :=
  ∀ depth, w.options.maxDepth ≤ depth →
    (w.withDepth depth).evaluateWith cache = w.evaluateWith cache

/-- The evaluation of an expression never reaches the limit on the depth. -/
def DepthUnusedBy (w : Workbook) (e : Expr) : Prop :=
  ∀ depth, w.options.maxDepth ≤ depth →
    ((w.withDepth depth).evaluation e).run (w.begin .empty) = (w.evaluation e).run (w.begin .empty)

theorem DepthUnused.run (unused : w.DepthUnused cache) :
    w.pass.Runs (w.begin cache) (w.finalState cache) ∧ ∀ a ∈ w.sheet.inputs,
      ∃ v, w.pass.Answers (w.finalState cache) ⟨Progress.root, a⟩ v ∧
        (w.evaluateWith cache).1[a]? = some v.toCellValue := by
  -- A limit that leaves room for all formulas gives the same as the one of the workbook.
  obtain ⟨depth, higher, enough⟩ : ∃ depth, w.options.maxDepth ≤ depth ∧
      (w.finalState cache).formulaCells.length ≤ depth :=
    ⟨_, Nat.le_add_right _ _, Nat.le_add_left _ _⟩
  have same := unused depth higher
  have runs := w.runs_evaluate depth cache
  rw [finalState, same] at runs
  have roomy := ((Pass.ofSheet w (some depth)).valid_begin cache).roomy_between
    fun limit isLimit => by
      cases isLimit
      exact enough
  refine ⟨runs.unlimited roomy, fun a typed => ?_⟩
  obtain ⟨blank, -⟩ | ⟨-, v, answers, shown⟩ := w.getElem?_evaluateWith depth cache a
  · exact absurd typed blank
  · rw [finalState, same] at answers
    rw [same] at shown
    exact ⟨v, answers.unlimited (roomy _ runs.steps .refl), shown⟩

theorem DepthUnusedBy.run (unused : w.DepthUnusedBy e) :
    (Pass.ofFormula w none).Runs (w.begin .empty) (w.finalStateOf e) ∧
      (e.plan w.library).Yields
        ((Pass.ofFormula w none).AnswersReference (w.finalStateOf e) Progress.root)
        ((w.evaluation e).run (w.begin .empty)).1 := by
  obtain ⟨depth, higher, enough⟩ : ∃ depth, w.options.maxDepth ≤ depth ∧
      (w.finalStateOf e).formulaCells.length ≤ depth :=
    ⟨_, Nat.le_add_right _ _, Nat.le_add_left _ _⟩
  obtain ⟨runs, yields⟩ := w.after_evaluation depth .empty e
  rw [unused depth higher] at runs yields
  have roomy := ((Pass.ofFormula w (some depth)).valid_begin .empty).roomy_between
    fun limit isLimit => by
      cases isLimit
      exact enough
  refine ⟨runs.unlimited roomy, yields.mono fun _ _ answered => ?_⟩
  exact answered.unlimited (roomy _ runs.steps .refl)

end Workbook

/-! ## Higher limits -/

namespace Pass

variable {pass : Pass} {start : Progress}

/-- An evaluation that gives the same as another one from every state that can come after `start`. -/
def agreement (pass : Pass) (start : Progress) : Companion pass Evaluating where
  Holds x m p := pass.Steps start p → x.run p = m.run p ∧ pass.Steps start (m.run p).2
  holds_pure _ _ reached := ⟨rfl, reached⟩
  holds_bind first after second reached := by
    obtain ⟨same, between⟩ := first reached
    rw [StateT.run_bind, StateT.run_bind, same]
    exact second _ _ after between
  holds_get _ reached := ⟨rfl, reached⟩
  holds_step step reached := ⟨rfl, reached.tail step⟩
  holds_of_run_eq same holds reached := same ▸ holds reached

/-- Where there is always room, a reader of cells reads what one with a higher limit does. -/
theorem readCell_agrees (roomy : ∀ q, pass.Steps start q → pass.Roomy q) (more depth : Nat) :
    (pass.agreement start).Matches depth (readCell pass.book (depth + more)) (readCell pass.book depth) := by
  induction depth with
  | zero =>
    intro p key ready asked loaded
    have lookUps (settle : CellKey → String → Evaluating Value) : (pass.agreement start).Holds
        (lookUp settle key) (lookUp (fun _ _ => return .error .tooDeep) key) p := by
      refine (pass.agreement start).holds_lookUp asked fun source pending _ reached => ?_
      -- A formula would be refused only where there is no room for it.
      obtain ⟨formula, -, outside⟩ := Progress.isPending_iff.1 pending
      have room := roomy p reached key formula outside (ready.valid.askedAcross asked pending) _ ready.room
      exact absurd room (Nat.lt_irrefl _)
    cases more with
    | zero => exact lookUps _
    | succ more => exact Nat.zero_add (more + 1) ▸ lookUps _
  | succ depth ih =>
    have follows := readCell_follows pass depth
    intro p key ready asked loaded
    rw [Nat.succ_add]
    refine (pass.agreement start).holds_lookUp asked fun source pending typed => ?_
    have finishes (q : Progress) (key : CellKey) (source : String) (ready : pass.Ready (depth + 1) q)
        (typed : q.input key = .formula source) (turn : key ∉ q.memo → pass.Turn q key) :
        (pass.agreement start).Holds (finishCell pass.book (readCell pass.book (depth + more)) key source)
          (finishCell pass.book (readCell pass.book depth) key source) q :=
      (pass.agreement start).holds_finishCell fun unknown =>
        (pass.agreement start).holds_evaluateFormulaCell ih follows ready (turn (not_mem_of_unknown unknown)) typed
    refine (pass.agreement start).holds_settleCell follows ready (ready.valid.askedAcross asked pending) pending
      typed (fun a q source ready typed turn => ?_) fun q => finishes q key source
    refine (pass.agreement start).holds_withState_left ?_
    rw [typed]
    exact (pass.agreement start).holds_andThen
      ((pass.agreement start).holds_map (finishes q _ source ready typed turn)) fun _ _ =>
        (pass.agreement start).holds_pure _ _

end Pass

namespace Workbook

/-- Where there is always room, no higher limit changes anything. -/
theorem depthUnused_of_roomy (roomy : ∀ q, (Pass.ofSheet w (some w.options.maxDepth)).Steps (w.begin cache) q →
    (Pass.ofSheet w (some w.options.maxDepth)).Roomy q) : w.DepthUnused cache := by
  intro depth higher
  obtain ⟨more, rfl⟩ := Nat.exists_eq_add_of_le higher
  have cells := ((Pass.agreement _ _).holds_evaluateCells (Pass.readCell_agrees roomy more w.options.maxDepth)
    (fun _ => rfl) w.sheet.inputs.keys (Pass.ready_begin _ cache rfl) rfl .refl).1
  have same : ((w.withDepth (w.options.maxDepth + more)).evaluateCells w.sheet.inputs.keys).run (w.begin cache) =
      (w.evaluateCells w.sheet.inputs.keys).run (w.begin cache) := by
    rw [evaluateCells, readCell_withDepth]
    exact cells
  exact congrArg (fun outcome => ((Std.ExtTreeMap.ofList outcome.1 : Result), outcome.2)) same

theorem depthUnusedBy_of_roomy (roomy : ∀ q,
    (Pass.ofFormula w (some w.options.maxDepth)).Steps (w.begin .empty) q →
    (Pass.ofFormula w (some w.options.maxDepth)).Roomy q) : w.DepthUnusedBy e := by
  intro depth higher
  obtain ⟨more, rfl⟩ := Nat.exists_eq_add_of_le higher
  have value := ((Pass.agreement _ _).holds_evaluation (Pass.readCell_agrees roomy more w.options.maxDepth)
    (fun _ => trivial) e (Pass.ready_begin _ .empty rfl) rfl .refl).1
  rw [evaluation, readCell_withDepth]
  exact value

end Workbook
end PageCalc

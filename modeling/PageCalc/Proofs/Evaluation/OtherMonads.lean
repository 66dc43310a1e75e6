import PageCalc.Proofs.Evaluation.Meaning
import PageCalc.Proofs.Evaluation.Runs

/-!
# Evaluations in other monads

An evaluation may be carried out in another monad that keeps more than its progress: one that may
give up, say, or one that writes down what happens. What is to be shown of such a computation is
shown here for all that a formula consists of, given that it can be shown of single steps and of
computations that follow each other.
-/

namespace PageCalc

open Collection

/-- The evaluation of a formula, taken apart: it is entered, computed and left. -/
theorem evaluateFormulaCell_eq_bind {m : Type → Type} [Monad m] [LawfulMonad m]
    [MonadStateOf Progress m] (w : Workbook) (read : CellKey → m Value) (key : CellKey)
    (source : String) :
    evaluateFormulaCell w read key source = modify (·.enter key) >>= fun _ =>
      Pass.computation w read key source >>= fun v => modifyGet fun p => p.leave key v := by
  simp only [evaluateFormulaCell, Pass.computation, bind_assoc]
  refine bind_congr fun _ => bind_congr fun outcome => ?_
  cases outcome <;> rfl

/-- A statement about a computation in another monad and the evaluation that it goes along with,
from a given state on. -/
structure Companion (pass : Pass) (n : Type → Type) [Monad n] [MonadStateOf Progress n] where
  Holds : {α : Type} → n α → Evaluating α → Progress → Prop
  holds_pure : ∀ {α : Type} (a : α) (p : Progress), Holds (pure a) (pure a) p
  holds_bind : ∀ {α β : Type} {x : n α} {m : Evaluating α} {f : α → n β} {g : α → Evaluating β}
    {p : Progress} {Q : α → Progress → Prop}, Holds x m p → After m p Q →
    (∀ a q, Q a q → Holds (f a) (g a) q) → Holds (x >>= f) (m >>= g) p
  holds_get : ∀ p : Progress, Holds get get p
  holds_step : ∀ {α : Type} {f : Progress → α × Progress} {p : Progress}, pass.Step p (f p).2 →
    Holds (modifyGet f) (modifyGet f) p
  holds_of_run_eq : ∀ {α : Type} {x : n α} {m m' : Evaluating α} {p : Progress}, m.run p = m'.run p →
    Holds x m p → Holds x m' p

namespace Companion

variable {α β : Type} {pass : Pass} {n : Type → Type} [Monad n] [LawfulMonad n]
variable [MonadStateOf Progress n] {p q : Progress} {key : CellKey} {place depth : Nat}
variable (companion : Companion pass n)

section Sequences

variable {x : n α} {m : Evaluating α}

omit [LawfulMonad n] in
/-- The second parts may go along whatever the first gives. -/
theorem holds_andThen {f : α → n β} {g : α → Evaluating β} (first : companion.Holds x m p)
    (second : ∀ a q, companion.Holds (f a) (g a) q) : companion.Holds (x >>= f) (m >>= g) p :=
  companion.holds_bind (Q := fun _ _ => True) first trivial fun a q _ => second a q

omit [LawfulMonad n] in
theorem holds_withState {f : Progress → n α} {g : Progress → Evaluating α}
    (onward : companion.Holds (f p) (g p) p) :
    companion.Holds (get >>= f) (get >>= g) p := by
  refine companion.holds_bind (Q := fun a q => a = p ∧ q = p) (companion.holds_get p) ⟨rfl, rfl⟩ ?_
  rintro a q ⟨rfl, rfl⟩
  exact onward

omit [LawfulMonad n] in
theorem holds_withState_right {g : Progress → Evaluating α} (onward : companion.Holds x (g p) p) :
    companion.Holds x (get >>= g) p :=
  companion.holds_of_run_eq (show (g p).run p = (get >>= g).run p from rfl) onward

omit [LawfulMonad n] in
theorem holds_withState_left {f : Progress → n α} (onward : companion.Holds (f p) m p) :
    companion.Holds (get >>= f) m p :=
  companion.holds_of_run_eq (show (get >>= fun _ => m).run p = m.run p from rfl)
    (companion.holds_withState onward)

theorem holds_map {h : α → β} (holds : companion.Holds x m p) : companion.Holds (h <$> x) (h <$> m) p := by
  rw [← bind_pure_comp, ← bind_pure_comp]
  exact companion.holds_andThen holds fun a q => companion.holds_pure (h a) q

end Sequences

/-! ## References -/

/-- Wherever `depth` more formulas may be entered, a reader of cells goes along with another. -/
def Matches (depth : Nat) (attempt : CellKey → n Value) (read : CellReader) : Prop :=
  ∀ p key, pass.Ready depth p → pass.Asked p key → key.page < p.pages.size →
    companion.Holds (attempt key) (read key) p

section References

variable {attempt : CellKey → n Value} {read : CellReader} {r : Reference}
variable (matches' : companion.Matches depth attempt read) (follows : pass.Follows depth read)

include matches'

theorem holds_readSeen (ready : pass.Ready depth p) (asked : pass.Asked p key)
    (loaded : key.page < p.pages.size) :
    companion.Holds (readSeen attempt key) (readSeen read key) p :=
  companion.holds_map (matches' p key ready asked loaded)

include follows

theorem holds_readCells (loaded : place < p.pages.size) (cells : List Address) (ready : pass.Ready depth p)
    (asked : ∀ a ∈ cells, pass.Asked p ⟨place, a⟩) :
    companion.Holds (cells.mapM fun a => readSeen attempt ⟨place, a⟩)
      (cells.mapM fun a => readSeen read ⟨place, a⟩) p := by
  induction cells generalizing p with
  | nil => exact companion.holds_pure [] p
  | cons a cells ih =>
    simp only [List.mapM_cons]
    obtain ⟨askedFirst, askedRest⟩ := List.forall_mem_cons.1 asked
    refine companion.holds_bind (companion.holds_readSeen matches' ready askedFirst loaded)
      (Pass.after_readSeen follows ready askedFirst loaded) ?_
    rintro v q ⟨runs, -⟩
    have loaded' := Nat.lt_of_lt_of_le loaded (runs.grows ready.valid).size
    have askedRest' := fun b member => runs.asked ready.valid (askedRest b member)
    exact companion.holds_andThen (ih loaded' (ready.runs runs) askedRest') fun _ _ =>
      companion.holds_pure _ _

theorem holds_readRange {area : Range} (ready : pass.Ready depth p) (loaded : place < p.pages.size)
    (asked : ∀ a ∈ (p.sheet place).cellsIn area, pass.Asked p ⟨place, a⟩) :
    companion.Holds (readRange attempt place area) (readRange read place area) p := by
  refine companion.holds_withState ?_
  exact companion.holds_andThen (companion.holds_readCells matches' follows loaded _ ready asked) fun _ _ =>
    companion.holds_pure _ _

theorem holds_readWholeSheet (ready : pass.Ready depth p) (loaded : place < p.pages.size)
    (asked : ∀ t ∈ (pass.book.options.wholeSheet.sight place (p.sheet place)).sites,
      pass.Asked p t) :
    companion.Holds (readWholeSheet pass.book attempt place)
      (readWholeSheet pass.book read place) p := by
  unfold readWholeSheet
  cases policy : pass.book.options.wholeSheet with
  | grid =>
    rw [policy] at asked
    refine companion.holds_withState ?_
    cases extent : (p.sheet place).extent? with
    | none => exact companion.holds_pure _ p
    | some area =>
      simp only [WholeSheetPolicy.sight, extent, Option.map_some, Option.getD_some] at asked
      exact companion.holds_readRange matches' follows ready loaded fun a member =>
        asked _ (List.mem_map.2 ⟨a, member, rfl⟩)
  | cell a =>
    rw [policy] at asked
    exact companion.holds_readSeen matches' ready (asked _ (List.mem_singleton.2 rfl)) loaded
  | reject => exact companion.holds_pure _ p

theorem holds_readExternal {external : ExternalReference} (ready : pass.Ready depth p)
    (asks : ∀ t ∈ ((p.resolve pass.book external.page).2.atlas pass.book).targets place
      (.external external), pass.Asked (p.resolve pass.book external.page).2 t) :
    companion.Holds (readExternal pass.book attempt external)
      (readExternal pass.book read external) p := by
  have found : (((p.resolve pass.book external.page).2).atlas pass.book).find external.page =
      (p.resolve pass.book external.page).1.mapError ResolveError.message := Progress.resolve_find
  have ready' := ready.runs (.resolve p external.page)
  refine companion.holds_bind (Q := fun outcome p' => outcome = (p.resolve pass.book external.page).1 ∧
    p' = (p.resolve pass.book external.page).2) (companion.holds_step (.resolve external.page)) ⟨rfl, rfl⟩ ?_
  rintro outcome p' ⟨isOutcome, rfl⟩
  rw [← isOutcome] at found
  cases outcome with
  | error failure => exact companion.holds_pure _ _
  | ok there =>
    have thereLoaded := ready'.valid.toPlaced.find found
    rw [Atlas.targets, Atlas.sight_external found] at asks
    cases shown : external.target with
    | wholeSheet =>
      rw [shown] at asks
      exact companion.holds_readWholeSheet matches' follows ready' thereLoaded asks
    | cell a =>
      rw [shown] at asks
      exact companion.holds_readSeen matches' ready' (asks _ (List.mem_singleton.2 rfl)) thereLoaded
    | range area =>
      rw [shown] at asks
      exact companion.holds_readRange matches' follows ready' thereLoaded fun a member =>
        asks _ (List.mem_map.2 ⟨a, member, rfl⟩)

theorem holds_readReference (ready : pass.Ready depth p) (loaded : place < p.pages.size)
    (asks : ∀ q, pass.Runs p q → ∀ t ∈ (q.atlas pass.book).targets place r, pass.Asked q t) :
    companion.Holds (readReference pass.book attempt place r)
      (readReference pass.book read place r) p := by
  cases r with
  | cell a =>
    exact companion.holds_readSeen matches' ready (asks p (.refl p) _ (List.mem_singleton.2 rfl)) loaded
  | range area =>
    exact companion.holds_readRange matches' follows ready loaded fun a member =>
      asks p (.refl p) _ (List.mem_map.2 ⟨a, member, rfl⟩)
  | external external =>
    exact companion.holds_readExternal matches' follows ready (asks _ (.resolve p external.page))

theorem holds_plan {plan : Plan α} {S : Reference → Prop}
    (ensures : plan.Ensures S (fun _ => True) fun _ => True) (ready : pass.Ready depth p)
    (loaded : place < p.pages.size)
    (asks : ∀ r, S r → ∀ q, pass.Runs p q → ∀ t ∈ (q.atlas pass.book).targets place r,
      pass.Asked q t) :
    companion.Holds (plan.run (readReference pass.book attempt place))
      (plan.run (readReference pass.book read place)) p := by
  induction plan generalizing p with
  | done a => exact companion.holds_pure a p
  | read r next ih =>
    have asksFirst := asks r ensures.1
    have locating : pass.Runs p (Pass.locate pass.book p r) := .locate p r
    refine companion.holds_bind (companion.holds_readReference matches' follows ready loaded asksFirst)
      (Pass.after_readReference follows ready loaded (asksFirst _ locating)) ?_
    rintro v q ⟨onward, -⟩
    have runs := locating.trans onward
    have loaded' := Nat.lt_of_lt_of_le loaded (runs.grows ready.valid).size
    exact ih v (ensures.2 v trivial) (ready.runs runs) loaded' fun r member q' runs' =>
      asks r member q' (runs.trans runs')

/-! ## Formulas -/

/-- The formula of a cell that is under evaluation. -/
theorem holds_computation {source : String} (ready : pass.Ready depth p)
    (innermost : p.stack.head? = some key) (typed : p.input key = .formula source) :
    companion.Holds (Pass.computation pass.book attempt key source)
      (Pass.computation pass.book read key source) p := by
  have parsing : pass.Runs p { p with cache := (p.cache.parse source).2 } := ⟨.single (.parse source), rfl⟩
  refine companion.holds_bind (Q := fun outcome q => outcome = Expr.ofFormula source ∧
    q = { p with cache := (p.cache.parse source).2 }) (companion.holds_step (.parse source))
    ⟨ParseCache.parse_fst p.cache source, rfl⟩ ?_
  rintro outcome q ⟨isOutcome, rfl⟩
  cases outcome with
  | error fault => exact companion.holds_pure _ _
  | ok e =>
    have formula := (ready.valid.entered key (List.mem_of_head? innermost)).1
    have parsed : (p.atlas pass.book).expr? key = some e := Atlas.expr?_of_parsed typed isOutcome.symm
    refine companion.holds_map ?_
    rw [evaluateExpr_eq_run, evaluateExpr_eq_run]
    exact companion.holds_plan matches' follows (ensures_plan (ValueLaw.trivial _) e) (ready.runs parsing)
      formula.loaded fun r member q runs =>
        ready.valid.asked_of_evaluated innermost parsed member (parsing.trans runs)

/-- The formula of a cell from when it is entered until it is left. -/
theorem holds_afterEntering {source : String} (ready : pass.Ready (depth + 1) p) (turn : pass.Turn p key)
    (typed : p.input key = .formula source) :
    companion.Holds
      (Pass.computation pass.book attempt key source >>= fun v => modifyGet fun p => p.leave key v)
      (Pass.computation pass.book read key source >>= fun v => modifyGet fun p => p.leave key v)
      (p.enter key) := by
  have ready' := turn.ready ready
  refine companion.holds_bind (companion.holds_computation matches' follows ready' rfl typed)
    (Pass.after_computation follows ready' rfl typed) ?_
  rintro v q ⟨runs, computed⟩
  refine companion.holds_step (.leave ?_ computed)
  rw [runs.stack]
  rfl

theorem holds_evaluateFormulaCell {source : String} (ready : pass.Ready (depth + 1) p)
    (turn : pass.Turn p key) (typed : p.input key = .formula source) :
    companion.Holds (evaluateFormulaCell pass.book attempt key source)
      (evaluateFormulaCell pass.book read key source) p := by
  rw [evaluateFormulaCell_eq_bind, evaluateFormulaCell_eq_bind]
  have entering := companion.holds_step (f := fun p => (PUnit.unit, p.enter key)) turn.step
  refine companion.holds_bind (Q := fun _ q => q = p.enter key) entering rfl ?_
  rintro - q rfl
  exact companion.holds_afterEntering matches' follows ready turn typed

end References

/-! ## Cells -/

section Cells

variable {read : CellReader} {source : String}

omit [LawfulMonad n]

theorem holds_lookUp {settle : CellKey → String → n Value} {settle' : CellKey → String → Evaluating Value}
    (asked : pass.Asked p key)
    (settles : ∀ source, p.isPending key → p.input key = .formula source →
      companion.Holds (settle key source) (settle' key source) p) :
    companion.Holds (lookUp settle key) (lookUp settle' key) p := by
  refine companion.holds_withState ?_
  cases known : p.memo[key]? with
  | some v => exact companion.holds_pure v p
  | none =>
    by_cases entered : key ∈ p.stack
    · simp only [entered, if_true]
      exact companion.holds_andThen (companion.holds_step (.close entered asked)) fun _ _ =>
        companion.holds_pure _ _
    · simp only [entered, if_false]
      cases typed : p.input key with
      | blank | number _ | text _ => exact companion.holds_pure _ p
      | formula source =>
        have formula : p.IsFormula key := Sheet.isFormula_iff.2 ⟨source, typed⟩
        exact settles source
          (Progress.isPending_iff.2 ⟨formula, not_mem_of_unknown known, entered⟩) typed

/-- What comes before a formula is finished: its value may be known already. -/
theorem holds_finishCell {evaluate : n Value}
    (evaluates : p.memo[key]? = none →
      companion.Holds evaluate (evaluateFormulaCell pass.book read key source) p) :
    companion.Holds
      (do match (← get).memo[key]? with
        | some value => return value
        | none => evaluate)
      (finishCell pass.book read key source) p := by
  refine companion.holds_withState ?_
  cases known : p.memo[key]? with
  | some v => exact companion.holds_pure v p
  | none => exact evaluates known

/-- The precedents are taken one after the other, each when its turn has come. -/
theorem holds_precedents {step : Address → PUnit → n (ForInStep PUnit)} (follows : pass.Follows depth read)
    (ready : pass.Ready (depth + 1) p) (asked : pass.AskedAcross p key) (pending : p.isPending key)
    (each : ∀ a q source, pass.Ready (depth + 1) q → q.input ⟨key.page, a⟩ = .formula source →
      ((⟨key.page, a⟩ : CellKey) ∉ q.memo → pass.Turn q ⟨key.page, a⟩) →
      companion.Holds (step a PUnit.unit)
        (do discard <| finishCell pass.book read ⟨key.page, a⟩ source
            pure (ForInStep.yield PUnit.unit)) q)
    {before rest : List Address} (split : p.pendingPrecedents key = before ++ rest)
    (runs : pass.Runs p q) (finished : ∀ b ∈ before, ¬ q.isPending ⟨key.page, b⟩) :
    companion.Holds (forIn rest PUnit.unit step)
      (forIn rest PUnit.unit fun a _ => do
        match (← get).input ⟨key.page, a⟩ with
        | .formula source => discard <| finishCell pass.book read ⟨key.page, a⟩ source
        | _ => pure ()
        pure (ForInStep.yield PUnit.unit)) q := by
  have loaded := (Progress.isPending_iff.1 pending).1.loaded
  -- The precedents before the next one are finished, and stay so.
  induction rest generalizing before q with
  | nil => exact companion.holds_pure _ q
  | cons a rest ih =>
    obtain ⟨source, typed, turn⟩ := Pass.turn_of_precedent ready asked pending split runs finished
    have ready' := ready.runs runs
    rw [List.forIn_cons, List.forIn_cons]
    refine companion.holds_bind ?_ (Pass.after_precedent follows ready' turn typed) ?_
    · refine companion.holds_withState_right ?_
      rw [typed]
      exact each a q source ready' typed turn
    · rintro _ p' ⟨rfl, runs', settled⟩
      have split' : p.pendingPrecedents key = (before ++ [a]) ++ rest := by simp [split]
      have loaded' := Nat.lt_of_lt_of_le loaded (runs.grows ready.valid).size
      exact ih split' (runs.trans runs') (runs'.settled_concat ready'.valid loaded' finished settled)

theorem holds_settleCell {step : Address → PUnit → n (ForInStep PUnit)} {finish : n Value}
    (follows : pass.Follows depth read) (ready : pass.Ready (depth + 1) p)
    (asked : pass.AskedAcross p key) (pending : p.isPending key) (typed : p.input key = .formula source)
    (each : ∀ a q source, pass.Ready (depth + 1) q → q.input ⟨key.page, a⟩ = .formula source →
      ((⟨key.page, a⟩ : CellKey) ∉ q.memo → pass.Turn q ⟨key.page, a⟩) →
      companion.Holds (step a PUnit.unit)
        (do discard <| finishCell pass.book read ⟨key.page, a⟩ source
            pure (ForInStep.yield PUnit.unit)) q)
    (finishes : ∀ q, pass.Ready (depth + 1) q → q.input key = .formula source →
      (key ∉ q.memo → pass.Turn q key) →
      companion.Holds finish (finishCell pass.book read key source) q) :
    companion.Holds
      (get >>= fun p => forIn (p.pendingPrecedents key) PUnit.unit step >>= fun _ => finish)
      (settleCell pass.book read key source) p := by
  have loaded := (Progress.isPending_iff.1 pending).1.loaded
  have split := (List.nil_append (p.pendingPrecedents key)).symm
  have none : ∀ b ∈ ([] : List Address), ¬ p.isPending ⟨key.page, b⟩ :=
    fun b member => absurd member List.not_mem_nil
  refine companion.holds_withState (companion.holds_bind
    (companion.holds_precedents follows ready asked pending each split (.refl p) none)
    (Pass.after_precedents follows ready asked pending split (.refl p) none) ?_)
  rintro _ q ⟨runs, finished⟩
  have typed' : q.input key = .formula source := ((runs.grows ready.valid).input loaded).trans typed
  exact finishes q (ready.runs runs) typed'
    (Pass.turn_of_precedents ready asked pending runs finished)

end Cells

/-! ## Whole evaluations -/

section Whole

variable {attempt : CellKey → n Value}
variable (matches' : companion.Matches pass.book.options.maxDepth attempt
  (readCell pass.book pass.book.options.maxDepth))

include matches'

theorem holds_evaluateCells (fromRoot : ∀ a, pass.entry ⟨Progress.root, a⟩) (addresses : List Address)
    (ready : pass.Ready pass.book.options.maxDepth p) (idle : p.stack = []) :
    companion.Holds
      (addresses.mapM fun a => do
        let value ← attempt ⟨Progress.root, a⟩
        return (a, value.toCellValue))
      (pass.book.evaluateCells addresses) p := by
  unfold Workbook.evaluateCells
  induction addresses generalizing p with
  | nil => exact companion.holds_pure [] p
  | cons a addresses ih =>
    rw [List.mapM_cons, List.mapM_cons]
    have asked : pass.Asked p ⟨Progress.root, a⟩ := by
      rw [Pass.Asked, idle]
      exact fromRoot a
    have loaded := Pass.root_loaded ready.valid
    have after : After (readCell pass.book pass.book.options.maxDepth ⟨Progress.root, a⟩) p
        fun _ q => pass.Runs p q :=
      (pass.readCell_follows _ p _ ready asked loaded).mono fun _ _ holds => holds.1
    refine companion.holds_bind (Q := fun _ q => pass.Runs p q) ?_ (after.bind fun _ _ runs => .pure runs) ?_
    · exact companion.holds_andThen (matches' p _ ready asked loaded) fun _ _ => companion.holds_pure _ _
    · intro cell q runs
      exact companion.holds_andThen (ih (ready.runs runs) (runs.stack.trans idle)) fun _ _ =>
        companion.holds_pure _ _

theorem holds_evaluation (fromAll : ∀ key, pass.entry key) (e : Expr)
    (ready : pass.Ready pass.book.options.maxDepth p) (idle : p.stack = []) :
    companion.Holds (evaluateExpr pass.book.library (readReference pass.book attempt Progress.root) e)
      (pass.book.evaluation e) p := by
  rw [Workbook.evaluation, evaluateExpr_eq_run, evaluateExpr_eq_run]
  refine companion.holds_plan matches' (pass.readCell_follows _) (ensures_plan (ValueLaw.trivial _) e) ready
    (Pass.root_loaded ready.valid) ?_
  intro r member q runs t target
  have still : q.stack = [] := runs.stack.trans idle
  rw [Pass.Asked, still]
  exact fromAll t

end Whole

end Companion
end PageCalc

import PageCalc.Proofs.Evaluation.Machine

/-!
# Evaluation follows the machine

Whatever is read, the state goes on by steps of the machine, and what the reader gives is what the
machine answers in the state where it stops.
-/

namespace PageCalc

open Collection

variable {α β : Type}

/-- What holds of the outcome and the state after an evaluation that starts from `p`. -/
def After (m : Evaluating α) (p : Progress) (Q : α → Progress → Prop) : Prop :=
  Q (m.run p).1 (m.run p).2

namespace After

variable {m : Evaluating α} {f : α → Evaluating β} {p : Progress} {Q R : α → Progress → Prop}
variable {S : β → Progress → Prop}

theorem mono (after : After m p Q) (weaker : ∀ a p, Q a p → R a p) : After m p R :=
  weaker _ _ after

theorem pure {a : α} (holds : Q a p) : After (Pure.pure a) p Q := holds

theorem bind (first : After m p Q) (second : ∀ a p', Q a p' → After (f a) p' S) :
    After (m >>= f) p S :=
  second _ _ first

/-- Reading the state leaves it as it is. -/
theorem get {f : Progress → Evaluating β} (after : After (f p) p S) :
    After (MonadState.get >>= f) p S := after

theorem map {g : α → β} (after : After m p fun a p' => S (g a) p') : After (g <$> m) p S := after

end After

namespace Pass

variable {pass : Pass} {p p' q : Progress} {key : CellKey} {place depth : Nat} {read : CellReader}

/-- What is asked of a state from which `depth` more formulas may be entered. -/
structure Ready (pass : Pass) (depth : Nat) (p : Progress) : Prop where
  valid : pass.Valid p
  room : pass.limit? = some (p.stack.length + depth)

theorem Ready.runs (ready : pass.Ready depth p) (runs : pass.Runs p q) : pass.Ready depth q :=
  ⟨runs.valid ready.valid, runs.stack ▸ ready.room⟩

/-- A reader of cells follows the machine. -/
def Follows (pass : Pass) (depth : Nat) (read : CellReader) : Prop :=
  ∀ p key, pass.Ready depth p → pass.Asked p key → key.page < p.pages.size →
    After (read key) p fun v p' => pass.Runs p p' ∧ pass.Answers p' key v

/-! ## References -/

theorem after_readSeen (follows : pass.Follows depth read) (ready : pass.Ready depth p)
    (asked : pass.Asked p key) (loaded : key.page < p.pages.size) :
    After (readSeen read key) p fun v p' =>
      pass.Runs p p' ∧ ∃ u, pass.Answers p' key u ∧ v = u.propagated := by
  refine After.map ((follows p key ready asked loaded).mono ?_)
  rintro u p' ⟨runs, answers⟩
  exact ⟨runs, u, answers, rfl⟩

theorem after_readCells (follows : pass.Follows depth read) (loaded : place < p.pages.size)
    (cells : List Address) (ready : pass.Ready depth p)
    (asked : ∀ a ∈ cells, pass.Asked p ⟨place, a⟩) :
    After (cells.mapM fun a => readSeen read ⟨place, a⟩) p fun vs p' => pass.Runs p p' ∧
      ∃ us, List.Forall₂ (pass.Answers p') (cells.map (⟨place, ·⟩)) us ∧
        vs = us.map Value.propagated := by
  induction cells generalizing p with
  | nil => exact .pure ⟨.refl p, [], .nil, rfl⟩
  | cons a cells ih =>
    rw [List.mapM_cons]
    obtain ⟨askedFirst, askedRest⟩ := List.forall_mem_cons.1 asked
    refine (after_readSeen follows ready askedFirst loaded).bind ?_
    rintro v q ⟨runs, u, answers, rfl⟩
    -- The cells that are left are still asked for, and the first answer still stands in the end.
    have loaded' := Nat.lt_of_lt_of_le loaded (runs.grows ready.valid).size
    have ready' := ready.runs runs
    refine (ih loaded' ready' fun b member => runs.asked ready.valid (askedRest b member)).bind ?_
    rintro vs p' ⟨runs', us, answersRest, rfl⟩
    refine .pure ⟨runs.trans runs', u :: us, ?_, rfl⟩
    exact .cons (runs'.answers ready'.valid answers) answersRest

theorem after_readRange {area : Range} (follows : pass.Follows depth read)
    (ready : pass.Ready depth p) (loaded : place < p.pages.size)
    (asked : ∀ a ∈ (p.sheet place).cellsIn area, pass.Asked p ⟨place, a⟩) :
    After (readRange read place area) p fun v p' => pass.Runs p p' ∧
      (Sight.cells (((p.sheet place).cellsIn area).map (⟨place, ·⟩))).Gives (pass.Answers p') v := by
  have cells := after_readCells follows loaded _ ready asked
  refine After.get ?_
  refine cells.bind ?_
  rintro vs p'' ⟨runs, us, answers, rfl⟩
  exact .pure ⟨runs, us, answers, rfl⟩

theorem after_readWholeSheet (follows : pass.Follows depth read) (ready : pass.Ready depth p)
    (loaded : place < p.pages.size)
    (asked : ∀ t ∈ (pass.book.options.wholeSheet.sight place (p.sheet place)).sites,
      pass.Asked p t) :
    After (readWholeSheet pass.book read place) p fun v p' => pass.Runs p p' ∧
      (pass.book.options.wholeSheet.sight place (p.sheet place)).Gives (pass.Answers p') v := by
  unfold readWholeSheet
  cases policy : pass.book.options.wholeSheet with
  | grid =>
    refine After.get ?_
    rw [policy] at asked
    cases extent : (p.sheet place).extent? with
    | none => exact .pure ⟨.refl p, [], by simp [extent], rfl⟩
    | some area =>
      simp only [WholeSheetPolicy.sight, extent, Option.map_some, Option.getD_some] at asked ⊢
      exact after_readRange follows ready loaded fun a member =>
        asked _ (List.mem_map.2 ⟨a, member, rfl⟩)
  | cell a =>
    rw [policy] at asked
    exact after_readSeen follows ready (asked _ (List.mem_singleton.2 rfl)) loaded
  | reject => exact .pure ⟨.refl p, rfl⟩

theorem Runs.resolve (p : Progress) (page : PageRef) : pass.Runs p (p.resolve pass.book page).2 :=
  ⟨.single (.resolve page), Progress.resolve_stack⟩

theorem after_readExternal {external : ExternalReference} (follows : pass.Follows depth read)
    (ready : pass.Ready depth p)
    (asks : ∀ t ∈ ((p.resolve pass.book external.page).2.atlas pass.book).targets place
      (.external external), pass.Asked (p.resolve pass.book external.page).2 t) :
    After (readExternal pass.book read external) p fun v p' =>
      pass.Runs (p.resolve pass.book external.page).2 p' ∧
        (((p.resolve pass.book external.page).2.atlas pass.book).sight place
          (.external external)).Gives (pass.Answers p') v := by
  -- What the reference shows depends on where its identifier leads once it is resolved.
  have found : (((p.resolve pass.book external.page).2).atlas pass.book).find external.page =
      (p.resolve pass.book external.page).1.mapError ResolveError.message := Progress.resolve_find
  have ready' := ready.runs (.resolve p external.page)
  refine After.bind (Q := fun outcome p' => outcome = (p.resolve pass.book external.page).1 ∧
    p' = (p.resolve pass.book external.page).2) ⟨rfl, rfl⟩ ?_
  rintro outcome p' ⟨isOutcome, rfl⟩
  rw [← isOutcome] at found
  cases outcome with
  | error failure =>
    rw [Atlas.sight_missing found]
    exact .pure ⟨.refl _, rfl⟩
  | ok there =>
    have thereLoaded := ready'.valid.toPlaced.find found
    rw [Atlas.targets, Atlas.sight_external found] at asks
    rw [Atlas.sight_external found]
    cases shown : external.target with
    | wholeSheet =>
      rw [shown] at asks
      exact after_readWholeSheet follows ready' thereLoaded asks
    | cell a =>
      rw [shown] at asks
      exact after_readSeen follows ready' (asks _ (List.mem_singleton.2 rfl)) thereLoaded
    | range area =>
      rw [shown] at asks
      exact after_readRange follows ready' thereLoaded fun a member =>
        asks _ (List.mem_map.2 ⟨a, member, rfl⟩)

/-- The state in which it is known where a reference leads. -/
def locate (w : Workbook) (p : Progress) : Reference → Progress
  | .cell _ | .range _ => p
  | .external external => (p.resolve w external.page).2

theorem Runs.locate (p : Progress) (r : Reference) : pass.Runs p (locate pass.book p r) := by
  cases r with
  | cell _ | range _ => exact .refl p
  | external external => exact .resolve p external.page

theorem locate_resolved (w : Workbook) (p : Progress) (r : Reference) : (locate w p r).Resolved w r := by
  cases r with
  | cell _ | range _ => trivial
  | external external => exact Progress.resolve_resolved

/-- A reference is read as the machine answers it, if what it shows once it is located is what the
innermost formula asks about. -/
theorem after_readReference {r : Reference} (follows : pass.Follows depth read)
    (ready : pass.Ready depth p) (loaded : place < p.pages.size)
    (asks : ∀ t ∈ ((locate pass.book p r).atlas pass.book).targets place r,
      pass.Asked (locate pass.book p r) t) :
    After (readReference pass.book read place r) p fun v p' =>
      pass.Runs (locate pass.book p r) p' ∧ pass.AnswersReference p' place r v := by
  have locating : pass.Runs p (locate pass.book p r) := .locate p r
  have ready' := ready.runs locating
  have loaded' := Nat.lt_of_lt_of_le loaded (locating.grows ready.valid).size
  have resolved := locate_resolved pass.book p r
  have shown : After (readReference pass.book read place r) p fun v p' =>
      pass.Runs (locate pass.book p r) p' ∧
        (((locate pass.book p r).atlas pass.book).sight place r).Gives (pass.Answers p') v := by
    cases r with
    | cell a => exact after_readSeen follows ready (asks _ (List.mem_singleton.2 rfl)) loaded
    | range area =>
      exact after_readRange follows ready loaded fun a member => asks _ (List.mem_map.2 ⟨a, member, rfl⟩)
    | external external => exact after_readExternal follows ready asks
  refine shown.mono ?_
  rintro v p' ⟨runs, gives⟩
  have grows := runs.grows ready'.valid
  -- Reading what the reference shows does not change what it shows.
  rw [← grows.sight ready'.valid.toPlaced loaded' resolved] at gives
  exact ⟨runs, grows.resolved resolved, gives⟩

/-! ## Formulas -/

/-- A plan is carried out by steps that answer what it reads. -/
theorem after_plan {plan : Plan α} {S : Reference → Prop} (follows : pass.Follows depth read)
    (ensures : plan.Ensures S (fun _ => True) fun _ => True) (ready : pass.Ready depth p)
    (loaded : place < p.pages.size)
    (asks : ∀ r, S r → ∀ q, pass.Runs p q → ∀ t ∈ (q.atlas pass.book).targets place r,
      pass.Asked q t) :
    After (plan.run (readReference pass.book read place)) p fun a p' =>
      pass.Runs p p' ∧ plan.Yields (pass.AnswersReference p' place) a := by
  induction plan generalizing p with
  | done a => exact .pure ⟨.refl p, .done⟩
  | read r next ih =>
    have locating : pass.Runs p (locate pass.book p r) := .locate p r
    refine (after_readReference follows ready loaded (asks r ensures.1 _ locating)).bind ?_
    rintro v q ⟨onward, answers⟩
    have runs := locating.trans onward
    have ready' := ready.runs runs
    have loaded' := Nat.lt_of_lt_of_le loaded (runs.grows ready.valid).size
    refine (ih v (ensures.2 v trivial) ready' loaded' fun r member q' runs' =>
      asks r member q' (runs.trans runs')).mono ?_
    rintro a p' ⟨runs', yields⟩
    -- What was found under the reference still stands after the reads that follow.
    exact ⟨runs.trans runs', .read (runs'.answersReference ready'.valid loaded' answers) yields⟩

/-- What a formula needs so that it may be entered. -/
structure Turn (pass : Pass) (p : Progress) (key : CellKey) : Prop where
  pending : p.isPending key
  settled : p.Settled key
  led : ∃ a, pass.AskedAcross p ⟨key.page, a⟩ ∧ p.isPending ⟨key.page, a⟩ ∧
    Relation.ReflTransGen (p.ReadsPending key.page) a key.address

/-- Evaluates the formula of a cell that is under evaluation. -/
def computation {m : Type → Type} [Monad m] [MonadStateOf Progress m] (w : Workbook)
    (read : CellKey → m Value) (key : CellKey) (source : String) : m Value := do
  let outcome ← modifyGet fun p =>
    let (outcome, cache) := p.cache.parse source
    (outcome, { p with cache })
  match outcome with
    | .ok e => Value.finish <$> evaluateExpr w.library (readReference w read key.page) e
    | .error fault => pure (.error fault.toCellError)

theorem evaluateFormulaCell_eq {w : Workbook} (source : String) (p : Progress) :
    (evaluateFormulaCell w read key source).run p =
      let (v, q) := (computation w read key source).run (p.enter key)
      q.leave key v := by
  have sameCache : (p.enter key).cache = p.cache := rfl
  simp only [evaluateFormulaCell, computation, StateT.run_bind, StateT.run_modify,
    StateT.run_modifyGet, pure_bind, sameCache]
  cases (p.cache.parse source).1 <;> rfl

/-- What the references of the innermost formula show is what it asks for. -/
theorem Valid.asked_of_evaluated {e : Expr} {r : Reference} (valid : pass.Valid p)
    (innermost : p.stack.head? = some key) (parsed : (p.atlas pass.book).expr? key = some e)
    (member : r ∈ e.evaluated pass.book.library) (runs : pass.Runs p q) (t : CellKey)
    (target : t ∈ (q.atlas pass.book).targets key.page r) : pass.Asked q t := by
  have loaded := (valid.entered key (List.mem_of_head? innermost)).1.loaded
  obtain ⟨rest, isInnermost⟩ := List.head?_eq_some_iff.1 innermost
  rw [Asked, runs.stack, isInnermost]
  exact ⟨e, ((runs.grows valid).expr? loaded).trans parsed, r, member, target⟩

theorem after_computation {source : String} (follows : pass.Follows depth read)
    (ready : pass.Ready depth p) (innermost : p.stack.head? = some key)
    (typed : p.input key = .formula source) :
    After (computation pass.book read key source) p fun v q =>
      pass.Runs p q ∧ pass.Computed q key v := by
  have formula := (ready.valid.entered key (List.mem_of_head? innermost)).1
  have parsing : pass.Runs p { p with cache := (p.cache.parse source).2 } := ⟨.single (.parse source), rfl⟩
  refine After.bind (Q := fun outcome p' => outcome = Expr.ofFormula source ∧
    p' = { p with cache := (p.cache.parse source).2 })
    ⟨ParseCache.parse_fst p.cache source, rfl⟩ ?_
  rintro outcome p' ⟨isOutcome, rfl⟩
  cases outcome with
  | error fault => exact .pure ⟨parsing, .fault typed isOutcome.symm⟩
  | ok e =>
    have parsed : (p.atlas pass.book).expr? key = some e := by
      have typed : (p.sheet key.page).input key.address = .formula source := typed
      simp [Atlas.expr?, Sheet.expr?, typed, isOutcome.symm, Except.toOption]
    -- The expression is evaluated as its plan, whose references are demanded by the formula.
    have evaluated : After (evaluateExpr pass.book.library (readReference pass.book read key.page) e)
        { p with cache := (p.cache.parse source).2 } fun x q =>
        pass.Runs { p with cache := (p.cache.parse source).2 } q ∧
          (e.plan pass.book.library).Yields (pass.AnswersReference q key.page) x := by
      rw [evaluateExpr_eq_run]
      exact after_plan follows (ensures_plan (ValueLaw.trivial _) e) (ready.runs parsing)
        formula.loaded fun r member q runs =>
          ready.valid.asked_of_evaluated innermost parsed member (parsing.trans runs)
    refine After.map (evaluated.mono ?_)
    rintro x q ⟨runs, yields⟩
    have typed' := ((parsing.trans runs).grows ready.valid).input formula.loaded
    exact ⟨parsing.trans runs, .value (typed'.trans typed) isOutcome.symm yields⟩

theorem Turn.step (turn : pass.Turn p key) : pass.Step p (p.enter key) := by
  obtain ⟨a, asked, askedPending, path⟩ := turn.led
  exact .enter turn.pending turn.settled asked askedPending path

/-- One more formula is under evaluation and one less may be entered. -/
theorem Turn.ready (turn : pass.Turn p key) (ready : pass.Ready (depth + 1) p) :
    pass.Ready depth (p.enter key) := by
  refine ⟨turn.step.valid ready.valid, ready.room.trans ?_⟩
  show some (p.stack.length + (depth + 1)) = some ((key :: p.stack).length + depth)
  rw [List.length_cons, Nat.add_right_comm, Nat.add_assoc]

theorem after_evaluateFormulaCell {source : String} (follows : pass.Follows depth read)
    (ready : pass.Ready (depth + 1) p) (turn : pass.Turn p key)
    (typed : p.input key = .formula source) :
    After (evaluateFormulaCell pass.book read key source) p fun v p' =>
      pass.Runs p p' ∧ p'.memo[key]? = some v := by
  have entering := turn.step
  obtain ⟨runs, computed⟩ := after_computation follows (turn.ready ready) rfl typed
  unfold After
  rw [evaluateFormulaCell_eq]
  generalize (computation pass.book read key source).run (p.enter key) = outcome at runs computed
  obtain ⟨v, q⟩ := outcome
  have innermost : q.stack.head? = some key := by rw [runs.stack]; rfl
  refine ⟨⟨((Relation.ReflTransGen.single entering).trans runs.steps).tail
    (.leave innermost computed), ?_⟩, ?_⟩
  · show q.stack.tail = p.stack
    rw [runs.stack]
    rfl
  · exact leave_memo.trans (if_pos rfl)

/-! ## Cells -/

theorem after_finishCell {source : String} (follows : pass.Follows depth read)
    (ready : pass.Ready (depth + 1) p) (turn : key ∉ p.memo → pass.Turn p key)
    (typed : p.input key = .formula source) :
    After (finishCell pass.book read key source) p fun v p' =>
      pass.Runs p p' ∧ p'.memo[key]? = some v := by
  refine After.get ?_
  cases known : p.memo[key]? with
  | some v => exact .pure ⟨.refl p, known⟩
  | none =>
    exact after_evaluateFormulaCell follows ready (turn (not_mem_of_unknown known)) typed

/-- A cell from which pending reads lead to a cell that is still pending is pending itself: it would not
have been entered before the other one. -/
theorem Runs.still_pending {a b : Address} (valid : pass.Valid p) (runs : pass.Runs p q)
    (pendingA : p.isPending ⟨place, a⟩) (path : Relation.ReflTransGen (p.ReadsPending place) a b)
    (pendingB : q.isPending ⟨place, b⟩) :
    q.isPending ⟨place, a⟩ ∧ Relation.ReflTransGen (q.ReadsPending place) a b := by
  have grows := runs.grows valid
  revert pendingA
  induction path using Relation.ReflTransGen.head_induction_on with
  | refl => exact fun _ => ⟨pendingB, .refl⟩
  | @head a c edge rest ih =>
    intro pendingA
    obtain ⟨pendingC, onward⟩ := ih edge.2
    obtain ⟨formula, -, outside⟩ := Progress.isPending_iff.1 pendingA
    have sameSheet : q.sheet place = p.sheet place := grows.sheet formula.loaded
    have reads : (q.sheet place).Reads a c := by
      rw [sameSheet]
      exact edge.1
    refine ⟨Progress.isPending_iff.2 ⟨grows.isFormula formula, fun finished => ?_, ?_⟩,
      .head ⟨reads, pendingC⟩ onward⟩
    -- Once finished, it would have been settled, but it reads a cell that is still pending.
    · have offCycle := valid.not_onCycle pendingA
      rw [← sameSheet] at offCycle
      have settled : q.Settled ⟨place, a⟩ := (runs.valid valid).wasSettled _ finished offCycle
      exact settled c reads pendingC
    · rw [runs.stack]
      exact outside

/-- The turn of a cell comes when the pending cells that it reads inside its page are finished. -/
theorem turn_of_settled {other : CellKey} (ready : pass.Ready depth p) (runs : pass.Runs p q)
    (asked : pass.AskedAcross p key) (pendingKey : p.isPending key)
    (samePage : other.page = key.page) (pending : p.isPending other) (unfinished : other ∉ q.memo)
    (path : Relation.ReflTransGen (p.ReadsPending key.page) key.address other.address)
    (before : ∀ b, p.ReadsPending key.page other.address b → ¬ q.isPending ⟨key.page, b⟩) :
    pass.Turn q other := by
  have grows := runs.grows ready.valid
  have loaded := (Progress.isPending_iff.1 pendingKey).1.loaded
  obtain ⟨formula, -, outside⟩ := Progress.isPending_iff.1 pending
  have pending' : q.isPending other :=
    Progress.isPending_iff.2 ⟨grows.isFormula formula, unfinished, runs.stack ▸ outside⟩
  -- The first cell is still asked for, and what led from it to the other one still does.
  refine ⟨pending', fun b reads => ?_, key.address, ?_, ?_⟩
  · rw [samePage, grows.sheet loaded] at reads
    rw [samePage]
    by_cases pendingB : p.isPending ⟨key.page, b⟩
    · exact before b ⟨reads, pendingB⟩
    · exact grows.not_isPending loaded pendingB
  · rw [samePage]
    exact runs.askedAcross ready.valid asked
  · obtain ⟨page, a⟩ := other
    cases samePage
    exact runs.still_pending ready.valid pendingKey path pending'

theorem not_isPending_of_known {v : Value} (known : p.memo[key]? = some v) : ¬ p.isPending key := by
  intro pending
  exact (Progress.isPending_iff.1 pending).2.1 (mem_of_known known)

/-- The turn of a precedent comes when those before it are finished. -/
theorem turn_of_precedent {a : Address} {before rest : List Address}
    (ready : pass.Ready (depth + 1) p) (asked : pass.AskedAcross p key) (pending : p.isPending key)
    (split : p.pendingPrecedents key = before ++ a :: rest) (runs : pass.Runs p q)
    (finished : ∀ b ∈ before, ¬ q.isPending ⟨key.page, b⟩) :
    ∃ source, q.input ⟨key.page, a⟩ = .formula source ∧
      ((⟨key.page, a⟩ : CellKey) ∉ q.memo → pass.Turn q ⟨key.page, a⟩) := by
  have kept := ready.valid.toKept
  have loaded := (Progress.isPending_iff.1 pending).1.loaded
  have member : a ∈ p.pendingPrecedents key := by simp [split]
  obtain ⟨pendingA, path⟩ := Progress.mem_pendingPrecedents kept loaded member
  have formula := (runs.grows ready.valid).isFormula (Progress.isPending_iff.1 pendingA).1
  obtain ⟨source, typed⟩ := Sheet.isFormula_iff.1 formula
  -- Those that the precedent reads come before it in the order, and are finished by now.
  refine ⟨source, typed, fun unfinished => ?_⟩
  refine turn_of_settled ready runs asked pending rfl pendingA unfinished path.to_reflTransGen ?_
  exact fun b reads => finished b (Progress.pendingPrecedents_ordered kept pending split reads)

/-- The turn of the cell itself comes when all its precedents are finished. -/
theorem turn_of_precedents (ready : pass.Ready (depth + 1) p) (asked : pass.AskedAcross p key)
    (pending : p.isPending key) (runs : pass.Runs p q)
    (finished : ∀ b ∈ p.pendingPrecedents key, ¬ q.isPending ⟨key.page, b⟩)
    (unfinished : key ∉ q.memo) : pass.Turn q key :=
  turn_of_settled ready runs asked pending rfl pending unfinished .refl fun b reads =>
    finished b (Progress.pendingPrecedents_complete ready.valid.toKept pending reads)

theorem after_precedent {a : Address} {source : String} (follows : pass.Follows depth read)
    (ready : pass.Ready (depth + 1) p)
    (turn : (⟨place, a⟩ : CellKey) ∉ p.memo → pass.Turn p ⟨place, a⟩)
    (typed : p.input ⟨place, a⟩ = .formula source) :
    After (do
        match (← get).input ⟨place, a⟩ with
        | .formula source => discard <| finishCell pass.book read ⟨place, a⟩ source
        | _ => pure ()
        pure (ForInStep.yield PUnit.unit)) p fun step p' =>
      step = .yield PUnit.unit ∧ pass.Runs p p' ∧ ¬ p'.isPending ⟨place, a⟩ := by
  refine After.get ?_
  rw [typed]
  refine After.bind (Q := fun _ q => pass.Runs p q ∧ ¬ q.isPending ⟨place, a⟩) ?_ ?_
  · refine After.map ((after_finishCell follows ready turn typed).mono ?_)
    rintro v q ⟨runs, known⟩
    exact ⟨runs, not_isPending_of_known known⟩
  · rintro _ q ⟨runs, settled⟩
    exact .pure ⟨rfl, runs, settled⟩

/-- With one more precedent settled, all that were taken so far are. -/
theorem Runs.settled_concat {before : List Address} {a : Address} (valid : pass.Valid q) (runs : pass.Runs q p')
    (loaded : key.page < q.pages.size) (finished : ∀ b ∈ before, ¬ q.isPending ⟨key.page, b⟩)
    (settled : ¬ p'.isPending ⟨key.page, a⟩) : ∀ b ∈ before ++ [a], ¬ p'.isPending ⟨key.page, b⟩ :=
  List.forall_mem_append.2
    ⟨fun b earlier => (runs.grows valid).not_isPending loaded (finished b earlier),
      List.forall_mem_singleton.2 settled⟩

/-- The precedents are finished one after the other, each when those that it reads are finished. -/
theorem after_precedents (follows : pass.Follows depth read) (ready : pass.Ready (depth + 1) p)
    (asked : pass.AskedAcross p key) (pending : p.isPending key) {before rest : List Address}
    (split : p.pendingPrecedents key = before ++ rest) (runs : pass.Runs p q)
    (finished : ∀ b ∈ before, ¬ q.isPending ⟨key.page, b⟩) :
    After (forIn rest PUnit.unit fun a _ => do
        match (← get).input ⟨key.page, a⟩ with
        | .formula source => discard <| finishCell pass.book read ⟨key.page, a⟩ source
        | _ => pure ()
        pure (ForInStep.yield PUnit.unit)) q fun _ p' =>
      pass.Runs p p' ∧ ∀ b ∈ p.pendingPrecedents key, ¬ p'.isPending ⟨key.page, b⟩ := by
  have loaded := (Progress.isPending_iff.1 pending).1.loaded
  -- By induction on the precedents that are left; those before them are no longer pending.
  induction rest generalizing before q with
  | nil =>
    rw [List.append_nil] at split
    exact .pure ⟨runs, split ▸ finished⟩
  | cons a rest ih =>
    obtain ⟨source, typed, turn⟩ := turn_of_precedent ready asked pending split runs finished
    rw [List.forIn_cons]
    refine (after_precedent follows (ready.runs runs) turn typed).bind ?_
    rintro _ p' ⟨rfl, runs', settled⟩
    have split' : p.pendingPrecedents key = (before ++ [a]) ++ rest := by simp [split]
    have loaded' := Nat.lt_of_lt_of_le loaded (runs.grows ready.valid).size
    exact ih split' (runs.trans runs') (runs'.settled_concat (runs.valid ready.valid) loaded' finished settled)

theorem after_settleCell {source : String} (follows : pass.Follows depth read)
    (ready : pass.Ready (depth + 1) p) (asked : pass.AskedAcross p key) (pending : p.isPending key)
    (typed : p.input key = .formula source) :
    After (settleCell pass.book read key source) p fun v p' =>
      pass.Runs p p' ∧ p'.memo[key]? = some v := by
  have loaded := (Progress.isPending_iff.1 pending).1.loaded
  refine After.get ?_
  refine (after_precedents follows ready asked pending (List.nil_append _).symm (.refl p)
    fun b member => absurd member List.not_mem_nil).bind ?_
  rintro _ q ⟨runs, finished⟩
  have typed' : q.input key = .formula source := ((runs.grows ready.valid).input loaded).trans typed
  have turn := turn_of_precedents ready asked pending runs finished
  refine (after_finishCell follows (ready.runs runs) turn typed').mono ?_
  rintro v p' ⟨runs', known⟩
  exact ⟨runs.trans runs', known⟩

/-- A pending cell that is read is not on the page of the innermost formula. -/
theorem Valid.askedAcross (valid : pass.Valid p) (asked : pass.Asked p key)
    (pending : p.isPending key) : pass.AskedAcross p key := by
  unfold Asked AskedAcross at *
  split at asked
  · exact asked
  · next top rest stackIs =>
    -- Inside its page the innermost formula reads settled cells only.
    refine asked.inside_or_across.resolve_left ?_
    rintro ⟨samePage, reads⟩
    have settled := valid.settled top (by rw [stackIs]; exact List.mem_cons_self) key.address reads
    rw [← samePage] at settled
    exact settled pending

theorem after_lookUp {settle : CellKey → String → Evaluating Value}
    (settles : ∀ source, p.isPending key → p.input key = .formula source →
      After (settle key source) p fun v p' => pass.Runs p p' ∧ pass.Answers p' key v)
    (asked : pass.Asked p key) (loaded : key.page < p.pages.size) :
    After (lookUp settle key) p fun v p' => pass.Runs p p' ∧ pass.Answers p' key v := by
  refine After.get ?_
  cases known : p.memo[key]? with
  | some v => exact .pure ⟨.refl p, .finished known⟩
  | none =>
    have unfinished := not_mem_of_unknown known
    -- A formula under evaluation is not entered again: reading it closes a cycle.
    by_cases entered : key ∈ p.stack
    · simp only [entered, if_true]
      refine After.bind (Q := fun _ q => q = p.closeCycle key) rfl ?_
      rintro - q rfl
      refine .pure ⟨⟨.single (.close entered asked), rfl⟩, .waiting entered fun other member => ?_⟩
      exact closeCycle_circular.2 (.inr member)
    · simp only [entered, if_false]
      cases typed : p.input key with
      | blank => exact .pure ⟨.refl p, .typed loaded (by rw [typed]; rfl)⟩
      | number x => exact .pure ⟨.refl p, .typed loaded (by rw [typed]; rfl)⟩
      | text s => exact .pure ⟨.refl p, .typed loaded (by rw [typed]; rfl)⟩
      | formula source =>
        have formula : p.IsFormula key := Sheet.isFormula_iff.2 ⟨source, typed⟩
        exact settles source (Progress.isPending_iff.2 ⟨formula, unfinished, entered⟩) typed

/-- The reader of cells follows the machine. -/
theorem readCell_follows (pass : Pass) (depth : Nat) :
    pass.Follows depth (readCell pass.book depth) := by
  induction depth with
  | zero =>
    intro p key ready asked loaded
    refine after_lookUp (fun source pending typed => ?_) asked loaded
    obtain ⟨formula, -, outside⟩ := Progress.isPending_iff.1 pending
    have askedAcross := ready.valid.askedAcross asked pending
    exact .pure ⟨.refl p, .tooDeep formula outside askedAcross ⟨_, ready.room, Nat.le_refl _⟩⟩
  | succ depth ih =>
    intro p key ready asked loaded
    refine after_lookUp (fun source pending typed => ?_) asked loaded
    refine (after_settleCell ih ready (ready.valid.askedAcross asked pending) pending typed).mono ?_
    rintro v p' ⟨runs, known⟩
    exact ⟨runs, .finished known⟩

end Pass
end PageCalc

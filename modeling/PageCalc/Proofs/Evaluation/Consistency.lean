import PageCalc.Proofs.Evaluation.OtherMonads
import PageCalc.Proofs.Evaluation.Refusal

/-!
# What an evaluation writes down is consistent

An evaluation may write down what happens in it: the states that it goes through, the formulas whose
expressions it evaluates, and what each call finds in the cell that it reads. All that is written down
fits together. Values that are known once stay as they are, no expression is evaluated twice, and
whatever a call finds in a formula is the value that the formula has in the end, unless the call is
refused for want of room. Such a call asks for none of the precedents of its formula, as they would be
refused like itself.
-/

namespace PageCalc

open Collection

variable {α β : Type}

/-! ## Writing a chronicle -/

/-- What happens in an evaluation. -/
inductive Event where
  /-- It goes on to another state. -/
  | state (p : Progress)
  /-- It begins to evaluate the expression of a formula. -/
  | start (key : CellKey)
  /-- The call that asked for a cell in some state finds its value. -/
  | answer (asked : Progress) (key : CellKey) (value : Value)

/-- The events of an evaluation, the earliest first. -/
abbrev Chronicle := List Event

/-- An evaluation that writes down what happens in it. -/
def Recording (α : Type) : Type := Progress → (α × Progress) × Chronicle

namespace Recording

instance : Monad Recording where
  pure a p := ((a, p), [])
  bind x f p :=
    let ((a, q), before) := x p
    let (outcome, after) := f a q
    (outcome, before ++ after)

instance : LawfulMonad Recording :=
  .mk' Recording (fun x => funext fun p => congrArg (Prod.mk _) (List.append_nil _)) (fun _ _ => rfl)
    fun x f g => funext fun p => congrArg (Prod.mk _) (List.append_assoc ..)

instance : MonadStateOf Progress Recording where
  get p := ((p, p), [])
  set q _ := ((⟨⟩, q), [.state q])
  modifyGet f p := (f p, [.state (f p).2])

theorem bind_apply (x : Recording α) (f : α → Recording β) (p : Progress) :
    (x >>= f) p = ((f (x p).1.1 (x p).1.2).1, (x p).2 ++ (f (x p).1.1 (x p).1.2).2) := rfl

def note (event : Event) : Recording Unit := fun p => (((), p), [event])

/-- Writes down what is found in a cell. -/
def answering (key : CellKey) (reading : Recording Value) : Recording Value := do
  let asked ← get
  let value ← reading
  note (.answer asked key value)
  return value

theorem answering_apply (key : CellKey) (reading : Recording Value) (p : Progress) :
    answering key reading p = ((reading p).1, (reading p).2 ++ [.answer p key (reading p).1.1]) := rfl

end Recording

open Recording

/-- Evaluates the formula of a cell unless its value is known. -/
def finishRecorded (w : Workbook) (read : CellKey → Recording Value) (key : CellKey)
    (source : String) : Recording Value := do
  match (← get).memo[key]? with
  | some value => return value
  | none => do
    note (.start key)
    evaluateFormulaCell w read key source

/-- Evaluates the pending cells that a formula needs, and then the formula. -/
def settleRecorded (w : Workbook) (read : CellKey → Recording Value) (key : CellKey)
    (source : String) : Recording Value := do
  for a in (← get).pendingPrecedents key do
    match (← get).input ⟨key.page, a⟩ with
    | .formula other =>
      discard <| answering ⟨key.page, a⟩ (finishRecorded w read ⟨key.page, a⟩ other)
    | _ => pure ()
  finishRecorded w read key source

/-- Reads a cell when `depth` more formulas may be entered. -/
def readRecorded (w : Workbook) : (depth : Nat) → CellKey → Recording Value
  | 0 => fun key => answering key (lookUp (fun _ _ => return .error .tooDeep) key)
  | depth + 1 => fun key => answering key (lookUp (settleRecorded w (readRecorded w depth)) key)

namespace Workbook

/-- Evaluates cells of the sheet. -/
def evaluateCellsRecorded (w : Workbook) (addresses : List Address) :
    Recording (List (Address × CellValue)) :=
  addresses.mapM fun a => do
    let value ← readRecorded w w.options.maxDepth ⟨Progress.root, a⟩
    return (a, value.toCellValue)

/-- Evaluates the sheet, with a chronicle. -/
def evaluateRecorded (w : Workbook) (cache : ParseCache) : (Result × Progress) × Chronicle :=
  let ((cells, p), chronicle) := w.evaluateCellsRecorded w.sheet.inputs.keys (w.begin cache)
  ((Std.ExtTreeMap.ofList cells, p), chronicle)

/-- The evaluation of an expression on the root page, with a chronicle. -/
def evaluationRecorded (w : Workbook) (e : Expr) : Recording Value :=
  evaluateExpr w.library (readReference w (readRecorded w w.options.maxDepth) Progress.root) e

end Workbook

/-! ## What a chronicle says -/

namespace Chronicle

def states (chronicle : Chronicle) : List Progress :=
  chronicle.filterMap fun event => match event with
    | .state p => some p
    | _ => none

/-- The formulas whose expressions are evaluated, once for each time. -/
def starts (chronicle : Chronicle) : List CellKey :=
  chronicle.filterMap fun event => match event with
    | .start key => some key
    | _ => none

/-- The chronicle of an evaluation from one state to another fits together. -/
structure Consistent (chronicle : Chronicle) (first last : Progress) : Prop where
  /-- What a call finds in a formula is its value in the end, unless the call is refused. -/
  finished : ∀ (asked : Progress) (key : CellKey) (v : Value), .answer asked key v ∈ chronicle →
    last.IsFormula key → v = .error .tooDeep ∨ last.memo[key]? = some v
  /-- What a call finds in any other cell is what was typed in. -/
  typed : ∀ (asked : Progress) (key : CellKey) (v : Value), .answer asked key v ∈ chronicle →
    ¬ last.IsFormula key → (last.input key).literal? = some v
  /-- A formula that is read again while it is under evaluation lies on a cycle, and that is what
  its value says in the end. -/
  waiting : ∀ (asked : Progress) (key : CellKey) (v : Value), .answer asked key v ∈ chronicle →
    key ∈ asked.stack → v = .error .circular ∧ last.memo[key]? = some (.error .circular)
  /-- A value that is known in one state is known in all that follow. -/
  known : (first :: chronicle.states).Pairwise fun p q =>
    ∀ (key : CellKey) (v : Value), p.memo[key]? = some v → q.memo[key]? = some v
  once : chronicle.starts.Nodup
  ends : (first :: chronicle.states).getLast? = some last

end Chronicle

namespace Pass

variable {pass : Pass} {p p' q : Progress} {key : CellKey} {v : Value} {depth : Nat}
variable {c d : Chronicle}

/-! ## What calls find -/

/-- What a call found in a cell, as it is borne out later on. -/
inductive Vouched (p : Progress) (key : CellKey) : Value → Prop where
  | refused (formula : p.IsFormula key) : Vouched p key (.error .tooDeep)
  | finished {v : Value} (known : p.memo[key]? = some v) : Vouched p key v
  | typed {v : Value} (loaded : key.page < p.pages.size) (literal : (p.input key).literal? = some v) :
      Vouched p key v
  | waiting (marked : key ∈ p.circular) : Vouched p key (.error .circular)

theorem Answers.vouched (answers : pass.Answers p key v) : Vouched p key v := by
  cases answers with
  | finished known => exact .finished known
  | typed loaded literal => exact .typed loaded literal
  | waiting entered marked => exact .waiting (marked key List.mem_cons_self)
  | tooDeep formula => exact .refused formula

/-- A formula that was found on a cycle keeps its mark until it is finished as circular. -/
theorem Step.circular (step : pass.Step p p') (marked : key ∈ p.circular) :
    key ∈ p'.circular ∨ p'.memo[key]? = some (.error .circular) := by
  cases step with
  | parse source => exact .inl marked
  | resolve page => exact .inl (Progress.resolve_circular (p := p) ▸ marked)
  | close entered asked => exact .inl (closeCycle_circular.2 (.inl marked))
  | enter => exact .inl marked
  | @leave other v innermost computed =>
    by_cases same : key = other
    · subst same
      have contained : p.circular.contains key := Std.ExtTreeSet.contains_iff_mem.2 marked
      refine .inr (leave_memo.trans ?_)
      simp [Progress.leave, contained]
    · exact .inl (mem_leave_circular.2 ⟨same, marked⟩)

theorem Step.vouched (valid : pass.Valid p) (step : pass.Step p p') (vouched : Vouched p key v) :
    Vouched p' key v := by
  have grows := step.grows valid
  cases vouched with
  | refused formula => exact .refused (grows.isFormula formula)
  | finished known => exact .finished (grows.memo key v known)
  | typed loaded literal =>
    exact .typed (Nat.lt_of_lt_of_le loaded grows.size) ((congrArg Input.literal? (grows.input loaded)).trans literal)
  | waiting marked => exact (step.circular marked).elim .waiting .finished

theorem Steps.vouched (valid : pass.Valid p) (steps : pass.Steps p p') (vouched : Vouched p key v) :
    Vouched p' key v := by
  induction steps with
  | refl => exact vouched
  | tail steps step ih => exact step.vouched (Steps.valid valid steps) ih

/-- What was found in a formula is its value when nothing is under evaluation any more. -/
theorem Vouched.final (valid : pass.Valid p) (idle : p.stack = []) (vouched : Vouched p key v) :
    (p.IsFormula key ∧ (v = .error .tooDeep ∨ p.memo[key]? = some v)) ∨
    (¬ p.IsFormula key ∧ (p.input key).literal? = some v) := by
  cases vouched with
  | refused formula => exact .inl ⟨formula, .inl rfl⟩
  | finished known => exact .inl ⟨valid.finished key (mem_of_known known), .inr known⟩
  | typed loaded literal =>
    refine .inr ⟨fun formula => ?_, literal⟩
    rw [Progress.literal?_of_isFormula formula] at literal
    cases literal
  | waiting marked =>
    have entered := (valid.marked key marked).1
    rw [idle] at entered
    cases entered

/-- A formula under evaluation is found on a cycle by whoever reads it. -/
theorem Answers.of_entered (valid : pass.Valid p) (entered : key ∈ p.stack)
    (answers : pass.Answers p key v) : v = .error .circular ∧ p.IsFormula key := by
  obtain ⟨formula, unfinished⟩ := valid.entered key entered
  refine ⟨?_, formula⟩
  cases answers with
  | finished known => exact absurd (mem_of_known known) unfinished
  | typed loaded literal =>
    rw [Progress.literal?_of_isFormula formula] at literal
    cases literal
  | waiting => rfl
  | tooDeep formula outside => exact absurd entered outside

/-! ## Chronicles of the machine -/

/-- A chronicle leads from one state to another by steps of the machine, and what it says that calls
found is true. -/
inductive Tells (pass : Pass) : Progress → Chronicle → Progress → Prop where
  | nil {p : Progress} : Tells pass p [] p
  | state {p q p' : Progress} {c : Chronicle} (step : pass.Step p q) (rest : Tells pass q c p') :
      Tells pass p (.state q :: c) p'
  | start {p p' : Progress} {key : CellKey} {c : Chronicle} (pending : p.isPending key)
      (step : pass.Step p (p.enter key)) (rest : Tells pass (p.enter key) c p') :
      Tells pass p (.start key :: .state (p.enter key) :: c) p'
  | answer {p p' asked : Progress} {key : CellKey} {v : Value} {c : Chronicle}
      (vouched : Vouched p key v)
      (entered : key ∈ asked.stack → v = .error .circular ∧ p.IsFormula key)
      (rest : Tells pass p c p') : Tells pass p (.answer asked key v :: c) p'

namespace Tells

theorem append (first : pass.Tells p c q) (second : pass.Tells q d p') : pass.Tells p (c ++ d) p' := by
  induction first with
  | nil => exact second
  | state step _ ih => exact .state step (ih second)
  | start pending step _ ih => exact .start pending step (ih second)
  | answer vouched entered _ ih => exact .answer vouched entered (ih second)

theorem steps (tells : pass.Tells p c p') : pass.Steps p p' := by
  induction tells with
  | nil => exact .refl
  | state step _ ih | start _ step _ ih => exact .head step ih
  | answer _ _ _ ih => exact ih

theorem answered {asked : Progress} (valid : pass.Valid p) (tells : pass.Tells p c p')
    (member : .answer asked key v ∈ c) : Vouched p' key v ∧
      (key ∈ asked.stack → v = .error .circular ∧ p'.IsFormula key) := by
  induction tells with
  | nil => cases member
  | state step _ ih =>
    exact ih (step.valid valid) ((List.mem_cons.1 member).resolve_left nofun)
  | start pending step _ ih =>
    have member := (List.mem_cons.1 member).resolve_left nofun
    exact ih (step.valid valid) ((List.mem_cons.1 member).resolve_left nofun)
  | answer vouched entered rest ih =>
    rcases List.mem_cons.1 member with same | later
    · cases same
      have steps := rest.steps
      refine ⟨Steps.vouched valid steps vouched, fun waiting => ?_⟩
      exact (entered waiting).imp_right (Steps.grows valid steps).isFormula
    · exact ih valid later

/-- What the steps of the machine keep holds in every state of a chronicle. -/
theorem invariant {I : Progress → Prop} (preserved : ∀ p q, pass.Valid p → pass.Step p q → I p → I q)
    (valid : pass.Valid p) (tells : pass.Tells p c p') (holds : I p) : ∀ s ∈ p :: c.states, I s := by
  refine List.forall_mem_cons.2 ⟨holds, ?_⟩
  induction tells with
  | nil => exact fun s member => absurd member List.not_mem_nil
  | state step _ ih | start _ step _ ih =>
    have next := preserved _ _ valid step holds
    exact List.forall_mem_cons.2 ⟨next, ih (step.valid valid) next⟩
  | answer _ _ _ ih => exact ih valid holds

theorem valid_states (valid : pass.Valid p) (tells : pass.Tells p c p') : ∀ s ∈ c.states, pass.Valid s :=
  fun s member => tells.invariant (fun _ _ valid step _ => step.valid valid) valid valid s
    (List.mem_cons_of_mem p member)

theorem grows (valid : pass.Valid p) (tells : pass.Tells p c p') : ∀ s ∈ c.states, p.Grows s :=
  fun s member => tells.invariant (fun _ _ valid step grows => grows.trans (step.grows valid)) valid
    (.refl p) s (List.mem_cons_of_mem p member)

theorem grows_last (valid : pass.Valid p) (tells : pass.Tells p c p') :
    ∀ s ∈ p :: c.states, s.Grows p' := by
  induction tells with
  | nil => exact fun s member => List.mem_singleton.1 member ▸ .refl s
  | state step rest ih | start _ step rest ih =>
    have valid' := step.valid valid
    have onward := (step.grows valid).trans (Steps.grows valid' rest.steps)
    exact List.forall_mem_cons.2 ⟨onward, ih valid'⟩
  | answer _ _ _ ih => exact ih valid

theorem known (valid : pass.Valid p) (tells : pass.Tells p c p') :
    (p :: c.states).Pairwise Progress.Grows := by
  refine List.pairwise_cons.2 ⟨tells.grows valid, ?_⟩
  induction tells with
  | nil => exact .nil
  | state step rest ih | start _ step rest ih =>
    have valid' := step.valid valid
    exact List.pairwise_cons.2 ⟨rest.grows valid', ih valid'⟩
  | answer _ _ _ ih => exact ih valid

theorem ends (tells : pass.Tells p c p') : (p :: c.states).getLast? = some p' := by
  induction tells with
  | nil => rfl
  | state _ _ ih | start _ _ _ ih => exact ih
  | answer _ _ _ ih => exact ih

/-- A formula that begins to be evaluated was neither finished nor under evaluation before. -/
theorem unfinished (valid : pass.Valid p) (tells : pass.Tells p c p') :
    ∀ key ∈ c.starts, key ∉ p.memo ∧ key ∉ p.stack := by
  have earlier {p q : Progress} (grows : p.Grows q) {key : CellKey}
      (open' : key ∉ q.memo ∧ key ∉ q.stack) : key ∉ p.memo ∧ key ∉ p.stack :=
    ⟨fun known => open'.1 (grows.mem_memo known),
      fun entered => (grows.waiting key entered).elim open'.2 open'.1⟩
  induction tells with
  | nil => exact fun key member => absurd member List.not_mem_nil
  | state step _ ih =>
    exact fun key member => earlier (step.grows valid) (ih (step.valid valid) key member)
  | start pending step _ ih =>
    refine List.forall_mem_cons.2 ⟨(Progress.isPending_iff.1 pending).2, fun key member => ?_⟩
    exact earlier (step.grows valid) (ih (step.valid valid) key member)
  | answer _ _ _ ih => exact ih valid

theorem once (valid : pass.Valid p) (tells : pass.Tells p c p') : c.starts.Nodup := by
  induction tells with
  | nil => exact .nil
  | state step _ ih => exact ih (step.valid valid)
  | start pending step rest ih =>
    have valid' := step.valid valid
    -- The formula is under evaluation by now, so it does not begin again.
    refine List.nodup_cons.2 ⟨fun again => ?_, ih valid'⟩
    exact (rest.unfinished valid' _ again).2 List.mem_cons_self
  | answer _ _ _ ih => exact ih valid

/-- When no formula is under evaluation any more, the chronicle fits together. -/
theorem consistent (valid : pass.Valid p) (tells : pass.Tells p c p') (idle : p'.stack = []) :
    c.Consistent p p' := by
  have valid' := Steps.valid valid tells.steps
  have final {asked : Progress} {key : CellKey} {v : Value} (member : .answer asked key v ∈ c) :=
    (tells.answered valid member).1.final valid' idle
  refine ⟨fun asked key v member formula => ?finished, fun asked key v member other => ?typed,
    fun asked key v member entered => ?waiting, ?known, tells.once valid, tells.ends⟩
  case finished => exact ((final member).resolve_right fun other => other.1 formula).2
  case typed => exact ((final member).resolve_left fun same => other same.1).2
  case waiting =>
    obtain ⟨rfl, formula⟩ := (tells.answered valid member).2 entered
    have value := ((final member).resolve_right fun other => other.1 formula).2
    exact ⟨rfl, value.resolve_left nofun⟩
  case known => exact (tells.known valid).imp fun grows => grows.memo

end Tells

/-! ## Recorded evaluations -/

/-- A recorded evaluation gives what the evaluation gives, and its chronicle tells what happens. -/
structure Records (pass : Pass) {α : Type} (recording : Recording α) (m : Evaluating α) (p : Progress) :
    Prop where
  same : (recording p).1 = m.run p
  tells : pass.Tells p (recording p).2 (m.run p).2

theorem Records.bind {recording : Recording α} {m : Evaluating α} {f : α → Recording β}
    {g : α → Evaluating β} (first : pass.Records recording m p)
    (second : pass.Records (f (m.run p).1) (g (m.run p).1) (m.run p).2) :
    pass.Records (recording >>= f) (m >>= g) p := by
  constructor
  · rw [bind_apply, first.same]
    exact second.same
  · rw [bind_apply, first.same]
    exact first.tells.append second.tells

/-- Statements about recorded evaluations that may be made of what they write down: that a formula begins
to be evaluated, and what a call finds. -/
structure Chronicler (pass : Pass) extends Companion pass Recording where
  holds_start : ∀ {α : Type} {x : Recording α} {m : Evaluating α} {p : Progress} {key : CellKey},
    p.isPending key → pass.Step p (p.enter key) → Holds x m (p.enter key) →
    Holds (note (.start key) >>= fun _ => modify (·.enter key) >>= fun _ => x)
      (modify (·.enter key) >>= fun _ => m) p
  holds_answering : ∀ {reading : Recording Value} {m : Evaluating Value} {p : Progress} {key : CellKey}
    {depth : Nat}, pass.Ready depth p → Holds reading m p →
    After m p (fun v q => pass.Runs p q ∧ pass.Answers q key v ∧ pass.Candid p q key v) →
    Holds (answering key reading) m p

theorem records_answering {reading : Recording Value} {m : Evaluating Value} (ready : pass.Ready depth p)
    (records : pass.Records reading m p)
    (after : After m p fun v q => pass.Runs p q ∧ pass.Answers q key v) :
    pass.Records (answering key reading) m p := by
  obtain ⟨runs, answers⟩ := after
  have entered : key ∈ p.stack → (m.run p).1 = .error .circular ∧ (m.run p).2.IsFormula key :=
    fun waiting => answers.of_entered (runs.valid ready.valid) (runs.stack ▸ waiting)
  have answered : pass.Tells (m.run p).2 [.answer p key (m.run p).1] (m.run p).2 :=
    .answer answers.vouched entered .nil
  constructor
  · exact records.same
  · rw [answering_apply, records.same]
    exact records.tells.append answered

/-- Recorded evaluations go along with evaluations. -/
def recording (pass : Pass) : Chronicler pass where
  Holds := pass.Records
  holds_pure _ _ := ⟨rfl, .nil⟩
  holds_bind first after second := first.bind (second _ _ after)
  holds_get _ := ⟨rfl, .nil⟩
  holds_step step := ⟨rfl, .state step .nil⟩
  holds_of_run_eq same records := ⟨records.same.trans same, same ▸ records.tells⟩
  holds_start pending step records := ⟨records.same, .start pending step records.tells⟩
  holds_answering ready records after :=
    records_answering ready records ⟨after.1, after.2.1⟩

namespace Chronicler

variable {read : CellReader} {attempt : CellKey → Recording Value} {source : String}
variable (chronicler : Chronicler pass)

theorem holds_finishRecorded (matches' : chronicler.Matches depth attempt read)
    (follows : pass.Follows depth read) (ready : pass.Ready (depth + 1) p)
    (turn : key ∉ p.memo → pass.Turn p key) (typed : p.input key = .formula source) :
    chronicler.Holds (finishRecorded pass.book attempt key source)
      (finishCell pass.book read key source) p := by
  refine chronicler.holds_finishCell fun unknown => ?_
  have turn := turn (not_mem_of_unknown unknown)
  rw [evaluateFormulaCell_eq_bind, evaluateFormulaCell_eq_bind]
  exact chronicler.holds_start turn.pending turn.step
    (chronicler.holds_afterEntering matches' follows ready turn typed)

theorem holds_settleRecorded (matches' : chronicler.Matches depth attempt read)
    (follows : pass.Follows depth read) (ready : pass.Ready (depth + 1) p)
    (asked : pass.AskedAcross p key) (pending : p.isPending key) (typed : p.input key = .formula source) :
    chronicler.Holds (settleRecorded pass.book attempt key source)
      (settleCell pass.book read key source) p := by
  refine chronicler.holds_settleCell follows ready asked pending typed ?_ ?_
  · intro a q source ready' typed' turn
    have holds := chronicler.holds_finishRecorded matches' follows ready' turn typed'
    have after : After (finishCell pass.book read ⟨key.page, a⟩ source) q fun v q' => pass.Runs q q' ∧
        pass.Answers q' ⟨key.page, a⟩ v ∧ pass.Candid q q' ⟨key.page, a⟩ v :=
      (after_finishCell follows ready' turn typed').mono fun _ _ holds =>
        ⟨holds.1, .finished holds.2, candid_of_known ready' holds.2⟩
    refine chronicler.holds_withState_left ?_
    rw [typed']
    exact chronicler.holds_andThen (chronicler.holds_map (chronicler.holds_answering ready' holds after))
      fun _ _ => chronicler.holds_pure _ _
  · intro q ready' typed' turn
    exact chronicler.holds_finishRecorded matches' follows ready' turn typed'

/-- The recorded reader of cells goes along with the reader of cells. -/
theorem readRecorded_matches (depth : Nat) :
    chronicler.Matches depth (readRecorded pass.book depth) (readCell pass.book depth) := by
  have answered {depth : Nat} {p : Progress} {key : CellKey} (ready : pass.Ready depth p)
      (asked : pass.Asked p key) (loaded : key.page < p.pages.size) :
      After (readCell pass.book depth key) p fun v q =>
        pass.Runs p q ∧ pass.Answers q key v ∧ pass.Candid p q key v :=
    have follows := readCell_follows pass depth p key ready asked loaded
    ⟨follows.1, follows.2, after_readCell_candid ready asked loaded⟩
  induction depth with
  | zero =>
    intro p key ready asked loaded
    refine chronicler.holds_answering ready ?_ (answered ready asked loaded)
    exact chronicler.holds_lookUp asked fun _ _ _ => chronicler.holds_pure _ p
  | succ depth ih =>
    intro p key ready asked loaded
    refine chronicler.holds_answering ready ?_ (answered ready asked loaded)
    refine chronicler.holds_lookUp asked fun source pending typed => ?_
    exact chronicler.holds_settleRecorded ih (readCell_follows pass depth) ready
      (ready.valid.askedAcross asked pending) pending typed

end Chronicler

end Pass

namespace Workbook

variable {w : Workbook}

theorem holds_evaluateCellsRecorded (w : Workbook) (cache : ParseCache) (addresses : List Address)
    (chronicler : (Pass.ofSheet w (some w.options.maxDepth)).Chronicler) :
    chronicler.Holds (w.evaluateCellsRecorded addresses) (w.evaluateCells addresses) (w.begin cache) :=
  chronicler.holds_evaluateCells (chronicler.readRecorded_matches w.options.maxDepth) (fun _ => rfl)
    addresses (Pass.ready_begin _ cache rfl) rfl

theorem records_evaluateCells (w : Workbook) (cache : ParseCache) (addresses : List Address) :
    (Pass.ofSheet w (some w.options.maxDepth)).Records (w.evaluateCellsRecorded addresses)
      (w.evaluateCells addresses) (w.begin cache) :=
  w.holds_evaluateCellsRecorded cache addresses (Pass.recording _)

theorem records_evaluation (w : Workbook) (cache : ParseCache) (e : Expr) :
    (Pass.ofFormula w (some w.options.maxDepth)).Records (w.evaluationRecorded e) (w.evaluation e)
      (w.begin cache) := by
  have matches' := (Pass.recording (.ofFormula w (some w.options.maxDepth))).readRecorded_matches
    w.options.maxDepth
  exact (Pass.recording _).holds_evaluation matches' (fun _ => trivial) e
    (Pass.ready_begin _ cache rfl) rfl

theorem evaluateRecorded_fst (w : Workbook) (cache : ParseCache) :
    (w.evaluateRecorded cache).1 = w.evaluateWith cache :=
  congrArg (fun outcome : List (Address × CellValue) × Progress =>
    ((Std.ExtTreeMap.ofList outcome.1 : Result), outcome.2))
    (w.records_evaluateCells cache w.sheet.inputs.keys).same

/-! ## Without room -/

/-- Where no formula may be entered, an evaluation finds what is known from the start. -/
theorem evaluateCells_zero (w : Workbook) (noRoom : w.options.maxDepth = 0) (addresses : List Address)
    {p : Progress} (idle : p.stack = []) : (w.evaluateCells addresses).run p =
      (addresses.map fun a => (a, (p.found ⟨Progress.root, a⟩).toCellValue), p) := by
  unfold evaluateCells
  rw [noRoom]
  induction addresses with
  | nil => rfl
  | cons a addresses ih =>
    have outside : ⟨Progress.root, a⟩ ∉ p.stack := idle ▸ List.not_mem_nil
    have first : (readCell w 0 ⟨Progress.root, a⟩).run p = (p.found ⟨Progress.root, a⟩, p) :=
      Prod.ext (after_readCell_zero outside).1 (after_readCell_zero outside).2
    simp only [List.mapM_cons, StateT.run_bind, StateT.run_pure, first]
    exact congrArg (fun outcome => ((a, _) :: outcome.1, outcome.2)) ih

/-- Then the cells of the sheet show what is found in them at the beginning. -/
theorem getElem?_evaluateWith_zero (w : Workbook) (cache : ParseCache) (noRoom : w.options.maxDepth = 0)
    (a : Address) : (w.evaluateWith cache).1[a]? =
      (w.sheet.inputs[a]?).map fun _ => ((w.begin cache).found ⟨Progress.root, a⟩).toCellValue := by
  have cells := w.evaluateCells_zero noRoom w.sheet.inputs.keys (p := w.begin cache) rfl
  have each : List.Forall₂ (fun a (cell : Address × CellValue) => cell.1 = a ∧
      cell.2 = ((w.begin cache).found ⟨Progress.root, a⟩).toCellValue) w.sheet.inputs.keys
      (w.sheet.inputs.keys.map fun a => (a, ((w.begin cache).found ⟨Progress.root, a⟩).toCellValue)) :=
    List.forall₂_map_right_iff.2 (List.forall₂_same.2 fun _ _ => ⟨rfl, rfl⟩)
  rw [evaluateWith, cells]
  rcases getElem?_ofList (fun a x => x = ((w.begin cache).found ⟨Progress.root, a⟩).toCellValue) each a with
    ⟨blank, none⟩ | ⟨typed, x, rfl, shown⟩
  · rw [Std.ExtTreeMap.getElem?_eq_none blank]
    exact none
  · rw [Std.ExtTreeMap.getElem?_eq_some_getElem typed]
    exact shown

/-- The value that a formula of the root page has in the end is the one in the result. -/
theorem getElem?_evaluateWith_of_known (w : Workbook) {cache : ParseCache} {a : Address} {v : Value}
    (known : (w.finalState cache).memo[(⟨Progress.root, a⟩ : CellKey)]? = some v) :
    (w.evaluateWith cache).1[a]? = some v.toCellValue := by
  have runs := w.runs_evaluate w.options.maxDepth cache
  have valid := runs.valid (Pass.valid_begin _ cache)
  have formula : (w.finalState cache).IsFormula ⟨Progress.root, a⟩ := valid.finished _ (mem_of_known known)
  have onSheet : w.sheet.isFormula a := isFormula_finalState_iff.1 formula
  obtain ⟨u, answers, isValue⟩ := answers_of_isFormula onSheet
  rcases answers.of_idle runs.stack with known' | literal | ⟨-, -, isZero⟩
  · cases known.symm.trans known'
    exact isValue
  · rw [Progress.literal?_of_isFormula formula] at literal
    cases literal
  · -- No formula may be entered, so what is known now was known from the beginning.
    have noRoom : w.options.maxDepth = 0 := Option.some.inj isZero
    have still : w.finalState cache = w.begin cache :=
      congrArg Prod.snd (w.evaluateCells_zero noRoom w.sheet.inputs.keys rfl)
    have known : (w.begin cache).memo[(⟨Progress.root, a⟩ : CellKey)]? = some v := still ▸ known
    rw [w.getElem?_evaluateWith_zero cache noRoom,
      Std.ExtTreeMap.getElem?_eq_some_getElem (Sheet.mem_inputs_of_isFormula onSheet), Progress.found, known]
    rfl

/-! ## Consistency -/

/-- The evaluation of a sheet, and that of an expression on it, are consistent with themselves, whatever
the resolver, the functions and the options are. -/
theorem evaluate_consistent (w : Workbook) (cache : ParseCache) (e : Expr) :
    (w.evaluateRecorded cache).1 = w.evaluateWith cache ∧
    (w.evaluateRecorded cache).2.Consistent (w.begin cache) (w.finalState cache) ∧
    (∀ (asked : Progress) (a : Address) (v : Value),
      Event.answer asked ⟨Progress.root, a⟩ v ∈ (w.evaluateRecorded cache).2 → w.sheet.isFormula a →
      v = .error .tooDeep ∨ (w.evaluateWith cache).1[a]? = some v.toCellValue) ∧
    (w.evaluationRecorded e (w.begin cache)).1 = (w.evaluation e).run (w.begin cache) ∧
    (w.evaluationRecorded e (w.begin cache)).2.Consistent (w.begin cache)
      ((w.evaluation e).run (w.begin cache)).2 := by
  have tells := (w.records_evaluateCells cache w.sheet.inputs.keys).tells
  obtain ⟨same', tells'⟩ := w.records_evaluation cache e
  have runs := w.runs_evaluate w.options.maxDepth cache
  have runs' := (w.after_evaluation w.options.maxDepth cache e).1
  have consistent := tells.consistent (Pass.valid_begin _ cache) runs.stack
  refine ⟨w.evaluateRecorded_fst cache, consistent, ?_, same',
    tells'.consistent (Pass.valid_begin _ cache) runs'.stack⟩
  intro asked a v member formula
  have onRoot : (w.finalState cache).sheet Progress.root = w.sheet :=
    Pass.root_sheet (runs.valid (Pass.valid_begin _ cache))
  have isFormula : (w.finalState cache).IsFormula ⟨Progress.root, a⟩ := by
    rw [Progress.IsFormula, onRoot]
    exact formula
  exact (consistent.finished asked _ v member isFormula).imp_right w.getElem?_evaluateWith_of_known

end Workbook
end PageCalc

import PageCalc.Proofs.Evaluation.OtherMonads

/-!
# Termination

A cell may also be read by plain recursion. Its pending precedents are then read by the same
recursion, each of them with its own precedents, and room for a formula is looked for only after that.
Neither the pages nor the formulas under evaluation make this recursion smaller from call to call: the
resolver may go on to name new pages, precedents are read with the same formulas under evaluation, and
a cell that is refused for want of room is not remembered. Yet it always returns, with what the
evaluation gives, and the number of calls that are nested is bounded by the limit on the depth and the
size of the largest grid alone.
-/

namespace PageCalc

open Collection

variable {α β : Type}

/-- An evaluation that may give up before it returns. -/
abbrev Attempt := StateT Progress Option

/-- Evaluates the formula of a cell unless its value is known or there is no room for it. -/
def finishPlainly (w : Workbook) (read : CellKey → Attempt Value) (key : CellKey)
    (source : String) : Attempt Value := do
  match (← get).memo[key]? with
  | some value => return value
  | none =>
    if w.options.maxDepth ≤ (← get).stack.length then return .error .tooDeep
    else evaluateFormulaCell w read key source

/-- Reads the pending precedents of a formula as any other cell is read, and then evaluates it. -/
def settlePlainly (w : Workbook) (read : CellKey → Attempt Value) (key : CellKey)
    (source : String) : Attempt Value := do
  for a in (← get).pendingPrecedents key do
    discard <| read ⟨key.page, a⟩
  finishPlainly w read key source

/-- Reads a cell by plain recursion. It gives up where more than `calls` calls would be nested. -/
def readPlainly (w : Workbook) : (calls : Nat) → CellKey → Attempt Value
  | 0 => fun _ => failure
  | calls + 1 => lookUp (settlePlainly w (readPlainly w calls))

namespace Workbook

/-- Evaluates cells of the sheet by plain recursion. -/
def evaluateCellsPlainly (w : Workbook) (calls : Nat) (addresses : List Address) :
    Attempt (List (Address × CellValue)) :=
  addresses.mapM fun a => do
    let value ← readPlainly w calls ⟨Progress.root, a⟩
    return (a, value.toCellValue)

/-- Evaluates the sheet by plain recursion, unless more than `calls` calls would be nested. -/
def evaluatePlainly (w : Workbook) (calls : Nat) (cache : ParseCache) : Option (Result × Progress) := do
  let (cells, p) ← (w.evaluateCellsPlainly calls w.sheet.inputs.keys).run (w.begin cache)
  return (Std.ExtTreeMap.ofList cells, p)

/-- Evaluates a formula by plain recursion, unless more than `calls` calls would be nested. -/
def evaluateFormulaPlainly (w : Workbook) (calls : Nat) (formula : String) :
    Option (CellValue × List PageRef) :=
  match Expr.ofFormula formula with
  | .error fault => some (.error fault.toCellError, [])
  | .ok e => do
    let read := readReference w (readPlainly w calls) Progress.root
    let (value, p) ← (evaluateExpr w.library read e).run (w.begin .empty)
    return (value.finish.toCellValue, p.calls)

/-- How many calls may be nested. Neither the resolver nor the sheets have a say in it. -/
def callBound (w : Workbook) : Nat := 2 * w.options.maxDepth + maxRows * maxColumns + 1

end Workbook

/-! ## Attempts that return -/

/-- The attempt returns in a state, with the outcome and the state of an evaluation. -/
def Returns (attempt : Attempt α) (m : Evaluating α) (p : Progress) : Prop :=
  attempt.run p = some (m.run p)

namespace Returns

variable {attempt : Attempt α} {m : Evaluating α} {p : Progress} {Q : α → Progress → Prop}
variable {f : α → Attempt β} {g : α → Evaluating β}

theorem bind (first : Returns attempt m p) (after : After m p Q)
    (second : ∀ a q, Q a q → Returns (f a) (g a) q) : Returns (attempt >>= f) (m >>= g) p := by
  have onward := second _ _ after
  unfold Returns at *
  rw [StateT.run_bind, first]
  exact onward

/-- The second parts may return whatever the first gives. -/
theorem andThen (first : Returns attempt m p) (second : ∀ a q, Returns (f a) (g a) q) :
    Returns (attempt >>= f) (m >>= g) p :=
  first.bind (Q := fun _ _ => True) trivial fun a q _ => second a q

theorem get_left {f : Progress → Attempt α} (onward : Returns (f p) m p) :
    Returns (MonadState.get >>= f) m p := onward

theorem get_right {g : Progress → Evaluating α} (onward : Returns attempt (g p) p) :
    Returns attempt (MonadState.get >>= g) p := onward

theorem map {h : α → β} (returns : Returns attempt m p) : Returns (h <$> attempt) (h <$> m) p := by
  unfold Returns at *
  rw [StateT.run_map, returns]
  rfl

theorem discard (returns : Returns attempt m p) : Returns (discard attempt) (discard m) p :=
  returns.map

end Returns

namespace Pass

variable {pass : Pass} {p q : Progress} {key : CellKey} {place depth : Nat} {read : CellReader}
variable {attempt : CellKey → Attempt Value}

/-- Wherever `depth` more formulas may be entered, the attempt to read a cell returns with what `read`
gives. -/
def Matches (pass : Pass) (depth : Nat) (attempt : CellKey → Attempt Value) (read : CellReader) : Prop :=
  ∀ p key, pass.Ready depth p → pass.Asked p key → key.page < p.pages.size →
    Returns (attempt key) (read key) p

/-- Attempts that return go along with evaluations. -/
def returning (pass : Pass) : Companion pass Attempt where
  Holds := Returns
  holds_pure _ _ := rfl
  holds_bind first after second := first.bind after second
  holds_get _ := rfl
  holds_step _ := rfl
  holds_of_run_eq same returns := returns.trans (congrArg some same)

/-! ## Cells -/

/-- The evaluation of a workbook with its own limit on the depth. -/
def Limited (pass : Pass) : Prop := pass.limit? = some pass.book.options.maxDepth

theorem returns_finishPlainly {source : String} (limited : pass.Limited)
    (matches' : pass.Matches depth attempt read) (follows : pass.Follows depth read)
    (ready : pass.Ready (depth + 1) p) (turn : key ∉ p.memo → pass.Turn p key)
    (typed : p.input key = .formula source) :
    Returns (finishPlainly pass.book attempt key source) (finishCell pass.book read key source) p := by
  refine Returns.get_left (Returns.get_right ?_)
  cases known : p.memo[key]? with
  | some v => rfl
  | none =>
    have room : ¬ pass.book.options.maxDepth ≤ p.stack.length := by
      have same := Option.some.inj (limited.symm.trans ready.room)
      omega
    refine Returns.get_left ?_
    rw [if_neg room]
    have turn := turn (not_mem_of_unknown known)
    exact pass.returning.holds_evaluateFormulaCell matches' follows ready turn typed

/-- A precedent has no pending precedents when its turn comes, so that reading it finishes it. -/
theorem returns_precedent {calls : Nat} {source : String} (limited : pass.Limited)
    (matches' : pass.Matches depth (readPlainly pass.book calls) read)
    (follows : pass.Follows depth read) (ready : pass.Ready (depth + 1) p)
    (turn : key ∉ p.memo → pass.Turn p key) (typed : p.input key = .formula source) :
    Returns (readPlainly pass.book (calls + 1) key) (finishCell pass.book read key source) p := by
  have finished := returns_finishPlainly limited matches' follows ready turn typed
  refine Returns.get_left ?_
  cases known : p.memo[key]? with
  | some v =>
    refine Returns.get_right ?_
    rw [known]
    rfl
  | none =>
    have turn := turn (not_mem_of_unknown known)
    obtain ⟨-, -, outside⟩ := Progress.isPending_iff.1 turn.pending
    have noPrecedents :=
      Progress.pendingPrecedents_eq_nil ready.valid.toKept turn.pending turn.settled
    simp only [outside, if_false, typed]
    refine Returns.get_left ?_
    rw [noPrecedents]
    exact finished

/-- The recursion reads the precedents one after the other, as the evaluation finishes them. -/
theorem returns_settlePlainly {calls : Nat} {source : String} (limited : pass.Limited)
    (matches' : pass.Matches depth (readPlainly pass.book calls) read)
    (matchesMore : pass.Matches depth (readPlainly pass.book (calls + 1)) read)
    (follows : pass.Follows depth read) (ready : pass.Ready (depth + 1) p)
    (asked : pass.AskedAcross p key) (pending : p.isPending key)
    (typed : p.input key = .formula source) :
    Returns (settlePlainly pass.book (readPlainly pass.book (calls + 1)) key source)
      (settleCell pass.book read key source) p := by
  refine pass.returning.holds_settleCell follows ready asked pending typed ?_ ?_
  · intro a q source ready' typed' turn
    exact (returns_precedent limited matches' follows ready' turn typed').discard.andThen fun _ _ => rfl
  · intro q ready' typed' turn
    exact returns_finishPlainly limited matchesMore follows ready' turn typed'

/-! ## Without room -/

/-- Cells that are refused leave everything as it is. -/
theorem returns_refusals {precedents : List Address}
    (refused : ∀ a ∈ precedents, Returns (attempt ⟨place, a⟩) (pure (.error .tooDeep)) p) :
    Returns
      (forIn precedents PUnit.unit fun a _ => do
        discard <| attempt ⟨place, a⟩
        pure (ForInStep.yield PUnit.unit))
      (pure PUnit.unit) p := by
  induction precedents with
  | nil => rfl
  | cons a precedents ih =>
    obtain ⟨first, rest⟩ := List.forall_mem_cons.1 refused
    rw [List.forIn_cons]
    have skipped : Returns (discard (attempt ⟨place, a⟩)) (pure PUnit.unit) p := first.discard
    refine Returns.bind (m := pure (.yield PUnit.unit)) (g := fun _ => pure PUnit.unit)
      (Q := fun step q => step = .yield PUnit.unit ∧ q = p) ?_ ⟨rfl, rfl⟩ ?_
    · exact skipped.andThen (f := fun _ => pure (ForInStep.yield PUnit.unit))
        (g := fun _ => pure (ForInStep.yield PUnit.unit)) fun _ _ => rfl
    · rintro _ _ ⟨rfl, rfl⟩
      exact ih rest

theorem returns_settle_refused {w : Workbook} {source : String}
    (full : w.options.maxDepth ≤ p.stack.length) (unknown : p.memo[key]? = none)
    (refused : ∀ a ∈ p.pendingPrecedents key,
      Returns (attempt ⟨key.page, a⟩) (pure (.error .tooDeep)) p) :
    Returns (settlePlainly w attempt key source) (pure (.error .tooDeep)) p := by
  refine Returns.get_left (Returns.bind (m := pure PUnit.unit) (g := fun _ => pure _)
    (Q := fun _ q => q = p) (returns_refusals refused) rfl ?_)
  rintro - _ rfl
  refine Returns.get_left ?_
  rw [unknown]
  refine Returns.get_left ?_
  rw [if_pos full]
  rfl

/-- A pending cell without room for its formula is refused. Its precedents are read before that and are
refused as well; each has fewer precedents than the one that needs it. -/
theorem returns_refused {w : Workbook} (kept : p.Kept) (full : w.options.maxDepth ≤ p.stack.length)
    {calls : Nat} (pending : p.isPending key) (enough : (p.pendingPrecedents key).length < calls) :
    Returns (readPlainly w calls key) (pure (.error .tooDeep)) p := by
  induction calls generalizing key with
  | zero => exact absurd enough (Nat.not_lt_zero _)
  | succ calls ih =>
    obtain ⟨formula, unfinished, outside⟩ := Progress.isPending_iff.1 pending
    obtain ⟨source, typed⟩ := Sheet.isFormula_iff.1 formula
    have typed : p.input key = .formula source := typed
    have unknown : p.memo[key]? = none := Std.ExtTreeMap.getElem?_eq_none unfinished
    refine Returns.get_left ?_
    simp only [unknown, outside, if_false, typed]
    refine returns_settle_refused full unknown fun a member => ?_
    have fewer := Progress.length_pendingPrecedents_lt kept pending member
    exact ih (Progress.mem_pendingPrecedents kept formula.loaded member).1 (by omega)

/-! ## All cells -/

/-- Plain recursion reads every cell as the evaluation does. Two calls are nested for each formula that
may still be entered: one for the cell that the formula reads and one for a precedent of it. -/
theorem readPlainly_matches (limited : pass.Limited) {calls : Nat}
    (enough : 2 * depth + maxRows * maxColumns < calls) :
    pass.Matches depth (readPlainly pass.book calls) (readCell pass.book depth) := by
  induction depth generalizing calls with
  | zero =>
    intro p key ready asked loaded
    obtain ⟨calls, rfl⟩ := Nat.exists_eq_add_one.2 (Nat.zero_lt_of_lt enough)
    refine pass.returning.holds_lookUp asked fun source pending typed => ?_
    have kept := ready.valid.toKept
    have full := (Option.some.inj (limited.symm.trans ready.room)).le
    have few := Progress.length_pendingPrecedents_le kept pending
    obtain ⟨formula, unfinished, -⟩ := Progress.isPending_iff.1 pending
    have unknown := Std.ExtTreeMap.getElem?_eq_none unfinished
    refine returns_settle_refused full unknown fun a member => ?_
    have fewer := Progress.length_pendingPrecedents_lt kept pending member
    have pendingA := (Progress.mem_pendingPrecedents kept formula.loaded member).1
    exact returns_refused kept full pendingA (by omega)
  | succ depth ih =>
    obtain ⟨calls, rfl⟩ := Nat.exists_eq_add_of_le' (show 2 ≤ calls by omega)
    intro p key ready asked loaded
    refine pass.returning.holds_lookUp asked fun source pending typed => ?_
    exact returns_settlePlainly limited (ih (by omega)) (ih (by omega)) (readCell_follows pass depth)
      ready (ready.valid.askedAcross asked pending) pending typed

end Pass

namespace Workbook

variable {w : Workbook} {calls : Nat}

theorem returns_evaluateCells (enough : w.callBound ≤ calls) (addresses : List Address) {p : Progress}
    (ready : (Pass.ofSheet w (some w.options.maxDepth)).Ready w.options.maxDepth p)
    (idle : p.stack = []) :
    Returns (w.evaluateCellsPlainly calls addresses) (w.evaluateCells addresses) p := by
  have limited : (Pass.ofSheet w (some w.options.maxDepth)).Limited := rfl
  exact (Pass.returning _).holds_evaluateCells (Pass.readPlainly_matches limited enough) (fun _ => rfl)
    addresses ready idle

theorem returns_evaluation (enough : w.callBound ≤ calls) (cache : ParseCache) (e : Expr) :
    Returns (evaluateExpr w.library (readReference w (readPlainly w calls) Progress.root) e)
      (w.evaluation e) (w.begin cache) := by
  have limited : (Pass.ofFormula w (some w.options.maxDepth)).Limited := rfl
  exact (Pass.returning _).holds_evaluation (Pass.readPlainly_matches limited enough)
    (fun _ => trivial) e (Pass.ready_begin _ cache rfl) rfl

/-- Evaluation returns, whatever the sheet, the resolver, the functions and the options are, and
whatever formula is evaluated: plain recursion that may nest `callBound` calls or more gives up
nowhere, and finds what the evaluation gives. -/
theorem evaluate_returns (w : Workbook) (spare : Nat) (cache : ParseCache) (formula : String) :
    w.evaluatePlainly (w.callBound + spare) cache = some (w.evaluateWith cache) ∧
    w.evaluateFormulaPlainly (w.callBound + spare) formula = some (w.evaluateFormula formula) := by
  have enough : w.callBound ≤ w.callBound + spare := Nat.le_add_right ..
  constructor
  · have ready : (Pass.ofSheet w (some w.options.maxDepth)).Ready w.options.maxDepth (w.begin cache) :=
      Pass.ready_begin _ cache rfl
    have returns := returns_evaluateCells enough w.sheet.inputs.keys ready rfl
    unfold evaluatePlainly
    rw [returns]
    rfl
  · unfold evaluateFormulaPlainly evaluateFormula
    cases Expr.ofFormula formula with
    | error fault => rfl
    | ok e =>
      have returns := returns_evaluation enough .empty e
      simp only
      rw [returns]
      rfl

end Workbook

end PageCalc

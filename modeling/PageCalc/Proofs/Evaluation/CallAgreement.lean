import PageCalc.Proofs.Evaluation.Consistency
import PageCalc.Proofs.Evaluation.Shelves

/-!
# When calls agree

The value of a formula does not depend on who asks for it, but whether a call gets to it does: a call is
refused if it is made when the limit on the depth is reached, and another one may come when it is not.
Two calls for a formula disagree if just one of them is refused, except where the value in the end is
that error itself. The cells of the sheet that is evaluated are never refused their own values.
-/

namespace PageCalc

open Collection Recording

namespace Pass

variable {α β : Type} {pass : Pass} {p : Progress}

/-- A recorded evaluation whose chronicle tells what happens, and in which refusals stand where calls are
refused, and only there. -/
structure Discloses (pass : Pass) {α : Type} (recording : Recording α) (m : Evaluating α) (p : Progress) :
    Prop extends pass.Records recording m p where
  candid : pass.Valid p → ∀ (asked : Progress) (key : CellKey) (v : Value),
    .answer asked key v ∈ (recording p).2 → pass.Candid asked (m.run p).2 key v

theorem Discloses.of_silent {recording : Recording α} {m : Evaluating α} (records : pass.Records recording m p)
    (silent : ∀ asked key v, .answer asked key v ∉ (recording p).2) : pass.Discloses recording m p :=
  ⟨records, fun _ asked key v member => absurd member (silent asked key v)⟩

theorem Discloses.bind {recording : Recording α} {m : Evaluating α} {f : α → Recording β}
    {g : α → Evaluating β} (first : pass.Discloses recording m p)
    (second : pass.Discloses (f (m.run p).1) (g (m.run p).1) (m.run p).2) :
    pass.Discloses (recording >>= f) (m >>= g) p := by
  refine ⟨first.toRecords.bind second.toRecords, fun valid asked key v member => ?_⟩
  have valid' := Steps.valid valid first.tells.steps
  rw [bind_apply, first.same, List.mem_append] at member
  rcases member with earlier | later
  · exact (first.candid valid asked key v earlier).grows (Steps.grows valid' second.tells.steps)
  · exact second.candid valid' asked key v later

theorem discloses_answering {reading : Recording Value} {m : Evaluating Value} {key : CellKey} {depth : Nat}
    (ready : pass.Ready depth p) (discloses : pass.Discloses reading m p)
    (after : After m p fun v q => pass.Runs p q ∧ pass.Answers q key v ∧ pass.Candid p q key v) :
    pass.Discloses (answering key reading) m p := by
  obtain ⟨runs, answers, candid⟩ := after
  refine ⟨records_answering ready discloses.toRecords ⟨runs, answers⟩, fun valid asked key' v member => ?_⟩
  rw [answering_apply, List.mem_append, discloses.same] at member
  rcases member with inside | own
  · exact discloses.candid valid asked key' v inside
  · cases List.mem_singleton.1 own
    exact candid

/-- Recorded evaluations that disclose their refusals go along with evaluations. -/
def disclosure (pass : Pass) : Chronicler pass where
  Holds := pass.Discloses
  holds_pure _ _ := .of_silent ⟨rfl, .nil⟩ fun _ _ _ => List.not_mem_nil
  holds_bind first after second := first.bind (second _ _ after)
  holds_get _ := .of_silent ⟨rfl, .nil⟩ fun _ _ _ => List.not_mem_nil
  holds_step step := .of_silent ⟨rfl, .state step .nil⟩ fun _ _ _ member => by
    cases List.mem_singleton.1 member
  holds_of_run_eq same discloses :=
    ⟨⟨discloses.same.trans same, same ▸ discloses.tells⟩, same ▸ discloses.candid⟩
  holds_start pending step discloses := by
    refine ⟨(pass.recording.holds_start pending step discloses.toRecords : _), ?_⟩
    intro valid asked key v member
    have member := (List.mem_cons.1 member).resolve_left nofun
    have member := (List.mem_cons.1 member).resolve_left nofun
    exact discloses.candid (step.valid valid) asked key v member
  holds_answering := discloses_answering

end Pass

namespace Workbook

variable {w : Workbook} {cache : ParseCache} {a : Address}

/-- A formula of the sheet has a value in the end if any formula may be entered at all. -/
theorem finished_of_isFormula (w : Workbook) (cache : ParseCache) (room : 0 < w.options.maxDepth)
    (formula : w.sheet.isFormula a) : ∃ v,
      (w.finalState cache).memo[(⟨Progress.root, a⟩ : CellKey)]? = some v ∧
      (w.evaluateWith cache).1[a]? = some v.toCellValue := by
  obtain ⟨v, answers, shown⟩ := answers_of_isFormula formula
  rcases answers.of_idle (w.runs_evaluate w.options.maxDepth cache).stack with known | literal | ⟨-, -, isZero⟩
  · exact ⟨v, known, shown⟩
  · have isFormula : (w.finalState cache).IsFormula ⟨Progress.root, a⟩ := isFormula_finalState_iff.2 formula
    cases literal.symm.trans (Progress.literal?_of_isFormula isFormula)
  · exact absurd (Option.some.inj isZero) (Nat.ne_of_gt room)

/-- A call for a cell is refused its value in the evaluation of the sheet. -/
def Refuses (w : Workbook) (asked : Progress) (key : CellKey) : Prop :=
  asked.isPending key ∧ w.options.maxDepth ≤ asked.stack.length

instance {asked : Progress} {key : CellKey} : Decidable (w.Refuses asked key) :=
  inferInstanceAs (Decidable (_ ∧ _))

theorem refuses_iff {asked : Progress} {key : CellKey} :
    (Pass.ofSheet w (some w.options.maxDepth)).Refuses asked key ↔ w.Refuses asked key := by
  simp [Pass.Refuses, Refuses, Pass.ofSheet]

/-- A call for a formula that is refused finds the error that says so, and any other call finds the value
of the formula in the end. -/
theorem answer_of_isFormula {asked : Progress} {key : CellKey} {v : Value}
    (member : .answer asked key v ∈ (w.evaluateRecorded cache).2)
    (formula : (w.finalState cache).IsFormula key) :
    (w.Refuses asked key ∧ v = .error .tooDeep) ∨
      (¬ w.Refuses asked key ∧ (w.finalState cache).memo[key]? = some v) := by
  have discloses := w.holds_evaluateCellsRecorded cache w.sheet.inputs.keys (Pass.disclosure _)
  have valid := (Pass.ofSheet w (some w.options.maxDepth)).valid_begin cache
  have idle := (w.runs_evaluate w.options.maxDepth cache).stack
  have candid : Pass.Candid _ asked (w.finalState cache) key v := discloses.candid valid asked key v member
  have found := (discloses.tells.consistent valid idle).finished asked key v member formula
  by_cases refused : w.Refuses asked key
  · exact .inl ⟨refused, candid.refused (refuses_iff.2 refused)⟩
  · refine .inr ⟨refused, found.elim (fun same => ?_) id⟩
    exact candid.admitted (fun refuses => refused (refuses_iff.1 refuses)) same

/-- What the calls for a formula have to do with each other and with the result, if any formula may be
entered at all. -/
theorem calls_agree_iff (w : Workbook) (cache : ParseCache) (room : 0 < w.options.maxDepth)
    (key : CellKey) (formula : (w.finalState cache).IsFormula key) :
    (∀ asked v, .answer asked key v ∈ (w.evaluateRecorded cache).2 →
      (w.Refuses asked key ∧ v = .error .tooDeep) ∨
        (¬ w.Refuses asked key ∧ (w.finalState cache).memo[key]? = some v)) ∧
    (∀ asked v asked' v', .answer asked key v ∈ (w.evaluateRecorded cache).2 →
      .answer asked' key v' ∈ (w.evaluateRecorded cache).2 →
      (v = v' ↔ (w.Refuses asked key ↔ w.Refuses asked' key) ∨
        (w.finalState cache).memo[key]? = some (.error .tooDeep))) ∧
    (key.page = Progress.root → ∃ v, (w.finalState cache).memo[key]? = some v ∧
      (w.evaluateWith cache).1[key.address]? = some v.toCellValue) := by
  refine ⟨fun asked v member => answer_of_isFormula member formula, ?pairs, ?own⟩
  case pairs =>
    intro asked v asked' v' member member'
    -- Two refused calls find the same error, two admitted ones the same value.
    rcases answer_of_isFormula member formula with ⟨refused, rfl⟩ | ⟨admitted, known⟩ <;>
      rcases answer_of_isFormula member' formula with ⟨refused', rfl⟩ | ⟨admitted', known'⟩
    · simp [refused, refused']
    · simp [refused, admitted', known', eq_comm]
    · simp [admitted, refused', known]
    · simp [admitted, admitted', Option.some.inj (known.symm.trans known')]
  case own =>
    obtain ⟨place, a⟩ := key
    rintro rfl
    have onRoot : (w.finalState cache).sheet Progress.root = w.sheet :=
      Pass.root_sheet ((w.runs_evaluate w.options.maxDepth cache).valid (Pass.valid_begin _ cache))
    refine w.finished_of_isFormula cache room ?_
    rw [← onRoot]
    exact formula

end Workbook

/-- The first cell reads the second one by the identifier of their own page. -/
def Sheet.selfNaming : Sheet := .ofInputs [(⟨0, 0⟩, "=@[Main](main):B1"), (⟨0, 1⟩, "=TRUE")]

/-- Whether an event is a call for a cell that is refused, or one that is not. -/
def Event.isCall (w : Workbook) (key : CellKey) (refused : Bool) : Event → Bool
  | .answer asked other _ => decide (other = key) && (decide (w.Refuses asked key) == refused)
  | .state _ | .start _ => false

namespace Workbook

/-- There is room for one formula at a time. -/
def crowded : Workbook := { sheet := Sheet.selfNaming, pageId := "main", options := { maxDepth := 1 } }

def crowdedCache : ParseCache :=
  .ofExprs [.across "main" "Main" ⟨0, 1⟩, .boolean true] <| by
    simp only [List.forall_mem_cons]
    exact ⟨Expr.ofFormula_across (by decide) (by decide) (by decide) (by decide),
      Expr.ofFormula_of_room trivial (by decide), List.forall_mem_nil _⟩

theorem exists_call {w : Workbook} {cache : ParseCache} (key : CellKey) (refused : Bool)
    (found : (w.evaluateRecorded cache).2.any (Event.isCall w key refused)) :
    ∃ asked v, .answer asked key v ∈ (w.evaluateRecorded cache).2 ∧ (w.Refuses asked key ↔ refused) := by
  obtain ⟨event, member, isCall⟩ := List.any_eq_true.1 found
  cases event with
  | state | start => cases isCall
  | answer asked other v =>
    simp only [Event.isCall, Bool.and_eq_true, decide_eq_true_eq, beq_iff_eq] at isCall
    obtain ⟨rfl, refuses⟩ := isCall
    exact ⟨asked, v, member, by rw [← refuses, decide_eq_true_eq]⟩

/-- The call for the second cell that comes from the formula of the first one is refused, and the one that comes
later is not. They find different values. -/
theorem calls_agree_iff_crowded : ∃ asked asked' v v',
    .answer asked ⟨Progress.root, ⟨0, 1⟩⟩ v ∈ (crowded.evaluateRecorded crowdedCache).2 ∧
    .answer asked' ⟨Progress.root, ⟨0, 1⟩⟩ v' ∈ (crowded.evaluateRecorded crowdedCache).2 ∧
    crowded.Refuses asked ⟨Progress.root, ⟨0, 1⟩⟩ ∧ ¬ crowded.Refuses asked' ⟨Progress.root, ⟨0, 1⟩⟩ ∧
    v = .error .tooDeep ∧ v ≠ v' ∧
    (crowded.evaluateWith crowdedCache).1[(⟨0, 1⟩ : Address)]? = some v'.toCellValue := by
  have room : 0 < crowded.options.maxDepth := by decide
  have formula : (crowded.finalState crowdedCache).IsFormula ⟨Progress.root, ⟨0, 1⟩⟩ :=
    isFormula_finalState_iff.2 (by decide +kernel)
  obtain ⟨finds, agree, own⟩ := calls_agree_iff crowded crowdedCache room ⟨Progress.root, ⟨0, 1⟩⟩ formula
  obtain ⟨asked, v, member, refused⟩ := exists_call (w := crowded) ⟨Progress.root, ⟨0, 1⟩⟩
    true (show (crowded.evaluateRecorded crowdedCache).2.any _ by decide +kernel)
  obtain ⟨asked', v', member', admitted⟩ := exists_call (w := crowded) ⟨Progress.root, ⟨0, 1⟩⟩
    false (show (crowded.evaluateRecorded crowdedCache).2.any _ by decide +kernel)
  have refused : crowded.Refuses asked ⟨Progress.root, ⟨0, 1⟩⟩ := refused.2 rfl
  have admitted : ¬ crowded.Refuses asked' ⟨Progress.root, ⟨0, 1⟩⟩ := fun refuses => nomatch admitted.1 refuses
  have shown : ((crowded.finalState crowdedCache).memo[(⟨Progress.root, ⟨0, 1⟩⟩ : CellKey)]?).map
      Value.toCellValue = some (.boolean true) := by decide +kernel
  have known := ((finds asked' v' member').resolve_left fun refuses => admitted refuses.1).2
  refine ⟨asked, asked', v, v', member, member', refused, admitted,
    ((finds asked v member).resolve_right fun other => other.1 refused).2, fun same => ?_, ?_⟩
  · -- They would be the same only if both were refused, or if the second cell showed the refusal itself.
    rcases (agree asked v asked' v' member member').1 same with both | isRefusal
    · exact admitted (both.1 refused)
    · rw [isRefusal] at shown
      cases shown
  · obtain ⟨u, known', isShown⟩ := own rfl
    cases known.symm.trans known'
    exact isShown

end Workbook
end PageCalc

import PageCalc.Proofs.Evaluation.Simulation

/-!
# Refused calls

A call for a cell is refused if the formula of the cell would have to be entered while as many formulas
are under evaluation as may be. Whether that is so depends on the state that the call is made in, and
the refusal is not kept: it is the only way in which a call finds anything but the value of the cell.
-/

namespace PageCalc

open Collection

theorem Workbook.readCell_of_known {w : Workbook} {p : Progress} {key : CellKey} {v : Value} (depth : Nat)
    (known : p.memo[key]? = some v) : (readCell w depth key).run p = (v, p) := by
  cases depth <;> simp [readCell, lookUp, known] <;> rfl

/-- What is found in a cell while no more formulas may be entered. -/
def Progress.found (p : Progress) (key : CellKey) : Value :=
  (p.memo[key]?).getD (((p.input key).literal?).getD (.error .tooDeep))

theorem Workbook.after_readCell_zero {w : Workbook} {p : Progress} {key : CellKey} (outside : key ∉ p.stack) :
    After (readCell w 0 key) p fun v q => v = p.found key ∧ q = p := by
  refine After.get ?_
  cases known : p.memo[key]? with
  | some v => exact .pure ⟨by simp [Progress.found, known], rfl⟩
  | none =>
    simp only [outside, if_false]
    cases typed : p.input key <;>
      exact .pure ⟨by simp [Progress.found, known, typed, Input.literal?], rfl⟩

namespace Pass

variable {pass : Pass} {asked p p' q : Progress} {key : CellKey} {v : Value} {depth : Nat}

/-- A call for a cell that is made in a state is refused. -/
def Refuses (pass : Pass) (asked : Progress) (key : CellKey) : Prop :=
  asked.isPending key ∧ ∃ limit ∈ pass.limit?, limit ≤ asked.stack.length

theorem Ready.refuses_iff (ready : pass.Ready depth p) :
    pass.Refuses p key ↔ p.isPending key ∧ depth = 0 := by
  simp only [Refuses, ready.room, Option.mem_def, Option.some.injEq, exists_eq_left', and_congr_right_iff]
  omega

/-- What a call finds that was made in some state: it is refused where it has to be, and nowhere else
is the error of a refusal found but in a cell whose value it is. -/
structure Candid (pass : Pass) (asked p : Progress) (key : CellKey) (v : Value) : Prop where
  refused : pass.Refuses asked key → v = .error .tooDeep
  admitted : ¬ pass.Refuses asked key → v = .error .tooDeep → p.memo[key]? = some v

theorem Candid.grows (candid : pass.Candid asked p key v) (grows : p.Grows p') :
    pass.Candid asked p' key v :=
  ⟨candid.refused, fun admitted same => grows.memo key v (candid.admitted admitted same)⟩

theorem candid_of_known (ready : pass.Ready (depth + 1) p) (known : q.memo[key]? = some v) :
    pass.Candid p q key v :=
  ⟨fun refuses => absurd (ready.refuses_iff.1 refuses).2 (Nat.succ_ne_zero depth), fun _ _ => known⟩

theorem after_readCell_candid (ready : pass.Ready depth p) (asked : pass.Asked p key)
    (loaded : key.page < p.pages.size) :
    After (readCell pass.book depth key) p fun v q => pass.Candid p q key v := by
  obtain ⟨runs, answers⟩ := pass.readCell_follows depth p key ready asked loaded
  refine ⟨fun refuses => ?refused, fun admitted same => ?admitted⟩
  case refused =>
    obtain ⟨pending, rfl⟩ := ready.refuses_iff.1 refuses
    obtain ⟨formula, unfinished, outside⟩ := Progress.isPending_iff.1 pending
    rw [(Workbook.after_readCell_zero outside).1, Progress.found,
      Std.ExtTreeMap.getElem?_eq_none unfinished, Progress.literal?_of_isFormula formula]
    rfl
  case admitted =>
    by_cases finished : key ∈ p.memo
    · obtain ⟨u, known⟩ := mem_iff_exists.1 finished
      rw [Workbook.readCell_of_known depth known]
      exact known
    rw [same] at answers ⊢
    cases answers with
    | finished known => exact known
    | typed _ literal => revert literal; cases Progress.input _ key <;> simp [Input.literal?]
    -- A formula that is pending with no room left is refused.
    | tooDeep formula outside _ deep =>
      rw [(runs.grows ready.valid).isFormula_iff loaded] at formula
      rw [runs.stack] at outside deep
      exact absurd ⟨Progress.isPending_iff.2 ⟨formula, finished, outside⟩, deep⟩ admitted

end Pass
end PageCalc

import PageCalc.Proofs.Evaluation.Shelves
import PageCalc.Proofs.Function.Ordinary

/-!
# Circular cells lie on cycles

A cell whose value is that of a cell on a cycle does lie on one: from its formula references lead
back to it.
-/

namespace PageCalc

open Collection

theorem Value.IsFlat.errorsIn {E : CellError → Prop} {v : Value} (flat : v.IsFlat)
    (each : ∀ e, v = .error e → E e.propagated) : v.propagated.ErrorsIn E := by
  cases v with
  | list vs => exact absurd rfl (flat vs)
  | number x => exact .number
  | text s => exact .text
  | boolean b => exact .boolean
  | error e => exact .error (each e rfl)
  | blank => exact .blank

theorem Value.IsFlat.eq_error {v : Value} {e : CellError} (flat : v.IsFlat)
    (shows : v.toCellValue = .error e) : v = .error e := by
  cases v with
  | list vs => exact absurd rfl (flat vs)
  | error other => cases shows; rfl
  | number _ | text _ | boolean _ | blank => cases shows

namespace Pass

variable {pass : Pass} {p p' : Progress} {key : CellKey} {v : Value}

/-- The finished cells are flat, and those that are said to lie on cycles do. -/
structure Sound (pass : Pass) (p : Progress) : Prop where
  flat : ∀ (key : CellKey) (v : Value), p.memo[key]? = some v → v.IsFlat
  onCycle : ∀ (key : CellKey) (e : CellError), p.memo[key]? = some (.error e) →
    e.kind = .circular → (p.atlas pass.book).DependsOn key key

theorem Answers.isFlat (flat : ∀ (key : CellKey) (v : Value), p.memo[key]? = some v → v.IsFlat)
    (answers : pass.Answers p key v) : v.IsFlat := by
  cases answers with
  | finished known => exact flat key v known
  | typed loaded literal =>
    rintro vs rfl
    unfold Input.literal? at literal
    split at literal <;> cases literal
  | waiting | tooDeep => exact fun vs same => by cases same

section

variable {E : CellError → Prop}

theorem AnswersReference.errorsIn {place : Nat} {r : Reference} (fresh : AdmitsFresh E)
    (answers : pass.AnswersReference p place r v)
    (each : ∀ t ∈ (p.atlas pass.book).targets place r, ∀ u, pass.Answers p t u →
      u.propagated.ErrorsIn E) : v.ErrorsIn E := by
  obtain ⟨-, gives⟩ := answers
  unfold Atlas.targets at each
  cases seen : (p.atlas pass.book).sight place r with
  | cell s =>
    rw [seen] at gives each
    obtain ⟨u, answered, rfl⟩ := gives
    exact each s (List.mem_singleton.2 rfl) u answered
  | cells ss =>
    rw [seen] at gives each
    obtain ⟨us, answered, rfl⟩ := gives
    refine .list fun v member => ?_
    obtain ⟨u, inList, rfl⟩ := List.mem_map.1 member
    obtain ⟨i, inBounds, rfl⟩ := List.getElem_of_mem inList
    have inSight : i < ss.length := answered.length_eq ▸ inBounds
    exact each _ (List.getElem_mem inSight) _
      ((List.forall₂_iff_get.1 answered).2 i inSight inBounds)
  | nothing message =>
    rw [seen] at gives
    rw [gives]
    exact .error (fresh .reference message (by decide) (by decide))

/-- The errors that a formula computes are among those that it is answered, as it sees them, and those
that say themselves what went wrong. -/
theorem Computed.errorsIn (fresh : AdmitsFresh E) (law : ValueLaw pass.book.library (Value.ErrorsIn E))
    (computed : pass.Computed p key v)
    (each : ∀ t, (p.atlas pass.book).Demands key t → ∀ u, pass.Answers p t u → u.propagated.ErrorsIn E) :
    v.ErrorsIn E := by
  cases computed with
  | fault typed parsed => exact Value.errorsIn_fault fresh _
  | @value source e x typed parsed yields =>
    have isTree : (p.atlas pass.book).expr? key = some e := Atlas.expr?_of_parsed typed parsed
    have inside : x.ErrorsIn E := (ensures_plan law e).yields yields fun r v member answers =>
      answers.errorsIn fresh fun t target => each t ⟨e, isTree, r, member, target⟩
    exact inside.finish fresh

end

theorem Computed.ordinary (law : ValueLaw pass.book.library Value.Ordinary) (sound : pass.Sound p)
    (computed : pass.Computed p key v) : v.Ordinary :=
  computed.errorsIn Value.ordinary_fresh law fun _ _ _ answers =>
    (answers.isFlat sound.flat).errorsIn fun _ _ => by simp [CellError.propagated]

theorem Computed.isFlat (computed : pass.Computed p key v) : v.IsFlat := by
  cases computed with
  | fault typed parsed => exact fun vs same => by cases same
  | value typed parsed yields => exact (Value.finish_finished _).isFlat

theorem Step.sound (law : ValueLaw pass.book.library Value.Ordinary) (valid : pass.Valid p)
    (step : pass.Step p p') (sound : pass.Sound p) : pass.Sound p' := by
  have grows := step.grows valid
  cases step with
  | parse source => exact ⟨sound.flat, sound.onCycle⟩
  | close entered asked => exact ⟨sound.flat, sound.onCycle⟩
  | enter => exact ⟨sound.flat, sound.onCycle⟩
  | resolve page =>
    refine ⟨fun key v known => ?_, fun key e known isCircular => ?_⟩
    · rcases Progress.memo_of_resolve known with before | ⟨rfl, -⟩
      · exact sound.flat key v before
      · exact fun vs same => by cases same
    · rcases Progress.memo_of_resolve known with before | ⟨-, onCycle⟩
      · exact grows.dependsOn valid.toPlaced (sound.onCycle key e before isCircular)
      · exact Atlas.dependsOn_inside onCycle
  -- A formula is finished as circular if it is marked, and marked ones lie on cycles. Otherwise it
  -- keeps its value, and no formula computes that error.
  | @leave key v innermost computed =>
    refine ⟨fun other u known => ?_, fun other e known isCircular => ?_⟩
    · rcases memo_of_leave known with before | ⟨-, ⟨-, rfl⟩ | ⟨-, rfl⟩⟩
      · exact sound.flat other u before
      · exact fun vs same => by cases same
      · exact computed.isFlat
    · rcases memo_of_leave known with before | ⟨rfl, ⟨isMarked, -⟩ | ⟨-, rfl⟩⟩
      · exact sound.onCycle other e before isCircular
      · exact (valid.marked other isMarked).2
      · cases computed.ordinary law sound with
        | error ordinary => exact absurd isCircular ordinary

theorem Steps.sound (law : ValueLaw pass.book.library Value.Ordinary) (valid : pass.Valid p)
    (steps : pass.Steps p p') (sound : pass.Sound p) : pass.Sound p' := by
  induction steps with
  | refl => exact sound
  | tail steps step ih => exact step.sound law (Steps.valid valid steps) ih

theorem sound_begin (pass : Pass) (cache : ParseCache) : pass.Sound (pass.book.begin cache) := by
  refine ⟨fun key v known => ?_, fun key e known _ =>
    Atlas.dependsOn_inside (Progress.memo_of_begin known).2⟩
  rw [(Progress.memo_of_begin known).1]
  exact fun vs same => by cases same

theorem Runs.sound (law : ValueLaw pass.book.library Value.Ordinary) {cache : ParseCache}
    (runs : pass.Runs (pass.book.begin cache) p) : pass.Sound p :=
  Steps.sound law (pass.valid_begin cache) runs.steps (pass.sound_begin cache)

end Pass

namespace Workbook

/-- A cell that an evaluation of the sheet, or of an expression on it, says to lie on a cycle depends
on itself. -/
theorem dependsOn_self_of_circular (w : Workbook) (builtin : w.library = .builtin)
    (cache : ParseCache) (e : Expr) (p : Progress)
    (final : p = w.finalState cache ∨ p = ((w.evaluation e).run (w.begin cache)).2) (key : CellKey)
    (fault : CellError) (known : p.memo[key]? = some (.error fault)) (circular : fault.kind = .circular) :
    (p.atlas w).DependsOn key key := by
  have law : ValueLaw w.library Value.Ordinary := builtin ▸ Library.builtin_ordinary
  rcases final with rfl | rfl
  · exact ((w.runs_evaluate w.options.maxDepth cache).sound law).onCycle key fault known circular
  · exact ((w.after_evaluation w.options.maxDepth cache e).1.sound law).onCycle key fault known circular

/-- A finished cell that shows an error has it as its value. -/
theorem known_of_memo_shown (w : Workbook) (builtin : w.library = .builtin) (cache : ParseCache) (key : CellKey)
    (e : CellError) (shown : ((w.finalState cache).memo[key]?).map Value.toCellValue = some (.error e)) :
    (w.finalState cache).memo[key]? = some (.error e) := by
  have law : ValueLaw w.library Value.Ordinary := builtin ▸ Library.builtin_ordinary
  obtain ⟨v, known, shown⟩ := Option.map_eq_some_iff.1 shown
  rw [known, (((w.runs_evaluate w.options.maxDepth cache).sound law).flat key v known).eq_error shown]

/-- A cycle that leaves the page of the root is closed in the course of the evaluation. -/
theorem dependsOn_self_cycleAcross :
    (cycleAcross.finalState cycleCache).memo[(⟨Progress.root, ⟨0, 1⟩⟩ : CellKey)]? = some (.error .circular) ∧
    ¬ cycleAcross.sheet.OnCycle ⟨0, 1⟩ ∧
    ((cycleAcross.finalState cycleCache).atlas cycleAcross).DependsOn ⟨Progress.root, ⟨0, 1⟩⟩
      ⟨Progress.root, ⟨0, 1⟩⟩ := by
  have known := cycleAcross.known_of_memo_shown rfl cycleCache ⟨Progress.root, ⟨0, 1⟩⟩ .circular
    (by decide +kernel)
  exact ⟨known, Sheet.not_onCycle_leaving, dependsOn_self_of_circular cycleAcross rfl cycleCache (.boolean true)
    _ (.inl rfl) _ _ known rfl⟩

end Workbook
end PageCalc

import PageCalc.Proofs.Evaluation.CircularSoundness
import PageCalc.Proofs.Evaluation.Confined

/-!
# Where errors come from

A cell that reads an error has it as a propagated one, with the kind and the text that it began with. It
began in a formula that the cell depends on, and that has it as its own error. Only a chain of references
that is too deep is cut off at a cell that keeps no error.
-/

namespace PageCalc

open Collection

theorem Input.literal?_ne_error {input : Input} {e : CellError} : input.literal? ≠ some (.error e) := by
  cases input <;> simp [Input.literal?]

namespace Progress

variable {w : Workbook} {p p' : Progress} {key t : CellKey} {e : CellError}

/-- The error of a cell is its own, or it is that of a chain that was cut off, or a formula that the cell
depends on is finished with it as its own. -/
inductive Sourced (w : Workbook) (p : Progress) (key : CellKey) : CellError → Prop where
  | own {kind : ErrorKind} {message : String} (genuine : kind ≠ .propagated) :
      Sourced w p key (.fresh kind message)
  | cutOff : Sourced w p key CellError.tooDeep.propagated
  | propagated {source : CellKey} {kind : ErrorKind} {message : String} (genuine : kind ≠ .propagated)
      (path : (p.atlas w).DependsOn key source)
      (known : p.memo[source]? = some (.error (.fresh kind message))) :
      Sourced w p key (CellError.fresh kind message).propagated

theorem admitsFresh_sourced : AdmitsFresh (p.Sourced w key) := fun _ _ _ genuine => .own genuine

theorem Sourced.grows (sourced : p.Sourced w key e) (grows : p.Grows p') (placed : p.Placed w) :
    p'.Sourced w key e := by
  cases sourced with
  | own genuine => exact .own genuine
  | cutOff => exact .cutOff
  | propagated genuine path known =>
    exact .propagated genuine (grows.dependsOn placed path) (grows.memo _ _ known)

/-- What a cell finds in another one has the source that it has there. -/
theorem Sourced.of_reads (sourced : p.Sourced w t e) (reads : (p.atlas w).Reads key t)
    (known : p.memo[t]? = some (.error e)) : p.Sourced w key e.propagated := by
  cases sourced with
  | own genuine => exact .propagated genuine (.single reads) known
  | cutOff => exact .cutOff
  | @propagated source kind message genuine path foundThere =>
    exact @Sourced.propagated w p key source kind message genuine (.head reads path) foundThere

end Progress

namespace Pass

variable {pass : Pass} {p p' : Progress} {key t : CellKey} {u v : Value}

/-- Every error of a finished cell has a source. -/
def Traced (pass : Pass) (p : Progress) : Prop :=
  ∀ (key : CellKey) (e : CellError), p.memo[key]? = some (.error e) → p.Sourced pass.book key e

/-- An unmarked formula sees only errors that have sources. -/
theorem Answers.sourced (answers : pass.Answers p t u) (sound : pass.Sound p) (traced : pass.Traced p)
    (innermost : p.stack.head? = some key) (unmarked : key ∉ p.circular)
    (reads : (p.atlas pass.book).Reads key t) : u.propagated.ErrorsIn (p.Sourced pass.book key) := by
  refine (answers.isFlat sound.flat).errorsIn fun e isError => ?_
  subst isError
  cases answers with
  | finished known => exact (traced t e known).of_reads reads known
  | typed loaded literal => exact absurd literal Input.literal?_ne_error
  | waiting entered marked => exact absurd (marked_of_waiting innermost marked) unmarked
  | tooDeep => exact .cutOff

theorem leave_traced (builtin : pass.book.library = .builtin) (valid : pass.Valid p) (sound : pass.Sound p)
    (innermost : p.stack.head? = some key) (computed : pass.Computed p key v) (traced : pass.Traced p) :
    pass.Traced (p.leave key v).2 := by
  have grows := leave_grows (v := v) valid innermost
  intro other e known
  rcases memo_of_leave known with before | ⟨rfl, ⟨-, isCircular⟩ | ⟨unmarked, rfl⟩⟩
  · exact (traced other e before).grows grows valid.toPlaced
  · cases isCircular
    exact .own (by decide)
  -- An unmarked formula keeps what it computed of the errors that it sees.
  · have law : ValueLaw pass.book.library (Value.ErrorsIn (p.Sourced pass.book other)) :=
      builtin ▸ Library.builtin_errorsIn Progress.admitsFresh_sourced
    have inside := computed.errorsIn Progress.admitsFresh_sourced law fun t demands u answers =>
      answers.sourced sound traced innermost unmarked demands.reads
    cases inside with
    | error sourced => exact sourced.grows grows valid.toPlaced

theorem Step.traced (builtin : pass.book.library = .builtin) (valid : pass.Valid p) (sound : pass.Sound p)
    (step : pass.Step p p') (traced : pass.Traced p) : pass.Traced p' := by
  have grows := step.grows valid
  cases step with
  | parse | close | enter =>
    exact fun key e known => (traced key e known).grows grows valid.toPlaced
  | resolve page =>
    intro key e known
    rcases Progress.memo_of_resolve known with before | ⟨isCircular, -⟩
    · exact (traced key e before).grows grows valid.toPlaced
    · cases isCircular
      exact .own (by decide)
  | leave innermost computed => exact leave_traced builtin valid sound innermost computed traced

theorem Runs.traced {cache : ParseCache} (builtin : pass.book.library = .builtin)
    (runs : pass.Runs (pass.book.begin cache) p) : pass.Traced p := by
  have law : ValueLaw pass.book.library Value.Ordinary := builtin ▸ Library.builtin_ordinary
  obtain ⟨steps, -⟩ := runs
  induction steps with
  | refl =>
    intro key e known
    cases (Progress.memo_of_begin known).1
    exact .own (by decide)
  | tail steps step ih =>
    have valid := Steps.valid (pass.valid_begin cache) steps
    have sound := Steps.sound law (pass.valid_begin cache) steps (pass.sound_begin cache)
    exact step.traced builtin valid sound ih

end Pass

namespace Workbook

/-- An error in the result is that of a finished cell, or a chain was too deep there. -/
theorem known_of_shown {w : Workbook} (builtin : w.library = .builtin) {cache : ParseCache} {a : Address}
    {e : CellError} (shown : (w.evaluateWith cache).1[a]? = some (.error e)) :
    (w.finalState cache).memo[(⟨Progress.root, a⟩ : CellKey)]? = some (.error e) ∨ e = .tooDeep := by
  have runs := w.runs_evaluate w.options.maxDepth cache
  have sound := runs.sound (builtin ▸ Library.builtin_ordinary)
  obtain ⟨v, answers, isValue⟩ := answers_of_shown shown
  obtain rfl : v = .error e := (answers.isFlat sound.flat).eq_error isValue.symm
  rcases answers.of_idle runs.stack with known | literal | ⟨isTooDeep, -⟩
  · exact .inl known
  · exact absurd literal Input.literal?_ne_error
  · cases isTooDeep
    exact .inr rfl

/-- Every error that an evaluation keeps or shows tells what went wrong at first, as its own kind or as
the origin of a propagated one. A propagated error that is not that of a chain that was too deep is the own
error of a formula that was evaluated, and to which a chain of references leads from its cell. -/
theorem exists_source_of_propagated (w : Workbook) (builtin : w.library = .builtin) (cache : ParseCache)
    (key : CellKey) (e : CellError)
    (found : (w.finalState cache).memo[key]? = some (.error e) ∨
      key.page = Progress.root ∧ (w.evaluateWith cache).1[key.address]? = some (.error e)) :
    e.origin ≠ .propagated ∧ (e.kind = e.origin ∨ e.kind = .propagated) ∧
    (e.kind = .propagated → ¬ (e.origin = .value ∧ e.message = "Reference chain too deep") →
      ∃ source, ((w.finalState cache).atlas w).DependsOn key source ∧
        (w.finalState cache).IsFormula source ∧
        (w.finalState cache).memo[source]? = some (.error ⟨e.origin, e.origin, e.message⟩)) := by
  have runs := w.runs_evaluate w.options.maxDepth cache
  have valid := runs.valid (Pass.valid_begin _ cache)
  have kept : (w.finalState cache).memo[key]? = some (.error e) ∨ e = .tooDeep := by
    rcases found with known | ⟨onRoot, shown⟩
    · exact .inl known
    · obtain ⟨page, a⟩ := key
      obtain rfl : page = Progress.root := onRoot
      exact known_of_shown builtin shown
  rcases kept with known | rfl
  · cases runs.traced builtin key e known with
    | own genuine => exact ⟨genuine, .inl rfl, fun isPropagated => absurd isPropagated genuine⟩
    | cutOff => exact ⟨by decide, .inr rfl, fun _ other => absurd ⟨rfl, rfl⟩ other⟩
    | @propagated source kind message genuine path foundThere =>
      have isFormula := valid.finished source (mem_of_known foundThere)
      exact ⟨genuine, .inr rfl, fun _ _ => ⟨source, path, isFormula, foundThere⟩⟩
  · exact ⟨by decide, .inl rfl, fun isPropagated => by cases isPropagated⟩

/-! ## The echo of a cycle -/

/-- A cell that mirrors itself, with another one to its right that mirrors it too. -/
def echo : Workbook where
  sheet := ((Sheet.mirror .first).ensureSize 1 2).insert ⟨0, 1⟩ ("=" ++ Address.first.text) (by decide) (by simp)
  pageId := "main"

variable {a b : Address}

theorem echo_expr? : echo.sheet.expr? a =
    if a = ⟨0, 1⟩ ∨ a = .first then some (.reference (.cell .first)) else none := by
  have before : ((Sheet.mirror .first).ensureSize 1 2).expr? a = _ := Sheet.mirror_expr? (by decide)
  rw [echo, Sheet.expr?_insert (by simp [isFormulaText]) (Expr.ofFormula_text (by decide)), before]
  by_cases beside : a = ⟨0, 1⟩ <;> simp [beside]

theorem echo_reads_iff : echo.sheet.Reads a b ↔ (a = ⟨0, 1⟩ ∨ a = .first) ∧ b = .first := by
  unfold Sheet.Reads Sheet.references
  rw [echo_expr?]
  split
  · next isFormula => simp [isFormula, Expr.references, Reference.localCells]
  · next other => simp [other]

theorem isLocal_echo : echo.sheet.IsLocal :=
  Sheet.isLocal_of_references fun a e parsed => by
    rw [echo_expr?] at parsed
    split at parsed <;> cases parsed
    exact ⟨.cell .first, rfl, rfl⟩

theorem shown_echo : (echo.evaluateWith .empty).1[(⟨0, 1⟩ : Address)]? =
    some (.error CellError.circular.propagated) := by
  have onCycle : echo.sheet.OnCycle .first := .single (echo_reads_iff.2 ⟨.inr rfl, rfl⟩)
  have offCycle : ¬ echo.sheet.OnCycle ⟨0, 1⟩ := by
    intro onCycle
    obtain ⟨b, -, reads⟩ := Relation.TransGen.tail'_iff.1 onCycle
    exact absurd (echo_reads_iff.1 reads).2 (by decide)
  have confined : echo.sheet.Confined fun _ => True := isLocal_echo.confined fun _ _ _ _ => trivial
  have denotes : (echo.sheet.alone echo.library).Denotes ⟨(), ⟨0, 1⟩⟩ (.error CellError.circular.propagated) := by
    refine Atlas.denotes_of_reads (V := fun _ => .error .circular) (e := .reference (.cell .first))
      (echo_expr?.trans (if_pos (.inl rfl))) offCycle fun t reads => ?_
    obtain ⟨⟨⟩, b⟩ := t
    obtain ⟨-, reads⟩ := confined.reads rfl trivial reads
    obtain rfl : b = .first := (echo_reads_iff.1 reads).2
    exact Sheet.denotes_of_onCycle onCycle
  have typed : (⟨0, 1⟩ : Address) ∈ echo.sheet.inputs := by
    rw [Sheet.mem_inputs_iff, echo, Sheet.input_insert, if_pos rfl,
      Input.ofText_of_isFormulaText (by simp [isFormulaText])]
    exact fun same => by cases same
  obtain ⟨-, v, given, shown⟩ := (echo.getElem?_evaluateWith_of_confined .empty (by decide) confined
    trivial).resolve_left fun blank => blank.1 typed
  rw [shown, given.unique confined.closed_alone (fun _ _ _ _ => Iff.rfl) trivial denotes]
  rfl

/-- The cell that mirrors the cycle has its error from a formula with that error of its own. -/
theorem exists_source_of_propagated_echo :
    ∃ source, ((echo.finalState .empty).atlas echo).DependsOn ⟨Progress.root, ⟨0, 1⟩⟩ source ∧
      (echo.finalState .empty).IsFormula source ∧
      (echo.finalState .empty).memo[source]? = some (.error .circular) :=
  (exists_source_of_propagated echo rfl .empty ⟨Progress.root, ⟨0, 1⟩⟩ CellError.circular.propagated
    (.inr ⟨rfl, shown_echo⟩)).2.2 rfl fun isTooDeep => by cases isTooDeep.1

end Workbook
end PageCalc

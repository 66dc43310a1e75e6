import PageCalc.Proofs.Evaluation.Failure
import PageCalc.Proofs.Evaluation.Provenance

/-!
# Errors are not lost

A formula that calls no lazy function has an error as its value if a cell that it refers to has one in
the end, or if a reference to another page leads nowhere. What counts is what the formula saw when it was
evaluated; the cell was finished by then, or was seen as an error for another reason.
-/

namespace PageCalc

open Collection

/-- What is seen has an error in it if one of the sites has nothing but errors. -/
theorem Sight.Gives.failed {π : Type} {reads : Site π → Value → Prop} {sight : Sight π} {s : Site π} {v : Value}
    (gives : sight.Gives reads v) (seen : s ∈ sight.sites) (each : ∀ u, reads s u → ∃ e, u = .error e) :
    v.Failed := by
  cases sight with
  | cell s' =>
    obtain ⟨u, answered, rfl⟩ := gives
    cases List.mem_singleton.1 seen
    obtain ⟨e, rfl⟩ := each u answered
    exact .error
  | cells ss =>
    obtain ⟨us, answered, rfl⟩ := gives
    obtain ⟨i, inSight, rfl⟩ := List.getElem_of_mem seen
    have inAnswers : i < us.length := answered.length_eq ▸ inSight
    obtain ⟨e, isError⟩ := each us[i] ((List.forall₂_iff_get.1 answered).2 i inSight inAnswers)
    refine .list (List.mem_map.2 ⟨us[i], List.getElem_mem inAnswers, rfl⟩) ?_
    rw [isError]
    exact .error
  | nothing message => cases seen

namespace Progress

variable {w : Workbook} {p : Progress}

/-- The cell holds a formula, and if this has a value, it is an error. -/
def FailsAt (p : Progress) (t : CellKey) : Prop :=
  p.IsFormula t ∧ ∀ u, p.memo[t]? = some u → ∃ e, u = .error e

/-- The reference shows a cell that fails, or the page that it names cannot be found. -/
inductive Fails (w : Workbook) (p : Progress) (place : Nat) : Reference → Prop where
  | target {r : Reference} {t : CellKey} (shown : t ∈ ((Pass.locate w p r).atlas w).targets place r)
      (fails : p.FailsAt t) : Fails w p place r
  | unresolved {external : ExternalReference} {failure : ResolveError}
      (refused : (p.resolve w external.page).1 = .error failure) : Fails w p place (.external external)

end Progress

namespace Pass

variable {pass : Pass} {p p' : Progress} {key t : CellKey} {u v : Value}

/-! ## When values were computed -/

/-- Each value that is kept is the error of a cycle, or it was computed at some time from what was known
then. -/
def Earned (pass : Pass) (p : Progress) : Prop :=
  ∀ (key : CellKey) (v : Value), p.memo[key]? = some v → v = .error .circular ∨
    ∃ before, pass.Valid before ∧ before.Grows p ∧ pass.Computed before key v

theorem Earned.isFlat (earned : pass.Earned p) (known : p.memo[key]? = some v) : v.IsFlat := by
  rcases earned key v known with rfl | ⟨_, -, -, computed⟩
  · exact fun vs same => by cases same
  · exact computed.isFlat

theorem Earned.grows (earned : pass.Earned p) (grows : p.Grows p')
    (new : ∀ (key : CellKey) (v : Value), p'.memo[key]? = some v → p.memo[key]? = some v ∨
      v = .error .circular ∨ pass.Valid p ∧ pass.Computed p key v) : pass.Earned p' := by
  intro key v known
  rcases new key v known with kept | isCircular | ⟨valid, computed⟩
  · refine (earned key v kept).imp_right ?_
    rintro ⟨before, valid, earlier, computed⟩
    exact ⟨before, valid, earlier.trans grows, computed⟩
  · exact .inl isCircular
  · exact .inr ⟨p, valid, grows, computed⟩

theorem Step.earned (valid : pass.Valid p) (step : pass.Step p p') (earned : pass.Earned p) :
    pass.Earned p' := by
  refine earned.grows (step.grows valid) fun other u known => ?_
  cases step with
  | parse | close | enter => exact .inl known
  | resolve page => exact (Progress.memo_of_resolve known).imp_right fun new => .inl new.1
  | @leave key v innermost computed =>
    rcases memo_of_leave known with before | ⟨rfl, ⟨-, isCircular⟩ | ⟨-, rfl⟩⟩
    · exact .inl before
    · exact .inr (.inl isCircular)
    · exact .inr (.inr ⟨valid, computed⟩)

theorem Runs.earned {cache : ParseCache} (runs : pass.Runs (pass.book.begin cache) p) : pass.Earned p := by
  obtain ⟨steps, -⟩ := runs
  induction steps with
  | refl =>
    intro key v known
    exact .inl (Progress.memo_of_begin known).1
  | tail steps step ih => exact step.earned (Steps.valid (pass.valid_begin _) steps) ih

/-! ## What was seen then -/

/-- A formula that fails in the end was seen as an error at any time. -/
theorem Answers.eq_error (answers : pass.Answers p t u) (grows : p.Grows p') (fails : p'.FailsAt t) :
    ∃ e, u = .error e := by
  cases answers with
  | finished known => exact fails.2 u (grows.memo t u known)
  | typed loaded literal =>
    have formula : p.IsFormula t := (grows.isFormula_iff loaded).1 fails.1
    rw [Progress.literal?_of_isFormula formula] at literal
    cases literal
  | waiting | tooDeep => exact ⟨_, rfl⟩

theorem AnswersReference.failed {place : Nat} {r : Reference} (answers : pass.AnswersReference p place r u)
    (valid : pass.Valid p) (valid' : pass.Valid p') (grows : p.Grows p') (loaded : place < p.pages.size)
    (fails : p'.Fails pass.book place r) : u.Failed := by
  obtain ⟨resolved, gives⟩ := answers
  -- The reference was located by then, so it shows in the end what it showed at that time.
  have same : ((locate pass.book p' r).atlas pass.book).sight place r =
      (p.atlas pass.book).sight place r :=
    (grows.trans ((Runs.locate p' r).grows valid')).sight valid.toPlaced loaded resolved
  rw [← same] at gives
  cases fails with
  | target shown fails => exact gives.failed shown fun u answers => answers.eq_error grows fails
  | @unresolved external failure refused =>
    have missing : ((locate pass.book p' (.external external)).atlas pass.book).find external.page =
        .error failure.message := by
      rw [locate, Progress.resolve_find, refused]
      rfl
    rw [Atlas.sight_missing missing] at gives
    rw [gives]
    exact .error

/-- A formula without calls of lazy functions keeps an error if one of its references fails. -/
theorem Earned.eq_error {e : Expr} {r : Reference} (earned : pass.Earned p) (valid : pass.Valid p)
    (parsed : (p.atlas pass.book).expr? key = some e) (strict : e.Strict pass.book.library)
    (contains : e.Contains r) (fails : p.Fails pass.book key.page r) (known : p.memo[key]? = some v) :
    ∃ fault, v = .error fault := by
  rcases earned key v known with rfl | ⟨before, wasValid, grows, computed⟩
  · exact ⟨_, rfl⟩
  cases computed with
  | fault => exact ⟨_, rfl⟩
  | @value source e' x typed isTree yields =>
    have parsedThen : (before.atlas pass.book).expr? key = some e' := Atlas.expr?_of_parsed typed isTree
    have loaded := (Progress.isFormula_of_expr? parsedThen).loaded
    rw [grows.expr? loaded, parsedThen] at parsed
    cases parsed
    have failed : x.Failed := contains.failed strict
      (fun u answers => answers.failed wasValid valid grows loaded fails) yields
    exact failed.finish

end Pass

namespace Workbook

variable {w : Workbook} {cache : ParseCache}

/-- The value that a cell has in the end: a cell of the root page has the one in the result, and a formula
that was finished the one that is kept for it. -/
inductive Ends (w : Workbook) (cache : ParseCache) (key : CellKey) : CellValue → Prop where
  | shown {x : CellValue} (onRoot : key.page = Progress.root)
      (shown : (w.evaluateWith cache).1[key.address]? = some x) : Ends w cache key x
  | kept {v : Value} (known : (w.finalState cache).memo[key]? = some v) : Ends w cache key v.toCellValue

theorem failsAt_of_known {t : CellKey} {fault : CellError}
    (known : (w.finalState cache).memo[t]? = some (.error fault)) : (w.finalState cache).FailsAt t := by
  have valid := (w.runs_evaluate w.options.maxDepth cache).valid (Pass.valid_begin _ cache)
  refine ⟨valid.finished t (mem_of_known known), fun u isValue => ?_⟩
  cases known.symm.trans isValue
  exact ⟨fault, rfl⟩

theorem failsAt_of_shown {a : Address} {fault : CellError}
    (shown : (w.evaluateWith cache).1[a]? = some (.error fault)) :
    (w.finalState cache).FailsAt ⟨Progress.root, a⟩ := by
  have runs := w.runs_evaluate w.options.maxDepth cache
  have earned := runs.earned
  obtain ⟨v, answers, isValue⟩ := answers_of_shown shown
  obtain rfl : v = .error fault := (answers.isFlat fun _ _ => earned.isFlat).eq_error isValue.symm
  rcases answers.of_idle runs.stack with known | literal | ⟨-, formula, -⟩
  · exact failsAt_of_known known
  · exact absurd literal Input.literal?_ne_error
  · -- Even if a value was kept for the formula, it would have to be the one in the result.
    refine ⟨formula, fun u known => ⟨fault, (earned.isFlat known).eq_error ?_⟩⟩
    exact Option.some.inj ((w.getElem?_evaluateWith_of_known known).symm.trans shown)

theorem failsAt_of_ends {t : CellKey} {x : CellValue} {fault : CellError} (ends : w.Ends cache t x)
    (isError : x = .error fault) : (w.finalState cache).FailsAt t := by
  cases ends with
  | shown onRoot shown =>
    obtain ⟨page, a⟩ := t
    obtain rfl : page = Progress.root := onRoot
    exact failsAt_of_shown (isError ▸ shown)
  | kept known =>
    have earned := (w.runs_evaluate w.options.maxDepth cache).earned
    obtain rfl := (earned.isFlat known).eq_error isError
    exact failsAt_of_known known

theorem exists_shown_of_failsAt {a : Address} (fails : (w.finalState cache).FailsAt ⟨Progress.root, a⟩) :
    ∃ fault, (w.evaluateWith cache).1[a]? = some (.error fault) := by
  obtain ⟨v, answers, isValue⟩ := answers_of_isFormula (isFormula_finalState_iff.1 fails.1)
  obtain ⟨fault, rfl⟩ := answers.eq_error (.refl _) fails
  exact ⟨fault, isValue⟩

theorem Ends.eq_error {t : CellKey} {x : CellValue} (ends : w.Ends cache t x)
    (fails : (w.finalState cache).FailsAt t) : ∃ fault, x = .error fault := by
  cases ends with
  | shown onRoot shown =>
    obtain ⟨page, a⟩ := t
    obtain rfl : page = Progress.root := onRoot
    obtain ⟨fault, isError⟩ := exists_shown_of_failsAt fails
    exact ⟨fault, Option.some.inj (shown.symm.trans isError)⟩
  | kept known =>
    obtain ⟨fault, rfl⟩ := fails.2 _ known
    exact ⟨fault, rfl⟩

/-- A formula without calls of lazy functions ends with an error if a cell that it refers to ends with
one, on its own page, in the part of a range inside the grid or on another page, or if the page of one of
its references cannot be found. A formula of the root page shows the error in the result. -/
theorem ends_error_of_reference (w : Workbook) (cache : ParseCache) (key : CellKey) (e : Expr) (r : Reference)
    (parsed : ((w.finalState cache).atlas w).expr? key = some e) (strict : e.Strict w.library)
    (contains : e.Contains r)
    (fails : (∃ t ∈ ((Pass.locate w (w.finalState cache) r).atlas w).targets key.page r,
        ∃ fault, w.Ends cache t (.error fault)) ∨
      ∃ external failure, r = .external external ∧
        ((w.finalState cache).resolve w external.page).1 = .error failure) :
    (∀ x, w.Ends cache key x → ∃ fault, x = .error fault) ∧
    (key.page = Progress.root → ∃ fault, (w.evaluateWith cache).1[key.address]? = some (.error fault)) := by
  have runs := w.runs_evaluate w.options.maxDepth cache
  have valid := runs.valid (Pass.valid_begin _ cache)
  have fails : (w.finalState cache).Fails w key.page r := by
    rcases fails with ⟨t, shown, fault, ends⟩ | ⟨external, failure, rfl, refused⟩
    · exact .target shown (failsAt_of_ends ends rfl)
    · exact .unresolved refused
  have failsAt : (w.finalState cache).FailsAt key :=
    ⟨Progress.isFormula_of_expr? parsed, fun v known =>
      runs.earned.eq_error valid parsed strict contains fails known⟩
  refine ⟨fun x ends => ends.eq_error failsAt, fun onRoot => ?_⟩
  obtain ⟨page, a⟩ := key
  obtain rfl : page = Progress.root := onRoot
  exact exists_shown_of_failsAt failsAt

/-- What mirrors a cell on a cycle shows an error. -/
theorem ends_error_of_reference_echo :
    ∃ fault, (echo.evaluateWith .empty).1[(⟨0, 1⟩ : Address)]? = some (.error fault) := by
  have valid := (echo.runs_evaluate echo.options.maxDepth .empty).valid (Pass.valid_begin _ .empty)
  have onRoot : (echo.finalState .empty).sheet Progress.root = echo.sheet := Pass.root_sheet valid
  have onCycle : echo.sheet.OnCycle .first := .single (echo_reads_iff.2 ⟨.inr rfl, rfl⟩)
  have circular : (echo.finalState .empty).memo[(⟨Progress.root, .first⟩ : CellKey)]? =
      some (.error .circular) := valid.premarked Progress.root .first (onRoot ▸ onCycle)
  refine (ends_error_of_reference echo .empty ⟨Progress.root, ⟨0, 1⟩⟩ (.reference (.cell .first)) (.cell .first)
    ?_ trivial .here (.inl ⟨⟨Progress.root, .first⟩, List.mem_singleton_self _, .circular, ?_⟩)).2 rfl
  · rw [Atlas.expr?, Progress.atlas_sheet, onRoot, echo_expr?]
    exact if_pos (.inl rfl)
  · exact .kept circular

end Workbook
end PageCalc

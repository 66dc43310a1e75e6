import PageCalc.Proofs.Evaluation.FormulaRewriting
import PageCalc.Proofs.Evaluation.OtherMonads
import PageCalc.Proofs.Value.Finite

/-!
# Evaluations of related formulas

The evaluations of two workbooks that differ in related formulas go abreast: they start from twin states, and
whatever the first one reads, the second one reads as well, with the same outcome and again in twin states. It is
enough that formulas with related trees come to the same when they are finished.
-/

namespace PageCalc

open Collection

variable {E : Expr → Expr → Prop} {α α' β β' : Type} {p p' q q' : Progress}

/-! ## Outcomes and states -/

/-- Two evaluations come to related outcomes, and go from one pair of states to twin ones. -/
structure Abreast (E : Expr → Expr → Prop) (Φ : α → α' → Prop) (m : Evaluating α) (m' : Evaluating α')
    (p p' : Progress) : Prop where
  outcomes : Φ (m.run p).1 (m'.run p').1
  twin : (m.run p).2.Twin E (m'.run p').2
  onward : p.Onward (m.run p).2

namespace Abreast

variable {Φ : α → α' → Prop} {Ψ : β → β' → Prop} {m : Evaluating α} {m' : Evaluating α'}

theorem pure {a : α} {a' : α'} (outcomes : Φ a a') (twin : p.Twin E p') :
    Abreast E Φ (Pure.pure a) (Pure.pure a') p p' := ⟨outcomes, twin, .refl p⟩

theorem bind {f : α → Evaluating β} {f' : α' → Evaluating β'} (first : Abreast E Φ m m' p p')
    (second : ∀ a a' q q', Φ a a' → q.Twin E q' → p.Onward q → Abreast E Ψ (f a) (f' a') q q') :
    Abreast E Ψ (m >>= f) (m' >>= f') p p' := by
  obtain ⟨outcomes, twin, onward⟩ := second _ _ _ _ first.outcomes first.twin first.onward
  exact ⟨outcomes, twin, first.onward.trans onward⟩

theorem mono {Φ' : α → α' → Prop} (abreast : Abreast E Φ m m' p p') (weaker : ∀ a a', Φ a a' → Φ' a a') :
    Abreast E Φ' m m' p p' :=
  ⟨weaker _ _ abreast.outcomes, abreast.twin, abreast.onward⟩

theorem map {g : α → β} {g' : α' → β'} (abreast : Abreast E Φ m m' p p')
    (outcomes : ∀ a a', Φ a a' → Ψ (g a) (g' a')) : Abreast E Ψ (g <$> m) (g' <$> m') p p' :=
  ⟨outcomes _ _ abreast.outcomes, abreast.twin, abreast.onward⟩

theorem get {f : Progress → Evaluating β} {f' : Progress → Evaluating β'}
    (abreast : Abreast E Ψ (f p) (f' p') p p') :
    Abreast E Ψ (MonadState.get >>= f) (MonadState.get >>= f') p p' :=
  ⟨abreast.outcomes, abreast.twin, abreast.onward⟩

theorem update {f : Progress → α × Progress} {f' : Progress → α' × Progress} (outcomes : Φ (f p).1 (f' p').1)
    (twin : (f p).2.Twin E (f' p').2) (onward : p.Onward (f p).2) :
    Abreast E Φ (modifyGet f) (modifyGet f') p p' := ⟨outcomes, twin, onward⟩

theorem mapM {γ : Type} {f : γ → Evaluating β} {f' : γ → Evaluating β'} (cs : List γ) (twin : p.Twin E p')
    (each : ∀ c ∈ cs, ∀ q q', q.Twin E q' → Abreast E Ψ (f c) (f' c) q q') :
    Abreast E (List.Forall₂ Ψ) (cs.mapM f) (cs.mapM f') p p' := by
  induction cs generalizing p p' with
  | nil => exact .pure .nil twin
  | cons c cs ih =>
    obtain ⟨first, rest⟩ := List.forall_mem_cons.1 each
    rw [List.mapM_cons, List.mapM_cons]
    refine (first p p' twin).bind fun b b' q q' same twin _ => ?_
    exact (ih twin rest).bind fun bs bs' q q' others twin _ => .pure (.cons same others) twin

theorem forIn {γ : Type} {body body' : γ → PUnit → Evaluating (ForInStep PUnit)} (cs : List γ)
    (twin : p.Twin E p')
    (each : ∀ c ∈ cs, ∀ u q q', q.Twin E q' → p.Onward q → Abreast E Eq (body c u) (body' c u) q q') (u : PUnit) :
    Abreast E Eq (ForIn.forIn cs u body) (ForIn.forIn cs u body') p p' := by
  induction cs generalizing p p' u with
  | nil => exact .pure rfl twin
  | cons c cs ih =>
    obtain ⟨first, rest⟩ := List.forall_mem_cons.1 each
    rw [List.forIn_cons, List.forIn_cons]
    refine (first u p p' twin (.refl p)).bind fun step step' q q' same twin onward => ?_
    cases same
    cases step with
    | done u => exact .pure rfl twin
    | yield u => exact ih twin (fun c member u r r' twin after => rest c member u r r' twin (onward.trans after)) u

theorem run {plan : Plan α} {ask ask' : Reference → Evaluating Value} (twin : p.Twin E p')
    (asks : ∀ r q q', q.Twin E q' → Abreast E Eq (ask r) (ask' r) q q') :
    Abreast E Eq (plan.run ask) (plan.run ask') p p' := by
  induction plan generalizing p p' with
  | done a => exact .pure rfl twin
  | read r next ih =>
    refine (asks r p p' twin).bind fun v v' q q' same twin _ => ?_
    cases same
    exact ih v twin

end Abreast

/-! ## References -/

/-- Two reads of a cell give the same value, and no infinite number is in it. -/
structure SameContent (u v : Value) : Prop where
  same : v = u
  finite : u.IsFinite

theorem SameContent.of_finished {v : Value} (finished : v.Finished) : SameContent v v :=
  ⟨rfl, finished.isFinite⟩

theorem SameContent.propagated {u v : Value} (content : SameContent u v) :
    SameContent u.propagated v.propagated := ⟨congrArg Value.propagated content.same, content.finite.propagated⟩

/-- Two readers of cells go abreast. -/
def Level (E : Expr → Expr → Prop) (read read' : CellReader) : Prop :=
  ∀ key p p', p.Twin E p' → Abreast E SameContent (read key) (read' key) p p'

section References

variable {w w' : Workbook} {read read' : CellReader} (books : w.Rewritten E w') (targets : SameTargets E)
variable (level : Level E read read') (twin : p.Twin E p')

include level twin

theorem abreast_readSeen (key : CellKey) : Abreast E SameContent (readSeen read key) (readSeen read' key) p p' :=
  (level key p p' twin).map fun _ _ => .propagated

theorem abreast_readRange (place : Nat) (area : Range) :
    Abreast E Eq (readRange read place area) (readRange read' place area) p p' := by
  refine .get ?_
  dsimp only
  rw [(twin.sheets place).cellsIn area]
  refine (Abreast.mapM _ twin fun a _ q q' twin => abreast_readSeen level twin _).bind ?_
  intro us vs q q' contents twin _
  have same : us = vs := List.forall₂_eq_eq_eq.le us vs (contents.imp fun _ _ content => content.same.symm)
  exact .pure (congrArg Value.list same) twin

include books

theorem abreast_readWholeSheet (place : Nat) :
    Abreast E Eq (readWholeSheet w read place) (readWholeSheet w' read' place) p p' := by
  unfold readWholeSheet
  rw [books.options]
  cases w.options.wholeSheet with
  | grid =>
    refine .get ?_
    rw [Sheet.extent?_congr (twin.sheets place).rows (twin.sheets place).columns]
    cases (p.sheet place).extent? with
    | none => exact .pure rfl twin
    | some area => exact abreast_readRange level twin place area
  | cell a => exact (abreast_readSeen level twin _).mono fun _ _ content => content.same.symm
  | reject => exact .pure rfl twin

include targets

theorem abreast_readReference (place : Nat) (r : Reference) :
    Abreast E Eq (readReference w read place r) (readReference w' read' place r) p p' := by
  cases r with
  | cell a => exact (abreast_readSeen level twin _).mono fun _ _ content => content.same.symm
  | range area => exact abreast_readRange level twin place area
  | external external =>
    obtain ⟨same, resolved⟩ := twin.resolve targets books external.page
    have found : Abreast E Eq (modifyGet (·.resolve w external.page)) (modifyGet (·.resolve w' external.page))
        p p' := .update same.symm resolved .resolve
    refine found.bind ?_
    rintro outcome _ q q' rfl twin -
    cases outcome with
    | error failure => exact .pure rfl twin
    | ok there =>
      cases external.target with
      | cell a => exact (abreast_readSeen level twin _).mono fun _ _ content => content.same.symm
      | range area => exact abreast_readRange level twin there area
      | wholeSheet => exact abreast_readWholeSheet books level twin there

/-- An expression comes to the same in both workbooks. -/
theorem abreast_same (place : Nat) (e : Expr) : Abreast E Eq
    (evaluateExpr w.library (readReference w read place) e)
    (evaluateExpr w'.library (readReference w' read' place) e) p p' := by
  rw [evaluateExpr_eq_run, evaluateExpr_eq_run, books.library]
  exact .run twin fun r q q' twin => abreast_readReference books targets level twin place r

end References

/-! ## Cells -/

/-- Whatever expressions are related, they come to the same when they are finished. -/
def Parallel (E : Expr → Expr → Prop) (w w' : Workbook) (read read' : CellReader) : Prop :=
  ∀ e e' place p p', E e e' → p.Twin E p' → place < p.pages.size →
    Abreast E (fun u v => v.finish = u.finish) (evaluateExpr w.library (readReference w read place) e)
      (evaluateExpr w'.library (readReference w' read' place) e') p p'

section Cells

variable {w w' : Workbook} {read read' : CellReader} (books : w.Rewritten E w') (targets : SameTargets E)
variable {key : CellKey} {source source' : String}

section Formulas

variable (level : Level E read read') (parallel : Parallel E w w' read read')
variable (formula : p.IsFormula key) (typed : (Input.formula source).Rewritten E (.formula source'))

include books targets level parallel formula typed

theorem abreast_computation (twin : p.Twin E p') :
    Abreast E (fun u v => v = u ∧ u.Finished) (Pass.computation w read key source)
      (Pass.computation w' read' key source') p p' := by
  have parsing : Abreast E (fun outcome outcome' => outcome = Expr.ofFormula source ∧
      outcome' = Expr.ofFormula source')
      (modifyGet fun p => ((p.cache.parse source).1, { p with cache := (p.cache.parse source).2 }))
      (modifyGet fun p => ((p.cache.parse source').1, { p with cache := (p.cache.parse source').2 })) p p' :=
    .update ⟨p.cache.parse_fst source, p'.cache.parse_fst source'⟩ (twin.withCaches _ _) (.of_same rfl rfl rfl)
  have finishes {u v : Value} (same : v.finish = u.finish) : v.finish = u.finish ∧ u.finish.Finished :=
    ⟨same, u.finish_finished⟩
  refine parsing.bind ?_
  rintro _ _ q q' ⟨rfl, rfl⟩ twin onward
  cases typed with
  | same =>
    cases Expr.ofFormula source with
    | error fault => exact .pure ⟨rfl, .error⟩ twin
    | ok e =>
      refine (abreast_same books targets level twin key.page e).map fun u v same => finishes ?_
      rw [same]
  | formula parsed parsed' related =>
    rw [parsed, parsed']
    have loaded := Nat.lt_of_lt_of_le formula.loaded onward.size
    exact (parallel _ _ _ _ _ related twin loaded).map fun _ _ => finishes

theorem abreast_evaluateFormulaCell (twin : p.Twin E p') :
    Abreast E SameContent (evaluateFormulaCell w read key source) (evaluateFormulaCell w' read' key source')
      p p' := by
  have isRun : (evaluateFormulaCell w read key source).run p = _ := Pass.evaluateFormulaCell_eq source p
  have isRun' : (evaluateFormulaCell w' read' key source').run p' = _ := Pass.evaluateFormulaCell_eq source' p'
  obtain ⟨outcomes, twin, onward⟩ := abreast_computation books targets level parallel (p := p.enter key) formula
    typed (twin.enter formula)
  -- Both computations ended in twins with the same value, and leaving the formula keeps them so.
  generalize (Pass.computation w read key source).run (p.enter key) = result at outcomes twin onward isRun
  generalize (Pass.computation w' read' key source').run (p'.enter key) = result' at outcomes twin isRun'
  obtain ⟨v, q⟩ := result
  obtain ⟨v', q'⟩ := result'
  obtain ⟨rfl, finished⟩ := outcomes
  obtain ⟨same, left⟩ := twin.leave (onward.isFormula (p := p.enter key) formula) finished
  refine ⟨?_, ?_, ?_⟩
  · rw [isRun, isRun']
    dsimp only
    rw [same]
    exact .of_finished (Progress.leave_finished finished)
  · rw [isRun, isRun']
    exact left
  · rw [isRun]
    exact onward.leave

theorem abreast_finishCell (twin : p.Twin E p') :
    Abreast E SameContent (finishCell w read key source) (finishCell w' read' key source') p p' := by
  refine .get ?_
  rw [twin.memo]
  cases known : p.memo[key]? with
  | some v => exact .pure (.of_finished (twin.sane.finished key v known).2) twin
  | none => exact abreast_evaluateFormulaCell books targets level parallel formula typed twin

theorem abreast_settleCell (twin : p.Twin E p') :
    Abreast E SameContent (settleCell w read key source) (settleCell w' read' key source') p p' := by
  refine .get ?_
  rw [twin.pendingPrecedents targets]
  refine (Abreast.forIn _ twin ?each _).bind fun _ _ q q' _ twin onward => ?last
  case last =>
    exact abreast_finishCell books targets level parallel (onward.isFormula formula) typed twin
  case each =>
    intro a _ _ q q' twin _
    refine .get ?_
    -- Where one input is a formula, so is the other.
    have typed := twin.input ⟨key.page, a⟩
    generalize isTyped : q.input ⟨key.page, a⟩ = i, q'.input ⟨key.page, a⟩ = j at typed
    have formula {source : String} (same : i = .formula source) : q.IsFormula ⟨key.page, a⟩ :=
      Sheet.isFormula_iff.2 ⟨source, isTyped.trans same⟩
    have finishes {source source' : String} (same : i = .formula source)
        (typed : (Input.formula source).Rewritten E (.formula source')) :
        Abreast E Eq
          (do discard <| finishCell w read ⟨key.page, a⟩ source; pure (ForInStep.yield PUnit.unit))
          (do discard <| finishCell w' read' ⟨key.page, a⟩ source'; pure (ForInStep.yield PUnit.unit)) q q' := by
      have finished : Abreast E (fun _ _ => True) (discard <| finishCell w read ⟨key.page, a⟩ source)
          (discard <| finishCell w' read' ⟨key.page, a⟩ source') q q' :=
        (abreast_finishCell books targets level parallel (formula same) typed twin).map fun _ _ _ => trivial
      exact finished.bind fun _ _ q q' _ twin _ => .pure rfl twin
    cases typed with
    | same =>
      cases i with
      | blank | number _ | text _ => exact .pure rfl twin
      | formula source => exact finishes rfl .same
    | formula parsed parsed' related => exact finishes rfl (.formula parsed parsed' related)

end Formulas

theorem abreast_lookUp {settle settle' : CellKey → String → Evaluating Value} (twin : p.Twin E p')
    (settles : ∀ source source', p.IsFormula key → (Input.formula source).Rewritten E (.formula source') →
      Abreast E SameContent (settle key source) (settle' key source') p p') :
    Abreast E SameContent (lookUp settle key) (lookUp settle' key) p p' := by
  refine .get ?_
  rw [twin.memo, twin.stack]
  cases known : p.memo[key]? with
  | some v => exact .pure (.of_finished (twin.sane.finished key v known).2) twin
  | none =>
    by_cases entered : key ∈ p.stack
    · simp only [entered, if_true]
      have closing : Abreast E Eq (modify fun p => p.closeCycle key) (modify fun p => p.closeCycle key) p p' :=
        .update rfl twin.closeCycle (.of_same rfl rfl rfl)
      exact closing.bind fun _ _ q q' _ twin _ => .pure (.of_finished .error) twin
    · simp only [entered, if_false]
      have typed := twin.input key
      generalize isTyped : p.input key = i, p'.input key = j at typed
      have formula {source : String} (same : i = .formula source) : p.IsFormula key :=
        Sheet.isFormula_iff.2 ⟨source, isTyped.trans same⟩
      cases typed with
      | same =>
        cases i with
        | blank => exact .pure ⟨rfl, .blank⟩ twin
        | number x => exact .pure ⟨rfl, .number (Input.isFinite_of_ofText isTyped)⟩ twin
        | text s => exact .pure ⟨rfl, .text⟩ twin
        | formula source => exact settles source source (formula rfl) .same
      | formula parsed parsed' related => exact settles _ _ (formula rfl) (.formula parsed parsed' related)

include books targets

/-- The readers of two workbooks go abreast, if related expressions do that read by them. -/
theorem level_readCell (parallel : ∀ depth, Level E (readCell w depth) (readCell w' depth) →
    Parallel E w w' (readCell w depth) (readCell w' depth)) (depth : Nat) :
    Level E (readCell w depth) (readCell w' depth) := by
  induction depth with
  | zero => exact fun key p p' twin => abreast_lookUp twin fun _ _ _ _ => .pure (.of_finished .error) twin
  | succ depth ih =>
    exact fun key p p' twin => abreast_lookUp twin fun source source' formula typed =>
      abreast_settleCell books targets ih (parallel depth ih) formula typed twin

end Cells

/-! ## One evaluation -/

/-- What holds of every read of a cell: a state goes to one of the same kind, and a blank cell leaves it as it is. -/
structure Steady (read : CellReader) : Prop where
  level : Level Eq read read
  blank : ∀ key p, p.Sane → p.input key = .blank → (read key).run p = (.blank, p)

theorem sameTargets_eq : SameTargets Eq := fun _ _ same _ _ _ => same ▸ Iff.rfl

theorem run_lookUp_of_blank {settle : CellKey → String → Evaluating Value} {key : CellKey} (sane : p.Sane)
    (blank : p.input key = .blank) : (lookUp settle key).run p = (.blank, p) := by
  have noFormula : ¬ p.IsFormula key := fun formula => by
    obtain ⟨source, typed⟩ := Sheet.isFormula_iff.1 formula
    cases typed.symm.trans blank
  have unknown : p.memo[key]? = none :=
    Option.eq_none_iff_forall_ne_some.2 fun v known => noFormula (sane.finished key v known).1
  have outside : key ∉ p.stack := fun entered => noFormula (sane.entered key entered)
  simp only [lookUp, StateT.run_bind, StateT.run_get, pure_bind, unknown, outside, if_false, blank]
  rfl

theorem steady_readCell (w : Workbook) (depth : Nat) : Steady (readCell w depth) where
  level := level_readCell (.refl w) sameTargets_eq (fun depth level e _ place p p' same twin _ => by
    cases same
    refine (abreast_same (.refl w) sameTargets_eq level twin place e).mono fun u v same => ?_
    rw [same]) depth
  blank key p sane blank := by
    cases depth <;> exact run_lookUp_of_blank sane blank

/-! ## Whole evaluations -/

namespace Workbook

variable {w w' : Workbook} (books : w.Rewritten E w') (targets : SameTargets E)
variable (parallel : ∀ depth, Level E (readCell w depth) (readCell w' depth) →
  Parallel E w w' (readCell w depth) (readCell w' depth))

include books targets parallel

theorem abreast_evaluateCells (addresses : List Address) (twin : p.Twin E p') :
    Abreast E Eq (w.evaluateCells addresses) (w'.evaluateCells addresses) p p' := by
  have level := level_readCell books targets parallel
  have cells : Abreast E (List.Forall₂ Eq) (w.evaluateCells addresses) (w'.evaluateCells addresses) p p' := by
    refine .mapM addresses twin fun a _ q q' twin => ?_
    rw [books.options]
    refine (level _ _ _ _ twin).bind fun u v q q' content twin _ => .pure ?_ twin
    rw [content.same]
  rw [List.forall₂_eq_eq_eq] at cells
  exact cells

/-- Both workbooks show the same in their cells, and end in twin states. -/
theorem evaluateWith_of_rewritten (cache cache' : ParseCache) :
    (w'.evaluateWith cache').1 = (w.evaluateWith cache).1 ∧
      (w.finalState cache).Twin E (w'.finalState cache') := by
  have cells := abreast_evaluateCells books targets parallel w.sheet.inputs.keys
    (Progress.twin_begin books targets cache cache')
  rw [finalState, finalState, evaluateWith, evaluateWith, books.sheet.keys]
  exact ⟨congrArg (fun entries => (Std.ExtTreeMap.ofList entries : Result)) cells.outcomes.symm, cells.twin⟩

/-- Related formulas that stand in no cell have the same value, and ask the resolver for the same pages. -/
theorem evaluateFormula_of_rewritten {formula formula' : String}
    (formulas : (Input.formula formula).Rewritten E (.formula formula')) :
    w'.evaluateFormula formula' = w.evaluateFormula formula := by
  have level := level_readCell books targets parallel w.options.maxDepth
  have twin := Progress.twin_begin books targets .empty .empty
  have shown {m m' : Evaluating Value} (abreast : Abreast E (fun u v => v.finish = u.finish) m m' (w.begin .empty)
      (w'.begin .empty)) : ((m'.run (w'.begin .empty)).1.finish.toCellValue, (m'.run (w'.begin .empty)).2.calls) =
        ((m.run (w.begin .empty)).1.finish.toCellValue, (m.run (w.begin .empty)).2.calls) := by
    rw [abreast.outcomes, abreast.twin.calls]
  cases formulas with
  | same =>
    cases parsed : Expr.ofFormula formula with
    | error fault => simp only [evaluateFormula, parsed]
    | ok e =>
      simp only [evaluateFormula, parsed, books.options]
      refine shown ((abreast_same books targets level twin Progress.root e).mono fun u v same => ?_)
      rw [same]
  | formula parsed parsed' related =>
    have loaded := Progress.root_lt_begin w .empty
    simp only [evaluateFormula, parsed, parsed', books.options]
    exact shown (parallel w.options.maxDepth level _ _ _ _ _ related twin loaded)

end Workbook

end PageCalc

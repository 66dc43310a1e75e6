import PageCalc.Proofs.Evaluation.Simulation

/-!
# Whole evaluations

The evaluation of a sheet, and that of a formula that stands in no cell, are runs of the machine from
the state in which only the root page is loaded.
-/

namespace PageCalc

open Collection

variable {w : Workbook} {cache : ParseCache}

namespace Pass

/-- The evaluation of a sheet: only cells of the root page are read from outside. -/
def ofSheet (w : Workbook) (limit? : Option Nat) : Pass := ⟨w, fun key => key.page = Progress.root, limit?⟩

/-- The evaluation of a formula that stands in no cell. -/
def ofFormula (w : Workbook) (limit? : Option Nat) : Pass := ⟨w, fun _ => True, limit?⟩

variable {pass : Pass} {p : Progress}

theorem begin_pages : (w.begin cache).pages =
    #[⟨w.pageId, w.sheet, (Dependencies.ofSheet w.sheet cache).1⟩] := rfl

theorem valid_begin (pass : Pass) (cache : ParseCache) : pass.Valid (pass.book.begin cache) where
  root := ⟨_, by rw [begin_pages]; rfl, rfl, rfl⟩
  resolved i place known := by simp [Workbook.begin, Progress.load, Progress.start] at known
  toKept := Progress.begin_kept _ cache
  distinct := .nil
  entered key member := absurd member List.not_mem_nil
  settled key member := absurd member List.not_mem_nil
  wasSettled key member offCycle := by
    obtain ⟨v, known⟩ := mem_iff_exists.1 member
    exact absurd (Progress.memo_of_begin known).2 offCycle
  chain := .nil
  rooted key last := by cases last
  marked key member := by simp [Workbook.begin, Progress.load, Progress.start] at member

theorem ready_begin (pass : Pass) (cache : ParseCache) {depth : Nat} (room : pass.limit? = some depth) :
    pass.Ready depth (pass.book.begin cache) :=
  ⟨pass.valid_begin cache, room.trans (congrArg some (Nat.zero_add depth).symm)⟩

theorem root_loaded (valid : pass.Valid p) : Progress.root < p.pages.size := by
  obtain ⟨page, loaded, -⟩ := valid.root
  exact (Array.getElem?_eq_some_iff.1 loaded).1

theorem root_sheet (valid : pass.Valid p) : p.sheet Progress.root = pass.book.sheet := by
  obtain ⟨page, loaded, -, isSheet⟩ := valid.root
  exact (Progress.sheet_of_page loaded).trans isSheet

/-- While nothing is under evaluation, a cell has the value that is kept for it or that was typed in, unless
there is no room for any formula. -/
theorem Answers.of_idle {key : CellKey} {v : Value} (answers : pass.Answers p key v) (idle : p.stack = []) :
    p.memo[key]? = some v ∨ (p.input key).literal? = some v ∨
      v = .error .tooDeep ∧ p.IsFormula key ∧ pass.limit? = some 0 := by
  cases answers with
  | finished known => exact .inl known
  | typed loaded literal => exact .inr (.inl literal)
  | waiting entered marked =>
    rw [idle] at entered
    cases entered
  | tooDeep formula outside asked deep =>
    obtain ⟨limit, isLimit, full⟩ := deep
    rw [idle, List.length_nil, Nat.le_zero] at full
    exact .inr (.inr ⟨rfl, formula, full ▸ isLimit⟩)

end Pass

namespace Workbook

/-- The workbook with another limit on the depth. -/
def withDepth (w : Workbook) (depth : Nat) : Workbook :=
  { w with options := { w.options with maxDepth := depth } }

theorem readCell_withDepth (w : Workbook) (limit depth : Nat) :
    readCell (w.withDepth limit) depth = readCell w depth := by
  induction depth with
  | zero => rfl
  | succ depth ih =>
    simp only [readCell, ih]
    rfl

theorem after_evaluateCells (w : Workbook) (depth : Nat) (addresses : List Address) {p : Progress}
    (ready : (Pass.ofSheet w (some depth)).Ready depth p) (idle : p.stack = []) :
    After ((w.withDepth depth).evaluateCells addresses) p fun cells p' =>
      (Pass.ofSheet w (some depth)).Runs p p' ∧ List.Forall₂ (fun a cell => cell.1 = a ∧ ∃ v,
        (Pass.ofSheet w (some depth)).Answers p' ⟨Progress.root, a⟩ v ∧ cell.2 = v.toCellValue)
          addresses cells := by
  -- The induction is over any stretch, so that it does not unfold this one.
  generalize passIs : Pass.ofSheet w (some depth) = pass at ready ⊢
  unfold evaluateCells
  rw [readCell_withDepth]
  induction addresses generalizing p with
  | nil => exact .pure ⟨.refl p, .nil⟩
  | cons a addresses ih =>
    rw [List.mapM_cons]
    have asked : pass.Asked p ⟨Progress.root, a⟩ := by
      rw [Pass.Asked, idle, ← passIs]
      rfl
    have follows : pass.Follows depth (readCell w depth) := by
      rw [← passIs]
      exact (Pass.ofSheet w (some depth)).readCell_follows depth
    refine After.bind (Q := fun cell q => pass.Runs p q ∧ cell.1 = a ∧ ∃ v,
      pass.Answers q ⟨Progress.root, a⟩ v ∧ cell.2 = v.toCellValue)
      ?_ ?_
    · refine (follows p _ ready asked (Pass.root_loaded ready.valid)).bind ?_
      rintro v q ⟨runs, answers⟩
      exact .pure ⟨runs, rfl, v, answers, rfl⟩
    · rintro cell q ⟨runs, same, v, answers, shown⟩
      have ready' := ready.runs runs
      refine (ih (runs.stack.trans idle) ready').bind ?_
      rintro cells p' ⟨runs', rest⟩
      have answers' := runs'.answers ready'.valid answers
      exact .pure ⟨runs.trans runs', .cons ⟨same, v, answers', shown⟩ rest⟩

/-- The state after the evaluation of the sheet. -/
abbrev finalState (w : Workbook) (cache : ParseCache) : Progress := (w.evaluateWith cache).2

theorem after_evaluate (w : Workbook) (depth : Nat) (cache : ParseCache) :
    After ((w.withDepth depth).evaluateCells w.sheet.inputs.keys) (w.begin cache) fun cells p' =>
      (Pass.ofSheet w (some depth)).Runs (w.begin cache) p' ∧
      List.Forall₂ (fun a cell => cell.1 = a ∧ ∃ v,
        (Pass.ofSheet w (some depth)).Answers p' ⟨Progress.root, a⟩ v ∧ cell.2 = v.toCellValue)
          w.sheet.inputs.keys cells :=
  w.after_evaluateCells depth _ ((Pass.ofSheet w (some depth)).ready_begin cache rfl) rfl

theorem runs_evaluate (w : Workbook) (depth : Nat) (cache : ParseCache) :
    (Pass.ofSheet w (some depth)).Runs (w.begin cache) ((w.withDepth depth).finalState cache) :=
  (w.after_evaluate depth cache).1

/-- The cells of a result are those that are not blank, each with what was found for it. -/
theorem getElem?_ofList {inputs : AddressMap String} {cells : List (Address × CellValue)}
    (found : Address → CellValue → Prop)
    (values : List.Forall₂ (fun a cell => cell.1 = a ∧ found a cell.2) inputs.keys cells) (a : Address) :
    (a ∉ inputs ∧ (Std.ExtTreeMap.ofList cells : Result)[a]? = none) ∨
    (a ∈ inputs ∧ ∃ x, found a x ∧ (Std.ExtTreeMap.ofList cells : Result)[a]? = some x) := by
  have sameKeys : cells.map Prod.fst = inputs.keys := by
    have first := values.imp fun a cell holds => holds.1.symm
    exact (List.forall₂_eq_eq_eq ▸ List.forall₂_map_right_iff.2 first : _ = _).symm
  by_cases typed : a ∈ inputs
  · refine .inr ⟨typed, ?_⟩
    obtain ⟨i, inKeys, isA⟩ := List.getElem_of_mem (Std.ExtTreeMap.mem_keys.2 typed)
    have inCells : i < cells.length := values.length_eq ▸ inKeys
    obtain ⟨sameAddress, holds⟩ := (List.forall₂_iff_get.1 values).2 i inKeys inCells
    simp only [List.get_eq_getElem, isA] at sameAddress holds
    refine ⟨_, holds, Std.ExtTreeMap.getElem?_ofList_of_mem (k := a)
      (Std.LawfulEqCmp.compare_eq_iff_eq.2 rfl) ?_ ?_⟩
    -- The cells come in the order of the inputs, none of them twice.
    · rw [← List.pairwise_map (f := Prod.fst) (R := fun a b => ¬ compare a b = .eq), sameKeys]
      exact Std.ExtTreeMap.distinct_keys
    · rw [← sameAddress]
      exact List.getElem_mem inCells
  · refine .inl ⟨typed, Std.ExtTreeMap.getElem?_ofList_of_contains_eq_false ?_⟩
    rw [← Bool.not_eq_true, List.contains_iff_mem, sameKeys, Std.ExtTreeMap.mem_keys]
    exact typed

/-- Every cell that is not blank gets the value that is found in it, and no other cell has one. -/
theorem getElem?_evaluateWith (w : Workbook) (depth : Nat) (cache : ParseCache) (a : Address) :
    (a ∉ w.sheet.inputs ∧ ((w.withDepth depth).evaluateWith cache).1[a]? = none) ∨
    (a ∈ w.sheet.inputs ∧ ∃ v, (Pass.ofSheet w (some depth)).Answers
        ((w.withDepth depth).finalState cache) ⟨Progress.root, a⟩ v ∧
      ((w.withDepth depth).evaluateWith cache).1[a]? = some v.toCellValue) := by
  have cells := getElem?_ofList (fun a x => ∃ v, (Pass.ofSheet w (some depth)).Answers
    ((w.withDepth depth).finalState cache) ⟨Progress.root, a⟩ v ∧ x = v.toCellValue)
    (w.after_evaluate depth cache).2 a
  refine cells.imp id ?_
  rintro ⟨typed, x, ⟨v, answers, rfl⟩, isValue⟩
  exact ⟨typed, v, answers, isValue⟩

/-- What the result shows was found in the cell. -/
theorem answers_of_shown {a : Address} {x : CellValue} (shown : (w.evaluateWith cache).1[a]? = some x) :
    ∃ v, (Pass.ofSheet w (some w.options.maxDepth)).Answers (w.finalState cache) ⟨Progress.root, a⟩ v ∧
      x = v.toCellValue := by
  obtain ⟨-, v, answers, isValue⟩ := (w.getElem?_evaluateWith w.options.maxDepth cache a).resolve_left
    fun blank => by cases blank.2.symm.trans shown
  exact ⟨v, answers, Option.some.inj (shown.symm.trans isValue)⟩

/-- The result shows what was found in a formula. -/
theorem answers_of_isFormula {a : Address} (formula : w.sheet.isFormula a) :
    ∃ v, (Pass.ofSheet w (some w.options.maxDepth)).Answers (w.finalState cache) ⟨Progress.root, a⟩ v ∧
      (w.evaluateWith cache).1[a]? = some v.toCellValue :=
  ((w.getElem?_evaluateWith w.options.maxDepth cache a).resolve_left fun blank =>
    blank.1 (Sheet.mem_inputs_of_isFormula formula)).2

/-- The cells of the root page hold what the sheet holds. -/
theorem isFormula_finalState_iff {a : Address} :
    (w.finalState cache).IsFormula ⟨Progress.root, a⟩ ↔ w.sheet.isFormula a := by
  have valid := (w.runs_evaluate w.options.maxDepth cache).valid (Pass.valid_begin _ cache)
  have rootSheet : (w.finalState cache).sheet Progress.root = w.sheet := Pass.root_sheet valid
  rw [Progress.IsFormula, rootSheet]

/-! ## Formulas -/

/-- The evaluation of an expression on the root page. -/
def evaluation (w : Workbook) (e : Expr) : Evaluating Value :=
  evaluateExpr w.library (readReference w (readCell w w.options.maxDepth) Progress.root) e

theorem evaluateFormula_of_parsed {formula : String} {e : Expr}
    (parsed : Expr.ofFormula formula = .ok e) : (w.evaluateFormula formula).1 =
      ((w.evaluation e).run (w.begin .empty)).1.finish.toCellValue := by
  simp only [evaluateFormula, parsed]
  rfl

theorem after_evaluation (w : Workbook) (depth : Nat) (cache : ParseCache) (e : Expr) :
    After ((w.withDepth depth).evaluation e) (w.begin cache) fun x p' =>
      (Pass.ofFormula w (some depth)).Runs (w.begin cache) p' ∧ (e.plan w.library).Yields
        ((Pass.ofFormula w (some depth)).AnswersReference p' Progress.root) x := by
  have ready := (Pass.ofFormula w (some depth)).ready_begin cache rfl
  rw [evaluation, readCell_withDepth, evaluateExpr_eq_run]
  refine Pass.after_plan ((Pass.ofFormula w (some depth)).readCell_follows depth)
    (ensures_plan (ValueLaw.trivial _) e) ready (Pass.root_loaded ready.valid) ?_
  intro r member q runs t target
  have idle : q.stack = [] := runs.stack
  rw [Pass.Asked, idle]
  trivial

end Workbook
end PageCalc

import PageCalc.Proofs.Evaluation.Edits
import PageCalc.Proofs.Formula.Rendering
import PageCalc.Proofs.Formula.Replacement
import PageCalc.Proofs.Value.Finished

/-!
# Branches that are not selected

The functions that choose among their arguments do not evaluate the others. The references of the others
are edges of the graph all the same, so they decide in which order cells are evaluated and which of them
lie on cycles. Off cycles nothing of that is seen in a value.
-/

namespace PageCalc

open Collection

/-! ## Skipped arguments -/

namespace Function

open Value

variable {m : Type → Type} [Monad m] [LawfulMonad m] {v : Value} {count : Nat}

theorem not_isError_of_toTruth {b : Bool} (isTruth : v.toTruth = .ok b) : v.isError = false := by
  cases v with
  | error e => simp [toTruth, truth?] at isTruth
  | _ => rfl

/-- A condition that is true selects the second argument, whatever comes after it. -/
theorem run_choose_true (holds : v.scalar.toTruth = .ok true) (chosen : m Value) (rest : List (m Value)) :
    (choose count).run (pure v :: chosen :: rest) = chosen >>= fun u => pure (.ok u) := by
  simp [choose, Demand.run, not_isError_of_toTruth holds, holds, answerWith]

/-- A condition that is false passes over the second argument. -/
theorem run_choose_false (fails : v.scalar.toTruth = .ok false) (skipped : m Value) (rest : List (m Value)) :
    (choose count).run (pure v :: skipped :: rest) =
      if 2 < count then (rest[0]?).getD (pure .blank) >>= fun u => pure (.ok u)
      else pure (.ok (.boolean false)) := by
  simp only [choose, Demand.run, List.getElem?_cons_zero, Option.getD_some, pure_bind,
    not_isError_of_toTruth fails, fails, Bool.false_eq_true, if_false]
  split <;> simp [answerWith, Demand.run]

/-- A value without errors is not rescued. -/
theorem run_rescue_of_no_error (sound : v.firstError? = none) (fallback : m Value) (rest : List (m Value)) :
    (rescue count).run (pure v :: fallback :: rest) = pure (.ok v) := by
  simp [rescue, Demand.run, sound]

end Function

namespace Library

theorem find?_if {name : String} (isIf : Text.upper name = "IF") :
    builtin.find? name = some ⟨"IF", 2, some 3, .lazy Function.choose⟩ := by
  rw [find?, isIf]
  rfl

theorem find?_iferror {name : String} (isIferror : Text.upper name = "IFERROR") :
    builtin.find? name = some ⟨"IFERROR", 2, some 2, .lazy Function.rescue⟩ := by
  rw [find?, isIferror]
  rfl

end Library

namespace Expr

/-- Two calls differ in one argument only, and this is a branch that the condition does not select, or the
fallback for a value in which there is no error. -/
inductive Unselected (value : Expr → Value) : Expr → Expr → Prop where
  | whenTrue {name : String} {condition chosen skipped skipped' : Expr} {rest : List Expr}
      (isIf : Text.upper name = "IF") (holds : (value condition).scalar.toTruth = .ok true) :
      Unselected value (.call name (condition :: chosen :: skipped :: rest))
        (.call name (condition :: chosen :: skipped' :: rest))
  | whenFalse {name : String} {condition skipped skipped' : Expr} {rest : List Expr}
      (isIf : Text.upper name = "IF") (fails : (value condition).scalar.toTruth = .ok false) :
      Unselected value (.call name (condition :: skipped :: rest))
        (.call name (condition :: skipped' :: rest))
  | fallback {name : String} {attempt fallback fallback' : Expr} {rest : List Expr}
      (isIferror : Text.upper name = "IFERROR") (sound : (value attempt).firstError? = none) :
      Unselected value (.call name (attempt :: fallback :: rest))
        (.call name (attempt :: fallback' :: rest))

variable {read : Reference → Value} {e e' : Expr}

theorem Unselected.evaluateExpr_eq (unselected : Unselected (fun e => e.value .builtin read) e e') :
    evaluateExpr .builtin (fun r => (pure (read r) : Id Value)) e =
      evaluateExpr .builtin (fun r => (pure (read r) : Id Value)) e' := by
  have evaluated (e : Expr) : evaluateExpr .builtin (fun r => (pure (read r) : Id Value)) e =
      pure (e.value .builtin read) := rfl
  cases unselected with
  | @whenTrue name condition _ _ _ _ isIf holds =>
    simp only [evaluateExpr, evaluators, callFunction, Library.find?_if isIf, List.length_cons, applyFunction,
      evaluated condition, Function.run_choose_true holds]
  | @whenFalse name condition _ _ _ isIf fails =>
    simp only [evaluateExpr, evaluators, callFunction, Library.find?_if isIf, List.length_cons, applyFunction,
      evaluated condition, Function.run_choose_false fails]
  | @fallback name attempt _ _ _ isIferror sound =>
    simp only [evaluateExpr, evaluators, callFunction, Library.find?_iferror isIferror, List.length_cons,
      applyFunction, evaluated attempt, Function.run_rescue_of_no_error sound]

/-- An expression has the same value whatever stands in branches that are not selected. -/
theorem Replaced.value_eq (replaced : e.Replaced (Unselected fun e => e.value .builtin read) e') :
    e.value .builtin read = e'.value .builtin read :=
  congrArg Id.run (replaced.evaluateExpr_eq fun _ _ => Unselected.evaluateExpr_eq)

end Expr

/-! ## What a result shows -/

/-- The value of a cell that shows something, as formulas read it. -/
def CellValue.toValue : CellValue → Value
  | number x => .number x
  | text s => .text s
  | boolean b => .boolean b
  | error e => .error e

/-- The value of a cell as formulas read it. A cell without a value is blank. -/
def Result.value (result : Result) (a : Address) : Value := (result[a]?).elim .blank CellValue.toValue

namespace Workbook

/-- What a reference to cells of the sheet shows when all of them are evaluated. -/
def shown (w : Workbook) (cache : ParseCache) (r : Reference) : Value :=
  ((w.sheet.alone w.library).sight () r).value fun s => Result.value (w.evaluateWith cache).1 s.address

end Workbook

theorem Value.Finished.toValue_toCellValue {v : Value} (finished : v.Finished) : v.toCellValue.toValue = v := by
  cases finished <;> rfl

theorem Atlas.no_expr?_of_fault {π : Type} {atlas : Atlas π} {s : Site π} {source : String} {fault : FormulaError}
    (typed : atlas.input s = .formula source) (isFault : Expr.ofFormula source = .error fault) :
    atlas.expr? s = none := by
  have typed : (atlas.sheet s.page).input s.address = .formula source := typed
  simp [expr?, Sheet.expr?, typed, isFault, Except.toOption]

/-- Nothing of what a cell means is lost in what it shows, unless it is blank. -/
theorem Atlas.Means.toValue_toCellValue {π : Type} {atlas : Atlas π} {known marked : Site π → Prop} {s : Site π}
    {v : Value} (means : atlas.Means known marked s v) (typed : atlas.input s ≠ .blank) :
    v.toCellValue.toValue = v := by
  cases means with
  | literal literal =>
    cases input : atlas.input s with
    | blank => exact absurd input typed
    | formula source => rw [input] at literal; cases literal
    | number x | text x => rw [input] at literal; cases literal; rfl
  | fault | circular => rfl
  | formula => exact (Value.finish_finished _).toValue_toCellValue

namespace Sheet

variable {s t : Sheet} {a c : Address}

/-- A cycle stays one when a cell that does not lie on it is changed. -/
theorem OnCycle.of_differ (rows : t.rows = s.rows) (columns : t.columns = s.columns)
    (unchanged : ∀ b, b ≠ c → t.get b = s.get b) (offCycle : ¬ s.OnCycle c) (onCycle : s.OnCycle a) :
    t.OnCycle a := by
  -- Every cell on the way lies on the same cycle, so none of them was changed.
  suffices along : ∀ b, Relation.TransGen s.Reads a b → Relation.ReflTransGen s.Reads b a →
      Relation.TransGen t.Reads a b from along a onCycle .refl
  intro b path
  induction path with
  | @single b reads =>
    intro back
    have other : a ≠ c := fun same => offCycle (same ▸ onCycle)
    exact .single ((reads_congr rows columns (unchanged a other)).2 reads)
  | @tail b d path reads ih =>
    intro back
    have back := Relation.ReflTransGen.head reads back
    have other : b ≠ c := fun same => offCycle (same ▸ .trans_right back path)
    exact (ih back).tail ((reads_congr rows columns (unchanged b other)).2 reads)

theorem onCycle_iff_of_differ (rows : t.rows = s.rows) (columns : t.columns = s.columns)
    (unchanged : ∀ b, b ≠ c → t.get b = s.get b) (offCycle : ¬ s.OnCycle c) (offCycle' : ¬ t.OnCycle c) :
    t.OnCycle a ↔ s.OnCycle a :=
  ⟨.of_differ rows.symm columns.symm (fun b other => (unchanged b other).symm) offCycle',
    .of_differ rows columns unchanged offCycle⟩

theorem sight_alone_congr {library : Library} (rows : t.rows = s.rows) (columns : t.columns = s.columns) :
    (t.alone library).sight = (s.alone library).sight := by
  funext page r
  cases r with
  | cell _ | external _ => rfl
  | range area =>
    show Sight.cells ((t.cellsIn area).map _) = Sight.cells ((s.cellsIn area).map _)
    rw [cellsIn_congr rows columns]

end Sheet

namespace Workbook

open Sheet

variable {w : Workbook} {t : Sheet} {cache cache' : ParseCache} {a c : Address} {e e' : Expr}

/-- The cells of a sheet that refers to itself only have the values that the result shows. -/
theorem denotes_result (w : Workbook) (cache : ParseCache) (room : 0 < w.options.maxDepth)
    (isLocal : w.sheet.IsLocal) (a : Address) :
    (w.sheet.alone w.library).Denotes ⟨(), a⟩ (Result.value (w.evaluateWith cache).1 a) := by
  have confined : w.sheet.Confined fun _ => True := isLocal.confined fun _ _ _ _ => trivial
  rcases w.getElem?_evaluateWith_of_confined cache room confined (a := a) trivial with
    ⟨absent, shown⟩ | ⟨typed, v, denotes, shown⟩
  · rw [mem_inputs_iff, not_not] at absent
    rw [Result.value, shown]
    refine .literal ?_
    show (w.sheet.input a).literal? = _
    rw [absent]
    rfl
  · rw [Result.value, shown, Option.elim_some, denotes.toValue_toCellValue (mem_inputs_iff.1 typed)]
    exact denotes

/-- The values of a sheet solve the equations of another one that differs from it in branches that are not
selected. -/
theorem solves_of_unselected (builtin : w.library = .builtin) (room : 0 < w.options.maxDepth)
    (isLocal : w.sheet.IsLocal) (rows : t.rows = w.sheet.rows) (columns : t.columns = w.sheet.columns)
    (unchanged : ∀ b, b ≠ c → t.get b = w.sheet.get b) (parsed : w.sheet.expr? c = some e)
    (parsed' : t.expr? c = some e') (offCycle : ¬ w.sheet.OnCycle c) (offCycle' : ¬ t.OnCycle c)
    (replaced : e.Replaced (Expr.Unselected fun e => e.value w.library (w.shown cache)) e') :
    (t.alone w.library).Solves (fun _ => True) fun s => Result.value (w.evaluateWith cache).1 s.address := by
  have confined : w.sheet.Confined fun _ => True := isLocal.confined fun _ _ _ _ => trivial
  have solves : (w.sheet.alone w.library).Solves (fun _ => True) fun s =>
      Result.value (w.evaluateWith cache).1 s.address :=
    Atlas.solves_of_denotes confined.closed_alone fun s _ => w.denotes_result cache room isLocal s.address
  have cycles (a : Address) : t.OnCycle a ↔ w.sheet.OnCycle a :=
    onCycle_iff_of_differ rows columns unchanged offCycle offCycle'
  have sameInput (a : Address) (other : a ≠ c) : t.input a = w.sheet.input a :=
    congrArg Input.ofText (unchanged a other)
  -- Where there is no tree, there is none in the other sheet, as both formulas of the changed cell have one.
  have noTree (s : Site Unit) (isNone : (t.alone w.library).expr? s = none) : s.address ≠ c := by
    intro same
    have isTree : (t.alone w.library).expr? s = some e' := (congrArg t.expr? same).trans parsed'
    rw [isTree] at isNone
    cases isNone
  constructor
  case literal =>
    intro s v _ literal
    have other := noTree s (Atlas.no_expr?_of_literal literal)
    exact solves.literal s v trivial ((congrArg Input.literal? (sameInput _ other)).symm.trans literal)
  case fault =>
    intro s source fault _ typed isFault
    have other := noTree s (Atlas.no_expr?_of_fault typed isFault)
    exact solves.fault s source fault trivial ((sameInput _ other).symm.trans typed) isFault
  case circular => exact fun s _ onCycle => solves.circular s trivial ((cycles s.address).1 onCycle)
  case formula =>
    intro s tree _ isTree free
    have isTree : t.expr? s.address = some tree := isTree
    have free' : ¬ w.sheet.OnCycle s.address := fun onCycle => free ((cycles s.address).2 onCycle)
    rw [sight_alone_congr rows columns]
    by_cases same : s.address = c
    · rw [same, parsed'] at isTree
      cases isTree
      have isTree : (w.sheet.alone w.library).expr? s = some e := (congrArg w.sheet.expr? same).trans parsed
      rw [solves.formula s e trivial isTree free']
      have sameValue : e.value w.library (w.shown cache) = e'.value w.library (w.shown cache) := by
        rw [builtin] at replaced ⊢
        exact replaced.value_eq
      exact congrArg Value.finish sameValue
    · rw [expr?, sameInput _ same] at isTree
      exact solves.formula s tree trivial isTree free'

/-- What stands in a branch that is not selected, or in a fallback that is not wanted, matters to no cell,
if the cell with the formula lies on no cycle. -/
theorem evaluateWith_of_unselected (w : Workbook) (t : Sheet) (cache cache' : ParseCache)
    (builtin : w.library = .builtin) (room : 0 < w.options.maxDepth) (isLocal : w.sheet.IsLocal)
    (isLocal' : t.IsLocal) (rows : t.rows = w.sheet.rows) (columns : t.columns = w.sheet.columns)
    (unchanged : ∀ b, b ≠ c → t.get b = w.sheet.get b) (parsed : w.sheet.expr? c = some e)
    (parsed' : t.expr? c = some e') (offCycle : ¬ w.sheet.OnCycle c) (offCycle' : ¬ t.OnCycle c)
    (replaced : e.Replaced (Expr.Unselected fun e => e.value w.library (w.shown cache)) e') :
    (({ w with sheet := t } : Workbook).evaluateWith cache').1 = (w.evaluateWith cache).1 := by
  have solves := solves_of_unselected builtin room isLocal rows columns unchanged parsed parsed' offCycle
    offCycle' replaced
  have confined : w.sheet.Confined fun _ => True := isLocal.confined fun _ _ _ _ => trivial
  have confined' : t.Confined fun _ => True := isLocal'.confined fun _ _ _ _ => trivial
  have typed_iff (a : Address) : a ∈ t.inputs ↔ a ∈ w.sheet.inputs := by
    by_cases same : a = c
    · subst same
      exact iff_of_true (mem_inputs_of_isFormula (isFormula_of_expr? parsed'))
        (mem_inputs_of_isFormula (isFormula_of_expr? parsed))
    · rw [mem_inputs_iff, mem_inputs_iff, input, input, unchanged a same]
  refine Std.ExtTreeMap.ext_getElem? fun a => ?_
  have known := w.getElem?_evaluateWith_of_confined cache room confined (a := a) trivial
  rcases ({ w with sheet := t } : Workbook).getElem?_evaluateWith_of_confined cache' room confined' (a := a)
    trivial with ⟨absent, shown'⟩ | ⟨typed, v', denotes', shown'⟩
  · obtain ⟨-, shown⟩ := known.resolve_right fun typed => absent ((typed_iff a).2 typed.1)
    rw [shown, shown']
  · obtain ⟨typed, v, denotes, shown⟩ := known.resolve_left fun absent => absent.1 ((typed_iff a).1 typed)
    -- The value that the first result shows is the one that the other sheet denotes.
    have same : Result.value (w.evaluateWith cache).1 a = v' :=
      denotes'.eq_solution confined'.closed_alone solves trivial
    rw [Result.value, shown, Option.elim_some, denotes.toValue_toCellValue (mem_inputs_iff.1 typed)] at same
    rw [shown, shown', same]

end Workbook

/-! ## A branch that refers to a cell -/

/-- A choice of the second cell of a sheet; the other branch refers to some cell. -/
def Expr.choice (skipped : Address) : Expr :=
  .call "IF" [.boolean true, .reference (.cell ⟨0, 1⟩), .reference (.cell skipped)]

theorem Expr.ofFormula_choice {skipped : Address} (inBounds : skipped.InBounds) :
    ofFormula (choice skipped).formula = .ok (choice skipped) := by
  have isName : IsName "IF" ∧ Text.upper "IF" = "IF" :=
    ⟨⟨⟨'I', ['F'], rfl, by decide⟩, List.all_eq_true.1 rfl⟩, rfl⟩
  have second : Address.InBounds ⟨0, 1⟩ := by decide
  have printable : (choice skipped).Printable := ⟨isName, trivial, second, inBounds, trivial⟩
  have room : (choice skipped).nesting ≤ maxNesting := show 1 + 1 ≤ maxNesting by decide
  exact ofFormula_of_room printable room

namespace Sheet

variable {skipped a b : Address}

/-- The sheet with such a choice in its first cell. -/
def choosing (skipped : Address) : Sheet :=
  (Sheet.empty.ensureSize 1 3).insert .first (Expr.choice skipped).formula (by decide) (by simp [Expr.formula])

theorem choosing_get : (choosing skipped).get a = if a = .first then (Expr.choice skipped).formula else "" := by
  rw [choosing, get_insert]
  rfl

theorem choosing_expr? (inBounds : skipped.InBounds) :
    (choosing skipped).expr? a = if a = .first then some (.choice skipped) else none := by
  rw [choosing, expr?_insert (by simp [isFormulaText, Expr.formula]) (Expr.ofFormula_choice inBounds)]
  rfl

theorem mem_references_choice {r : Reference} (member : r ∈ (Expr.choice skipped).references) :
    r = .cell ⟨0, 1⟩ ∨ r = .cell skipped := by
  simpa [Expr.choice, Expr.references, Expr.referencesOf] using member

theorem isLocal_choosing (inBounds : skipped.InBounds) : (choosing skipped).IsLocal := by
  intro a e r parsed member
  rw [choosing_expr? inBounds] at parsed
  split at parsed <;> cases parsed
  obtain rfl | rfl := mem_references_choice member <;> rfl

theorem choosing_reads (inBounds : skipped.InBounds) (reads : (choosing skipped).Reads a b) :
    a = .first ∧ (b = ⟨0, 1⟩ ∨ b = skipped) := by
  obtain ⟨r, member, target⟩ := reads
  rw [references, choosing_expr? inBounds] at member
  split at member
  · next isFirst =>
    obtain rfl | rfl := mem_references_choice member
    · exact ⟨isFirst, .inl (List.mem_singleton.1 target)⟩
    · exact ⟨isFirst, .inr (List.mem_singleton.1 target)⟩
  · cases member

theorem not_onCycle_choosing (inBounds : skipped.InBounds) (other : skipped ≠ .first) :
    ¬ (choosing skipped).OnCycle .first := by
  intro onCycle
  -- Whatever leads back to the first cell is the first cell, and it does not refer to itself.
  obtain ⟨b, path, reads⟩ := Relation.TransGen.tail'_iff.1 onCycle
  obtain ⟨-, isSecond | isSkipped⟩ := choosing_reads inBounds reads
  · cases isSecond
  · exact other isSkipped.symm

end Sheet

/-- The choice shows the same whether the branch that is not selected refers to the second cell or to the
third one. -/
theorem Workbook.evaluateWith_choosing :
    (({ sheet := .choosing ⟨0, 2⟩, pageId := "main" } : Workbook).evaluateWith .empty).1 =
      (({ sheet := .choosing ⟨0, 1⟩, pageId := "main" } : Workbook).evaluateWith .empty).1 := by
  have second : Address.InBounds ⟨0, 1⟩ := by decide
  have third : Address.InBounds ⟨0, 2⟩ := by decide
  refine evaluateWith_of_unselected (c := .first)
    { sheet := .choosing ⟨0, 1⟩, pageId := "main" } (.choosing ⟨0, 2⟩) .empty .empty rfl (by decide)
    (Sheet.isLocal_choosing second) (Sheet.isLocal_choosing third) rfl rfl ?_
    ((Sheet.choosing_expr? second).trans (if_pos rfl)) ((Sheet.choosing_expr? third).trans (if_pos rfl))
    (Sheet.not_onCycle_choosing second (by decide)) (Sheet.not_onCycle_choosing third (by decide))
    (.here (.whenTrue (by decide +kernel) rfl))
  intro b other
  rw [Sheet.choosing_get, Sheet.choosing_get, if_neg other, if_neg other]

end PageCalc

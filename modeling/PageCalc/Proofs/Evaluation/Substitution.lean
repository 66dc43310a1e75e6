import PageCalc.Proofs.Evaluation.Congruence
import PageCalc.Proofs.Formula.Rendering
import PageCalc.Proofs.Formula.Replacement
import PageCalc.Proofs.Function.Interchange

/-!
# One expression in place of another

One expression may stand for another one if both refer to the same cells of any grid, and if in one and the same
evaluation both lead to the same state, with values that cannot be told from each other. Then nothing changes in
any cell if subexpressions of any formulas, at any depth, are exchanged in this way.
-/

namespace PageCalc

variable {E base : Expr → Expr → Prop} {α β : Type} {p p' : Progress}

/-! ## References -/

namespace Expr

variable {sheet : Sheet} {b : Address}

/-- One of the expressions refers to a cell of their own sheet. -/
def AnyRefersTo (sheet : Sheet) (es : List Expr) (b : Address) : Prop :=
  ∃ r ∈ referencesOf es, b ∈ r.localCells sheet

theorem refersTo_binary {operator : Operator} {left right : Expr} :
    (binary operator left right).RefersTo sheet b ↔ left.RefersTo sheet b ∨ right.RefersTo sheet b := by
  simp only [RefersTo, references, List.mem_append, or_and_right, exists_or]

theorem anyRefersTo_cons {e : Expr} {es : List Expr} :
    AnyRefersTo sheet (e :: es) b ↔ e.RefersTo sheet b ∨ AnyRefersTo sheet es b := by
  simp only [RefersTo, AnyRefersTo, referencesOf, List.mem_append, or_and_right, exists_or]

theorem not_anyRefersTo_nil : ¬ AnyRefersTo sheet [] b := by simp [AnyRefersTo, referencesOf]

theorem anyRefersTo_append {es fs : List Expr} :
    AnyRefersTo sheet (es ++ fs) b ↔ AnyRefersTo sheet es b ∨ AnyRefersTo sheet fs b := by
  induction es with
  | nil => rw [List.nil_append, or_iff_right not_anyRefersTo_nil]
  | cons e es ih => rw [List.cons_append, anyRefersTo_cons, ih, anyRefersTo_cons, or_assoc]

mutual

/-- Replacements that keep what is referred to keep it in the whole expression. -/
theorem Replaced.refersTo_iff {e e' : Expr} (replaced : e.Replaced base e') (targets : SameTargets base)
    (inside : sheet.holds b) : e.RefersTo sheet b ↔ e'.RefersTo sheet b := by
  cases replaced with
  | same => exact Iff.rfl
  | here isBase => exact targets e e' isBase sheet b inside
  | binary operator first second =>
    rw [refersTo_binary, refersTo_binary, first.refersTo_iff targets inside, second.refersTo_iff targets inside]
  | negate inner => exact inner.refersTo_iff targets inside
  | call name each => exact each.anyRefersTo_iff targets inside
termination_by sizeOf e

theorem ReplacedAll.anyRefersTo_iff {es es' : List Expr} (replaced : ReplacedAll base es es')
    (targets : SameTargets base) (inside : sheet.holds b) :
    AnyRefersTo sheet es b ↔ AnyRefersTo sheet es' b := by
  cases replaced with
  | nil => exact Iff.rfl
  | cons head tail =>
    rw [anyRefersTo_cons, anyRefersTo_cons, head.refersTo_iff targets inside, tail.anyRefersTo_iff targets inside]
termination_by sizeOf es

end

end Expr

/-! ## Calls -/

/-- Two evaluations go abreast from any twin states in which a page is loaded, and come to interchangeable values. -/
def Exchangeable (E : Expr → Expr → Prop) (place : Nat) (m m' : Evaluating Value) : Prop :=
  ∀ p p', p.Twin E p' → place < p.pages.size → Abreast E Value.Interchangeable m m' p p'

section Calls

variable {place : Nat} {arguments arguments' : List (Evaluating Value)}
variable (each : List.Forall₂ (Exchangeable E place) arguments arguments')

include each

theorem abreast_demand {demand demand' : Demand} (both : demand.Interchangeable demand') (twin : p.Twin E p')
    (loaded : place < p.pages.size) :
    Abreast E Outcome.Interchangeable (demand.run arguments) (demand'.run arguments') p p' := by
  induction both generalizing p p' with
  | answer both => exact .pure both twin
  | @ask wanted next next' _ ih =>
    have asked : Abreast E Value.Interchangeable ((arguments[wanted]?).getD (pure .blank))
        ((arguments'[wanted]?).getD (pure .blank)) p p' := by
      by_cases given : wanted < arguments.length
      · have given' : wanted < arguments'.length := each.length_eq ▸ given
        rw [List.getElem?_eq_getElem given, List.getElem?_eq_getElem given']
        exact each.get given given' p p' twin loaded
      · have missing' : arguments'.length ≤ wanted := each.length_eq ▸ Nat.not_lt.1 given
        rw [List.getElem?_eq_none (Nat.not_lt.1 given), List.getElem?_eq_none missing']
        exact .pure .same twin
    exact asked.bind fun u v q q' both twin onward =>
      ih u v both twin (Nat.lt_of_lt_of_le loaded onward.size)

theorem abreast_arguments (twin : p.Twin E p') (loaded : place < p.pages.size) :
    Abreast E (List.Forall₂ Value.Interchangeable) (arguments.mapM id) (arguments'.mapM id) p p' := by
  induction each generalizing p p' with
  | nil => exact .pure .nil twin
  | cons first _ ih =>
    rw [List.mapM_cons, List.mapM_cons]
    refine (first p p' twin loaded).bind fun u v q q' both twin onward => ?_
    have loaded := Nat.lt_of_lt_of_le loaded onward.size
    exact (ih twin loaded).bind fun us vs q q' others twin _ => .pure (.cons both others) twin

omit each in
theorem abreast_outcome (twin : p.Twin E p') {outcome outcome' : Outcome} :
    Outcome.Interchangeable outcome outcome' → Abreast E Value.Interchangeable
      (pure (match outcome with
        | .ok v => v.checkFinite
        | .error fault => .error fault.toCellError))
      (pure (match outcome' with
        | .ok v => v.checkFinite
        | .error fault => .error fault.toCellError)) p p' := by
  rintro (both | _)
  · exact .pure both.checkFinite twin
  · exact .pure .same twin

theorem abreast_applyFunction {function : Function} (tolerates : function.implementation.Tolerates)
    (twin : p.Twin E p') (loaded : place < p.pages.size) :
    Abreast E Value.Interchangeable (applyFunction function arguments) (applyFunction function arguments')
      p p' := by
  unfold applyFunction
  cases implementation : function.implementation with
  | lazy demand =>
    rw [implementation] at tolerates
    rw [each.length_eq]
    exact (abreast_demand each (tolerates _) twin loaded).bind fun _ _ q q' both twin _ => abreast_outcome twin both
  | eager apply =>
    rw [implementation] at tolerates
    simp only [pure_bind]
    refine (abreast_arguments each twin loaded).bind fun us vs q q' both twin _ => abreast_outcome twin ?_
    -- The same error comes first, or the function makes the same of the arguments.
    rw [Value.findSome?_firstError? both fun _ _ => Value.Interchangeable.firstError?, tolerates us vs both]
    cases vs.findSome? Value.firstError? with
    | some e => exact .value .same
    | none => exact .refl _

theorem abreast_callFunction {library : Library} (tolerates : library.Tolerates) (name : String) (twin : p.Twin E p')
    (loaded : place < p.pages.size) : Abreast E Value.Interchangeable (callFunction library name arguments)
      (callFunction library name arguments') p p' := by
  unfold callFunction
  rw [each.length_eq]
  cases found : library.find? name with
  | none => exact .pure .same twin
  | some function =>
    dsimp only
    split
    · exact .pure .same twin
    · exact abreast_applyFunction each (tolerates name function found) twin loaded

end Calls

/-! ## Expressions -/

/-- Two evaluations from one state end in one state, with related outcomes. -/
structure SameEnd (Φ : α → β → Prop) (m : Evaluating α) (m' : Evaluating β) (p : Progress) : Prop where
  outcomes : Φ (m.run p).1 (m'.run p).1
  state : (m'.run p).2 = (m.run p).2

namespace SameEnd

variable {γ δ : Type} {Φ : α → β → Prop} {Ψ : γ → δ → Prop} {m : Evaluating α} {m' : Evaluating β}

theorem bind {f : α → Evaluating γ} {f' : β → Evaluating δ} (first : SameEnd Φ m m' p)
    (second : ∀ a b, Φ a b → SameEnd Ψ (f a) (f' b) (m.run p).2) : SameEnd Ψ (m >>= f) (m' >>= f') p := by
  obtain ⟨outcomes, state⟩ := second _ _ first.outcomes
  have isRun : (m' >>= f').run p = (f' (m'.run p).1).run (m.run p).2 := by
    rw [← first.state]
    rfl
  exact ⟨isRun ▸ outcomes, isRun ▸ state⟩

theorem after {f : α → Evaluating γ} {f' : α → Evaluating δ}
    (onward : SameEnd Ψ (f (m.run p).1) (f' (m.run p).1) (m.run p).2) : SameEnd Ψ (m >>= f) (m >>= f') p :=
  ⟨onward.outcomes, onward.state⟩

theorem update {f : Progress → α × Progress} {g : α → Evaluating γ} {g' : α → Evaluating δ}
    (onward : SameEnd Ψ (g (f p).1) (g' (f p).1) (f p).2) : SameEnd Ψ (modifyGet f >>= g) (modifyGet f >>= g') p :=
  .after onward

/-- Two evaluations end in one state if both do so together with a third one. -/
theorem of_common {Θ : α → γ → Prop} {Ω : β → γ → Prop} {m'' : Evaluating γ} (first : SameEnd Φ m m' p)
    (second : SameEnd Θ m m'' p) (both : ∀ a b c, Φ a b → Θ a c → Ω b c) : SameEnd Ω m' m'' p :=
  ⟨both _ _ _ first.outcomes second.outcomes, second.state.trans first.state.symm⟩

theorem of_run {q : Progress} (run : m.run p = m.run q) (run' : m'.run p = m'.run q) (same : SameEnd Φ m m' q) :
    SameEnd Φ m m' p :=
  ⟨run ▸ run' ▸ same.outcomes, run ▸ run' ▸ same.state⟩

end SameEnd

/-- The expressions that are related may stand for each other on their own. -/
structure Harmless (base : Expr → Expr → Prop) : Prop where
  targets : SameTargets base
  sameEnd : ∀ (w : Workbook) (read : CellReader) (place : Nat) (p : Progress) (e e' : Expr), w.library = .builtin →
    Steady read → p.Sane → place < p.pages.size → base e e' → SameEnd Value.Interchangeable
      (evaluateExpr w.library (readReference w read place) e)
      (evaluateExpr w.library (readReference w read place) e') p

/-- What is known when the readers of two workbooks go abreast and expressions are exchanged in the second one. -/
structure Exchanging (E base : Expr → Expr → Prop) (w w' : Workbook) (read read' : CellReader) : Prop where
  harmless : Harmless base
  builtin : w.library = .builtin
  books : w.Rewritten E w'
  targets : SameTargets E
  level : Level E read read'
  steady : Steady read'

section Expressions

variable {w w' : Workbook} {read read' : CellReader} {place : Nat}

mutual

theorem Exchanging.replaced (exchanging : Exchanging E base w w' read read') {e e' : Expr}
    (replaced : e.Replaced base e') : Exchangeable E place
      (evaluateExpr w.library (readReference w read place) e)
      (evaluateExpr w'.library (readReference w' read' place) e') := by
  intro p p' twin loaded
  have same (e : Expr) := abreast_same exchanging.books exchanging.targets exchanging.level twin place e
  cases replaced with
  | same => exact (same e).mono fun u v same => same ▸ .same
  | here isBase =>
    -- Both workbooks evaluate the first expression, and then the second one evaluates the other in its place.
    obtain ⟨outcomes, after, onward⟩ := same e
    have exchanged := exchanging.harmless.sameEnd w' read' place p' e e'
      (exchanging.books.library.trans exchanging.builtin) exchanging.steady twin.right (twin.size ▸ loaded) isBase
    refine ⟨?_, ?_, onward⟩
    · rw [outcomes]
      exact exchanged.outcomes
    · rw [exchanged.state]
      exact after
  | binary operator first second =>
    refine (exchanging.replaced first p p' twin loaded).bind fun l l' q q' left twin onward => ?_
    have loaded := Nat.lt_of_lt_of_le loaded onward.size
    refine (exchanging.replaced second q q' twin loaded).bind fun r r' q q' right twin _ => .pure ?_ twin
    rw [Value.apply_interchangeable operator left right]
    exact .same
  | negate inner =>
    refine (exchanging.replaced inner p p' twin loaded).bind fun u v q q' both twin _ => .pure ?_ twin
    rw [both.negate]
    exact .same
  | call name each =>
    have tolerates : w.library.Tolerates := exchanging.builtin ▸ Library.builtin_tolerates
    have each := exchanging.replacedAll each
    rw [exchanging.books.library] at each
    rw [evaluateExpr, evaluateExpr, exchanging.books.library]
    exact abreast_callFunction each tolerates name twin loaded
termination_by sizeOf e

theorem Exchanging.replacedAll (exchanging : Exchanging E base w w' read read') {es es' : List Expr}
    (replaced : Expr.ReplacedAll base es es') :
    List.Forall₂ (Exchangeable E place) (evaluators w.library (readReference w read place) es)
      (evaluators w'.library (readReference w' read' place) es') := by
  cases replaced with
  | nil => exact .nil
  | cons head tail => exact .cons (exchanging.replaced head) (exchanging.replacedAll tail)
termination_by sizeOf es

end

end Expressions

/-! ## Workbooks -/

theorem Harmless.targets_replaced (harmless : Harmless base) : SameTargets (Expr.Replaced base) :=
  fun _ _ replaced _ _ inside => replaced.refersTo_iff harmless.targets inside

namespace Workbook

variable {w w' : Workbook}

/-- Harmless replacements in the formulas of a workbook, those of other pages as well, change nothing in its cells
and nothing in formulas that stand in no cell, and the same is known of all pages in the end. -/
theorem evaluateWith_of_harmless (harmless : Harmless base) (builtin : w.library = .builtin)
    (books : w.Rewritten (Expr.Replaced base) w') :
    (∀ cache cache', (w'.evaluateWith cache').1 = (w.evaluateWith cache).1 ∧
      (w'.finalState cache').memo = (w.finalState cache).memo ∧
      (w'.finalState cache').calls = (w.finalState cache).calls) ∧
    ∀ formula formula', (Input.formula formula).Rewritten (Expr.Replaced base) (.formula formula') →
      w'.evaluateFormula formula' = w.evaluateFormula formula := by
  have targets := harmless.targets_replaced
  have parallel (depth : Nat) (level : Level (Expr.Replaced base) (readCell w depth) (readCell w' depth)) :
      Parallel (Expr.Replaced base) w w' (readCell w depth) (readCell w' depth) := by
    intro e e' place p p' replaced twin loaded
    have exchanging : Exchanging (Expr.Replaced base) base w w' (readCell w depth) (readCell w' depth) :=
      ⟨harmless, builtin, books, targets, level, steady_readCell w' depth⟩
    exact (exchanging.replaced replaced p p' twin loaded).mono fun u v both => both.finish.symm
  refine ⟨fun cache cache' => ?_, fun formula formula' => evaluateFormula_of_rewritten books targets parallel⟩
  obtain ⟨sameResult, twin⟩ := evaluateWith_of_rewritten books targets parallel cache cache'
  exact ⟨sameResult, twin.memo, twin.calls⟩

end Workbook

/-! ## One formula -/

theorem Sheet.second_inside : 0 < (empty.ensureSize 1 2).rows ∧ 1 < (empty.ensureSize 1 2).columns := by decide

/-- The sheet with the formula of an expression in its first cell and a number in the second one. -/
def Sheet.holding (e : Expr) : Sheet :=
  ((Sheet.empty.ensureSize 1 2).insert ⟨0, 1⟩ "2" second_inside (by decide)).insert .first e.formula
    (by decide) (by simp [Expr.formula])

theorem Sheet.holding_input (e : Expr) (a : Address) : (holding e).input a =
    if a = .first then .formula e.formula
    else ((Sheet.empty.ensureSize 1 2).insert ⟨0, 1⟩ "2" second_inside (by decide)).input a := by
  rw [holding, input_insert, Input.ofText_of_isFormulaText (by simp [isFormulaText, Expr.formula])]

/-- The workbook of such a sheet, without other pages. -/
def Workbook.holding (e : Expr) : Workbook := { sheet := .holding e, pageId := "main" }

theorem Workbook.rewritten_holding {e e' : Expr} (printable : e.Printable) (printable' : e'.Printable)
    (room : e.nesting ≤ maxNesting) (room' : e'.nesting ≤ maxNesting) (related : E e e') :
    (holding e).Rewritten E (holding e') where
  sheet := {
    rows := rfl
    columns := rfl
    inputs := fun a => by
      rw [holding, holding, Sheet.holding_input, Sheet.holding_input]
      split
      · exact .formula (Expr.ofFormula_of_room printable room) (Expr.ofFormula_of_room printable' room') related
      · exact .same }
  pageId := rfl
  resolver _ := .missing
  library := rfl
  options := rfl

end PageCalc

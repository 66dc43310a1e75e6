import PageCalc.Proofs.Evaluation.FormulaSheets
import PageCalc.Proofs.Evaluation.OtherMonads
import PageCalc.Proofs.Formula.Spelling
import PageCalc.Proofs.Value.Finite

/-!
# Every number is finite

An evaluation may be watched: every value of an expression and of a call for a cell is seen, the values that
every operator is applied to, and what is known after every call. The evaluation itself stays as it is. No
number that is seen is infinite, so the comparison of two numbers always has an outcome of its own, and what a
cell shows is never the word for a number that is not finite.
-/

namespace PageCalc

open Collection

variable {α β : Type}

/-! ## Watched evaluations -/

/-- What is seen in an evaluation. -/
inductive Sighting where
  /-- The value of an expression. -/
  | expression (value : Value)
  /-- An operator is applied to two values. -/
  | operation (operator : Operator) (left right : Value)
  /-- The value of a call for a cell, and the state that it ends in. -/
  | call (value : Value) (after : Progress)

/-- An evaluation with all that is seen in it, the last sighting first. -/
abbrev Watching := StateT (List Sighting) Evaluating

def see (sighting : Sighting) : Watching PUnit := modifyThe (List Sighting) (sighting :: ·)

def seeExpression (evaluation : Watching Value) : Watching Value := do
  let value ← evaluation
  see (.expression value)
  return value

def seeCall (reading : Watching Value) : Watching Value := do
  let value ← reading
  see (.call value (← getThe Progress))
  return value

mutual

/-- The value of an expression whose references are read by `read`, watched. -/
def watchExpr (library : Library) (read : Reference → Watching Value) : Expr → Watching Value
  | .number x => seeExpression (return .number x)
  | .text s => seeExpression (return .text s)
  | .boolean b => seeExpression (return .boolean b)
  | .reference r => seeExpression (read r)
  | .binary operator left right => seeExpression do
    let l ← watchExpr library read left
    let r ← watchExpr library read right
    see (.operation operator l r)
    return operator.apply l r
  | .negate operand => seeExpression do return (← watchExpr library read operand).negate
  | .call name arguments => seeExpression (callFunction library name (watchers library read arguments))

def watchers (library : Library) (read : Reference → Watching Value) : List Expr → List (Watching Value)
  | [] => []
  | e :: es => watchExpr library read e :: watchers library read es

end

/-- Evaluates the formula of a cell; the cells that it reads are read by `read`. -/
def watchFormulaCell (w : Workbook) (read : CellKey → Watching Value) (key : CellKey) (source : String) :
    Watching Value := do
  modifyThe Progress (·.enter key)
  let outcome ← modifyGetThe Progress fun p =>
    let (outcome, cache) := p.cache.parse source
    (outcome, { p with cache })
  let value ← match outcome with
    | .ok e => Value.finish <$> watchExpr w.library (readReference w read key.page) e
    | .error fault => pure (.error fault.toCellError)
  modifyGetThe Progress fun p => p.leave key value

/-- Evaluates the formula of a cell unless its value is known. -/
def watchFinish (w : Workbook) (read : CellKey → Watching Value) (key : CellKey) (source : String) :
    Watching Value := do
  match (← getThe Progress).memo[key]? with
  | some value => return value
  | none => watchFormulaCell w read key source

/-- Evaluates the pending cells that a formula needs, and then the formula. -/
def watchSettle (w : Workbook) (read : CellKey → Watching Value) (key : CellKey) (source : String) :
    Watching Value := do
  for a in (← getThe Progress).pendingPrecedents key do
    match (← getThe Progress).input ⟨key.page, a⟩ with
    | .formula other => discard <| seeCall (watchFinish w read ⟨key.page, a⟩ other)
    | _ => pure ()
  watchFinish w read key source

/-- Reads a cell when `depth` more formulas may be entered. -/
def watchCell (w : Workbook) : (depth : Nat) → CellKey → Watching Value
  | 0 => fun key => seeCall (lookUp (fun _ _ => return .error .tooDeep) key)
  | depth + 1 => fun key => seeCall (lookUp (watchSettle w (watchCell w depth)) key)

namespace Workbook

def watchCells (w : Workbook) : Watching (List (Address × CellValue)) :=
  w.sheet.inputs.keys.mapM fun a => do
    let value ← watchCell w w.options.maxDepth ⟨Progress.root, a⟩
    return (a, value.toCellValue)

/-- Evaluates the sheet, with all that is seen. -/
def evaluateWatched (w : Workbook) (cache : ParseCache) : (Result × Progress) × List Sighting :=
  let ((cells, sightings), p) := (w.watchCells.run []).run (w.begin cache)
  ((Std.ExtTreeMap.ofList cells, p), sightings)

/-- The evaluation of an expression on the root page, with all that is seen. -/
def evaluationWatched (w : Workbook) (e : Expr) : Watching Value :=
  watchExpr w.library (readReference w (watchCell w w.options.maxDepth) Progress.root) e

end Workbook

/-! ## Finite sightings -/

/-- The values of finished formulas are finite. -/
def Progress.IsFinite (p : Progress) : Prop := ∀ (key : CellKey) (v : Value), p.memo[key]? = some v → v.IsFinite

namespace Progress.IsFinite

variable {p : Progress}

theorem resolve (known : p.IsFinite) (w : Workbook) (page : PageRef) : (p.resolve w page).2.IsFinite := by
  intro key v isKnown
  rcases Progress.memo_of_resolve isKnown with before | ⟨rfl, -⟩
  · exact known key v before
  · exact .error

end Progress.IsFinite

theorem Progress.isFinite_leave {p : Progress} {key : CellKey} {v : Value} (finite : v.IsFinite) :
    (p.leave key v).1.IsFinite := by
  rcases Pass.leave_value p key v with same | same <;> rw [same]
  · exact .error
  · exact finite

theorem Progress.IsFinite.leave {p : Progress} {key : CellKey} {v : Value} (known : p.IsFinite)
    (finite : v.IsFinite) : (p.leave key v).2.IsFinite := by
  intro other u isKnown
  rcases Pass.memo_of_leave isKnown with before | ⟨rfl, ⟨-, rfl⟩ | ⟨-, rfl⟩⟩
  · exact known other u before
  · exact .error
  · exact finite

theorem Input.isFinite_of_literal {raw : String} {v : Value} (literal : (Input.ofText raw).literal? = some v) :
    v.IsFinite := by
  cases typed : Input.ofText raw with
  | blank => rw [typed] at literal; cases literal; exact .blank
  | number x => rw [typed] at literal; cases literal; exact .number (isFinite_of_ofText typed)
  | text s => rw [typed] at literal; cases literal; exact .text
  | formula source => rw [typed] at literal; cases literal

/-- The numbers that are seen are finite, and those that are compared have an order. -/
inductive Sighting.IsFinite : Sighting → Prop where
  | expression {v : Value} (finite : v.IsFinite) : IsFinite (.expression v)
  | operation {operator : Operator} {l r : Value} (left : l.IsFinite) (right : r.IsFinite)
      (compares : ∀ x y, Value.compared? l.scalar r.scalar = some (x, y) → x.isFinite ∧ y.isFinite ∧
        ∃ i j, Number.rank? x = some i ∧ Number.rank? y = some j ∧ l.scalar.order r.scalar = compare i j) :
      IsFinite (.operation operator l r)
  | call {v : Value} {p : Progress} (finite : v.IsFinite) (known : p.IsFinite) : IsFinite (.call v p)

theorem Sighting.isFinite_operation {operator : Operator} {l r : Value} (left : l.IsFinite) (right : r.IsFinite) :
    (Sighting.operation operator l r).IsFinite := by
  refine .operation left right fun x y compares => ?_
  obtain ⟨finite, finite'⟩ := left.scalar.compared right.scalar compares
  obtain ⟨i, isPlace⟩ := Number.exists_rank_of_isFinite finite
  obtain ⟨j, isPlace'⟩ := Number.exists_rank_of_isFinite finite'
  refine ⟨finite, finite', i, j, isPlace, isPlace', ?_⟩
  rw [Value.order_of_compared compares, Number.order, isPlace, isPlace']

/-! ## Watching changes nothing -/

/-- A watched evaluation has come to the same as the other one, and all is finite that was seen. -/
structure Watched (Φ : α → Prop) (outcome : (α × List Sighting) × Progress) (plain : α × Progress) : Prop where
  same : outcome.1.1 = plain.1
  state : outcome.2 = plain.2
  finite : ∀ sighting ∈ outcome.1.2, sighting.IsFinite
  known : plain.2.IsFinite
  holds : Φ plain.1

/-- Where the values of finished formulas are finite, the watched evaluation comes to the same as the other
one, and nothing is seen that is not finite. -/
def Watches (Φ : α → Prop) (x : Watching α) (m : Evaluating α) (p : Progress) : Prop :=
  p.IsFinite → ∀ log : List Sighting, (∀ sighting ∈ log, sighting.IsFinite) →
    Watched Φ ((x.run log).run p) (m.run p)

namespace Watches

variable {Φ : α → Prop} {Ψ : β → Prop} {x : Watching α} {m : Evaluating α} {p : Progress}

theorem pure {a : α} (holds : Φ a) : Watches Φ (Pure.pure a) (Pure.pure a) p :=
  fun known _ finite => ⟨rfl, rfl, finite, known, holds⟩

theorem bind {f : α → Watching β} {g : α → Evaluating β} (first : Watches Φ x m p)
    (second : ∀ a q, Φ a → Watches Ψ (f a) (g a) q) : Watches Ψ (x >>= f) (m >>= g) p := by
  intro known log finite
  obtain ⟨same, state, finite, known, holds⟩ := first known log finite
  have onward := second _ _ holds known _ finite
  rw [← same, ← state] at onward
  show Watched Ψ _ (((g (m.run p).1)).run (m.run p).2)
  rw [← same, ← state]
  exact onward

theorem mono {Φ' : α → Prop} (watches : Watches Φ x m p) (weaker : ∀ a, Φ a → Φ' a) : Watches Φ' x m p := by
  intro known log finite
  obtain ⟨same, state, finite, known, holds⟩ := watches known log finite
  exact ⟨same, state, finite, known, weaker _ holds⟩

theorem map {f : α → β} (watches : Watches Φ x m p) (holds : ∀ a, Φ a → Ψ (f a)) :
    Watches Ψ (f <$> x) (f <$> m) p := by
  rw [← bind_pure_comp, ← bind_pure_comp]
  exact watches.bind fun a _ isSo => .pure (holds a isSo)

theorem get {f : Progress → Watching β} {g : Progress → Evaluating β} (onward : Watches Ψ (f p) (g p) p) :
    Watches Ψ (MonadStateOf.get >>= f) (MonadState.get >>= g) p := onward

theorem update {f : Progress → α × Progress} (holds : p.IsFinite → Φ (f p).1)
    (known : p.IsFinite → (f p).2.IsFinite) :
    Watches Φ (MonadStateOf.modifyGet f) (MonadStateOf.modifyGet f) p :=
  fun isFinite _ finite => ⟨rfl, rfl, finite, known isFinite, holds isFinite⟩

theorem mapM {f : α → Watching β} {g : α → Evaluating β} (as : List α)
    (each : ∀ a ∈ as, ∀ q, Watches Ψ (f a) (g a) q) :
    Watches (fun bs => ∀ b ∈ bs, Ψ b) (as.mapM f) (as.mapM g) p := by
  induction as generalizing p with
  | nil => exact .pure fun b member => absurd member List.not_mem_nil
  | cons a as ih =>
    obtain ⟨first, rest⟩ := List.forall_mem_cons.1 each
    rw [List.mapM_cons, List.mapM_cons]
    exact (first p).bind fun b q holds => (ih rest).bind fun bs q others =>
      .pure (List.forall_mem_cons.2 ⟨holds, others⟩)

theorem forIn {step : α → PUnit → Watching (ForInStep PUnit)} {step' : α → PUnit → Evaluating (ForInStep PUnit)}
    (each : ∀ a u q, Watches (fun _ => True) (step a u) (step' a u) q) (as : List α) (u : PUnit) :
    Watches (fun _ => True) (ForIn.forIn as u step) (ForIn.forIn as u step') p := by
  induction as generalizing p u with
  | nil => exact .pure trivial
  | cons a as ih =>
    rw [List.forIn_cons, List.forIn_cons]
    refine (each a u p).bind fun next q _ => ?_
    cases next with
    | done u => exact .pure trivial
    | yield u => exact ih u

end Watches

section Sightings

variable {Φ : α → Prop} {x : Watching α} {m : Evaluating α} {p : Progress}

theorem watches_see {sighting : Sighting} (finite : sighting.IsFinite) (watches : Watches Φ x m p) :
    Watches Φ (see sighting >>= fun _ => x) m p :=
  fun known log others => watches known (sighting :: log) (List.forall_mem_cons.2 ⟨finite, others⟩)

theorem watches_seeExpression {x : Watching Value} {m : Evaluating Value}
    (watches : Watches Value.IsFinite x m p) : Watches Value.IsFinite (seeExpression x) m p := by
  intro known log finite
  obtain ⟨same, state, finite, known, holds⟩ := watches known log finite
  refine ⟨same, state, List.forall_mem_cons.2 ⟨.expression ?_, finite⟩, known, holds⟩
  exact same ▸ holds

theorem watches_seeCall {x : Watching Value} {m : Evaluating Value}
    (watches : Watches Value.IsFinite x m p) : Watches Value.IsFinite (seeCall x) m p := by
  intro known log finite
  obtain ⟨same, state, finite, known, holds⟩ := watches known log finite
  refine ⟨same, state, List.forall_mem_cons.2 ⟨.call ?_ ?_, finite⟩, known, holds⟩
  · exact same ▸ holds
  · exact state ▸ known

end Sightings

/-! ## Expressions -/

section Expressions

variable {library : Library} {p : Progress} {arguments : List (Watching Value)}
variable {arguments' : List (Evaluating Value)}

theorem watches_demand {demand : Demand} (keeps : demand.Keeps Value.IsFinite)
    (each : List.Forall₂ (fun x m => ∀ q, Watches Value.IsFinite x m q) arguments arguments') :
    Watches (fun outcome => ∀ v, outcome = .ok v → v.IsFinite) (demand.run arguments) (demand.run arguments') p := by
  induction keeps generalizing p with
  | answer holds => exact .pure holds
  | @ask place next _ ih =>
    have asked : Watches Value.IsFinite ((arguments[place]?).getD (pure .blank))
        ((arguments'[place]?).getD (pure .blank)) p := by
      by_cases given : place < arguments.length
      · have given' : place < arguments'.length := each.length_eq ▸ given
        rw [List.getElem?_eq_getElem given, List.getElem?_eq_getElem given']
        exact each.get given given' p
      · have missing' : arguments'.length ≤ place := each.length_eq ▸ Nat.not_lt.1 given
        rw [List.getElem?_eq_none (Nat.not_lt.1 given), List.getElem?_eq_none missing']
        exact .pure .blank
    exact asked.bind fun v q finite => ih v finite

theorem watches_mapM_id
    (each : List.Forall₂ (fun x m => ∀ q, Watches Value.IsFinite x m q) arguments arguments') :
    Watches (fun _ => True) (arguments.mapM id) (arguments'.mapM id) p := by
  induction each generalizing p with
  | nil => exact .pure trivial
  | cons first _ ih =>
    rw [List.mapM_cons, List.mapM_cons]
    exact (first p).bind fun v q _ => ih.bind fun vs q _ => .pure trivial

theorem isFinite_of_isFlat {outcome : Outcome} (flat : ∀ v, outcome = .ok v → v.IsFlat) :
    (match outcome with
      | .ok v => v.checkFinite
      | .error fault => .error fault.toCellError).IsFinite := by
  cases outcome with
  | ok v => exact (flat v rfl).isFinite_checkFinite
  | error fault => exact .error

theorem watches_applyFunction {function : Function} (bounded : function.implementation.Bounded)
    (each : List.Forall₂ (fun x m => ∀ q, Watches Value.IsFinite x m q) arguments arguments') :
    Watches Value.IsFinite (applyFunction function arguments) (applyFunction function arguments') p := by
  unfold applyFunction
  cases implementation : function.implementation with
  | lazy demand =>
    rw [implementation] at bounded
    rw [each.length_eq]
    refine (watches_demand (bounded _) each).bind fun outcome q holds => ?_
    cases outcome with
    | ok v =>
      have unchanged : v.checkFinite = v := (holds v rfl).checkFinite_eq
      exact .pure (show v.checkFinite.IsFinite from unchanged.symm ▸ holds v rfl)
    | error fault => exact .pure .error
  | eager apply =>
    rw [implementation] at bounded
    refine (watches_mapM_id each).bind fun values q _ => ?_
    rw [pure_bind, pure_bind]
    refine .pure (isFinite_of_isFlat fun v outcome => ?_)
    split at outcome
    · exact Function.isFlat_of_ok Value.isFlat_error outcome
    · exact bounded values v outcome

theorem watches_callFunction {name : String} (bounded : library.Bounded)
    (each : List.Forall₂ (fun x m => ∀ q, Watches Value.IsFinite x m q) arguments arguments') :
    Watches Value.IsFinite (callFunction library name arguments) (callFunction library name arguments') p := by
  unfold callFunction
  cases found : library.find? name with
  | none => exact .pure .error
  | some function =>
    dsimp only
    rw [each.length_eq]
    split
    · exact .pure .error
    · exact watches_applyFunction (bounded name function found) each

variable {watched : Reference → Watching Value} {read : Reference → Evaluating Value}

mutual

/-- An expression whose literals are finite is finite if what it reads is. -/
theorem watches_watchExpr (bounded : library.Bounded)
    (reads : ∀ r q, Watches Value.IsFinite (watched r) (read r) q) (e : Expr) (printable : e.Printable)
    (p : Progress) : Watches Value.IsFinite (watchExpr library watched e) (evaluateExpr library read e) p := by
  match e with
  | .number x => exact watches_seeExpression (.pure (.number printable.finite))
  | .text s => exact watches_seeExpression (.pure .text)
  | .boolean b => exact watches_seeExpression (.pure .boolean)
  | .reference r => exact watches_seeExpression (reads r p)
  | .binary operator left right =>
    simp only [watchExpr, evaluateExpr]
    refine watches_seeExpression ((watches_watchExpr bounded reads left printable.1 p).bind fun l q leftFinite => ?_)
    refine (watches_watchExpr bounded reads right printable.2 q).bind fun r q rightFinite => ?_
    exact watches_see (Sighting.isFinite_operation leftFinite rightFinite) (.pure (Value.isFinite_apply ..))
  | .negate operand =>
    simp only [watchExpr, evaluateExpr]
    exact watches_seeExpression ((watches_watchExpr bounded reads operand printable p).bind fun v q finite =>
      .pure finite.negate)
  | .call name arguments =>
    simp only [watchExpr, evaluateExpr]
    exact watches_seeExpression (watches_callFunction bounded
      (watches_watchers bounded reads arguments printable.2))
termination_by sizeOf e

theorem watches_watchers (bounded : library.Bounded)
    (reads : ∀ r q, Watches Value.IsFinite (watched r) (read r) q) (es : List Expr)
    (printable : Expr.AllPrintable es) :
    List.Forall₂ (fun x m => ∀ q, Watches Value.IsFinite x m q) (watchers library watched es)
      (evaluators library read es) := by
  match es with
  | [] => exact .nil
  | e :: es =>
    exact .cons (fun q => watches_watchExpr bounded reads e printable.1 q)
      (watches_watchers bounded reads es printable.2)
termination_by sizeOf es

end

end Expressions

/-! ## References -/

section References

variable {w : Workbook} {watched : CellKey → Watching Value} {read : CellReader} {p : Progress}
variable (reads : ∀ key q, Watches Value.IsFinite (watched key) (read key) q)

include reads

theorem watches_readSeen (key : CellKey) (p : Progress) :
    Watches Value.IsFinite (readSeen watched key) (readSeen read key) p :=
  (reads key p).map fun _ finite => finite.propagated

theorem watches_readRange (place : Nat) (area : Range) :
    Watches Value.IsFinite (readRange watched place area) (readRange read place area) p := by
  refine .get ?_
  refine (Watches.mapM _ fun a _ q => watches_readSeen reads ⟨place, a⟩ q).bind fun items q finite => ?_
  exact .pure (.list finite)

theorem watches_readWholeSheet (place : Nat) :
    Watches Value.IsFinite (readWholeSheet w watched place) (readWholeSheet w read place) p := by
  unfold readWholeSheet
  cases w.options.wholeSheet with
  | grid =>
    refine .get ?_
    cases (p.sheet place).extent? with
    | none => exact .pure (.list fun v member => absurd member List.not_mem_nil)
    | some area => exact watches_readRange reads place area
  | cell a => exact watches_readSeen reads ⟨place, a⟩ p
  | reject => exact .pure .error

theorem watches_readReference (place : Nat) (r : Reference) (p : Progress) :
    Watches Value.IsFinite (readReference w watched place r) (readReference w read place r) p := by
  cases r with
  | cell a => exact watches_readSeen reads ⟨place, a⟩ p
  | range area => exact watches_readRange reads place area
  | external external =>
    have resolves : Watches (fun _ => True) (modifyGetThe Progress fun p => p.resolve w external.page)
        (modifyGet fun p => p.resolve w external.page) p := .update (fun _ => trivial) fun known =>
      known.resolve w external.page
    refine resolves.bind fun outcome q _ => ?_
    cases outcome with
    | error failure => exact .pure .error
    | ok there =>
      cases external.target with
      | cell a => exact watches_readSeen reads ⟨there, a⟩ q
      | range area => exact watches_readRange reads there area
      | wholeSheet => exact watches_readWholeSheet reads there

end References

/-! ## Cells -/

section Cells

variable {w : Workbook} {watched : CellKey → Watching Value} {read : CellReader} {p : Progress}
variable {key : CellKey} {source : String}

theorem watches_lookUp {settle : CellKey → String → Watching Value} {settle' : CellKey → String → Evaluating Value}
    (settles : ∀ source, Watches Value.IsFinite (settle key source) (settle' key source) p) :
    Watches Value.IsFinite (lookUp settle key) (lookUp settle' key) p := by
  refine .get ?_
  cases known : p.memo[key]? with
  | some v => exact fun finite => Watches.pure (finite key v known) finite
  | none =>
    by_cases entered : key ∈ p.stack
    · simp only [entered, if_true]
      refine Watches.bind (Φ := fun _ => True) ?_ fun _ q _ => .pure .error
      exact .update (f := fun p => (PUnit.unit, p.closeCycle key)) (fun _ => trivial) fun known => known
    · simp only [entered, if_false]
      cases typed : p.input key with
      | blank => exact .pure .blank
      | number x => exact .pure (.number (Input.isFinite_of_ofText typed))
      | text s => exact .pure .text
      | formula source => exact settles source

variable (reads : ∀ key q, Watches Value.IsFinite (watched key) (read key) q)
variable (bounded : w.library.Bounded)

include reads bounded

theorem watches_formulaCell : Watches Value.IsFinite (watchFormulaCell w watched key source)
    (evaluateFormulaCell w read key source) p := by
  refine Watches.bind (Φ := fun _ => True) ?entering fun _ q _ => ?_
  case entering => exact .update (f := fun p => (PUnit.unit, p.enter key)) (fun _ => trivial) fun known => known
  refine Watches.bind (Φ := fun outcome => outcome = Expr.ofFormula source) ?parsing fun outcome q isOutcome => ?_
  case parsing =>
    exact .update (f := fun p => ((p.cache.parse source).1, { p with cache := (p.cache.parse source).2 }))
      (fun _ => ParseCache.parse_fst _ source) fun known => known
  have leaving (v : Value) (q : Progress) (finite : v.IsFinite) :
      Watches Value.IsFinite (modifyGetThe Progress fun p => p.leave key v)
        (modifyGet fun p => p.leave key v) q :=
    .update (fun _ => q.isFinite_leave finite) fun known => known.leave finite
  cases outcome with
  | error fault => exact Watches.bind (.pure .error) leaving
  | ok e =>
    have printable := Expr.printable_of_ofFormula isOutcome.symm
    refine Watches.bind (Φ := Value.IsFinite) ?_ leaving
    refine (watches_watchExpr bounded (watches_readReference reads key.page) e printable q).map ?_
    exact fun v _ => (Value.finish_finished v).isFinite

theorem watches_finish : Watches Value.IsFinite (watchFinish w watched key source)
    (finishCell w read key source) p := by
  refine .get ?_
  cases known : p.memo[key]? with
  | some v => exact fun finite => Watches.pure (finite key v known) finite
  | none => exact watches_formulaCell reads bounded

theorem watches_settle : Watches Value.IsFinite (watchSettle w watched key source)
    (settleCell w read key source) p := by
  refine .get ((Watches.forIn (fun a u q => ?_) _ _).bind fun _ q _ => watches_finish reads bounded)
  refine .get ?_
  cases q.input ⟨key.page, a⟩ with
  | blank | number _ | text _ => exact .pure trivial
  | formula other =>
    refine Watches.bind (Φ := fun _ => True) ?_ fun _ q _ => .pure trivial
    exact (watches_seeCall (watches_finish reads bounded)).map fun _ _ => trivial

end Cells

theorem watches_watchCell {w : Workbook} (bounded : w.library.Bounded) (depth : Nat) (key : CellKey) (p : Progress) :
    Watches Value.IsFinite (watchCell w depth key) (readCell w depth key) p := by
  induction depth generalizing key p with
  | zero => exact watches_seeCall (watches_lookUp fun _ => .pure .error)
  | succ depth ih => exact watches_seeCall (watches_lookUp fun _ => watches_settle ih bounded)

/-! ## Whole evaluations -/

/-- A number that is shown is finite and written without letters. -/
def CellValue.IsPlain (v : CellValue) : Prop :=
  ∀ x, v = .number x → x.isFinite ∧ ∀ c ∈ v.display.toList, c.isAlpha = false

theorem Value.IsFinite.isPlain {v : Value} (finite : v.IsFinite) : v.toCellValue.IsPlain := by
  intro x shown
  have finite := finite.of_toCellValue shown
  rw [shown]
  exact ⟨finite, fun c => Number.not_isAlpha_of_mem_text finite⟩

namespace Workbook

variable {w : Workbook} {cache : ParseCache}

theorem isFinite_begin (w : Workbook) (cache : ParseCache) : (w.begin cache).IsFinite := by
  intro key v known
  obtain ⟨rfl, -⟩ := Progress.memo_of_begin known
  exact .error

theorem watched_evaluate (bounded : w.library.Bounded) (cache : ParseCache) : Watched (fun _ => True)
    ((w.watchCells.run []).run (w.begin cache)) ((w.evaluateCells w.sheet.inputs.keys).run (w.begin cache)) := by
  have watches : Watches _ w.watchCells (w.evaluateCells w.sheet.inputs.keys) (w.begin cache) :=
    .mapM (Ψ := fun _ => True) _ fun a _ q =>
      (watches_watchCell bounded _ _ q).bind fun v q finite => .pure trivial
  exact (watches.mono fun _ _ => trivial) (w.isFinite_begin cache) [] fun _ member =>
    absurd member List.not_mem_nil

/-- What a cell shows is plain if all that is known in the end is finite. -/
theorem isPlain_of_shown (known : (w.finalState cache).IsFinite) {a : Address} {v : CellValue}
    (shown : (w.evaluateWith cache).1[a]? = some v) : v.IsPlain := by
  have runs := w.runs_evaluate w.options.maxDepth cache
  rcases w.getElem?_evaluateWith w.options.maxDepth cache a with ⟨-, absent⟩ | ⟨-, u, answers, shown'⟩
  · cases shown.symm.trans absent
  · cases shown.symm.trans shown'
    rcases answers.of_idle runs.stack with isKnown | literal | ⟨rfl, -⟩
    · exact (known _ u isKnown).isPlain
    · exact (Input.isFinite_of_literal literal).isPlain
    · exact Value.IsFinite.error.isPlain

theorem watched_evaluation (bounded : w.library.Bounded) (cache : ParseCache) {e : Expr} (printable : e.Printable) :
    Watched Value.IsFinite (((w.evaluationWatched e).run []).run (w.begin cache))
      ((w.evaluation e).run (w.begin cache)) :=
  watches_watchExpr bounded (watches_readReference (watches_watchCell bounded _) _) e printable _
    (w.isFinite_begin cache) [] fun _ member => absurd member List.not_mem_nil

/-- All numbers that occur in the evaluation of a sheet or of a formula on it are finite: in the values of
expressions and of calls for cells, also inside lists, in what is known, in what operators are applied to and
in the results. Numbers that are compared have an order, and numbers that are shown have digits. -/
theorem evaluate_finite (w : Workbook) (cache : ParseCache) (builtin : w.library = .builtin) :
    ((w.evaluateWatched cache).1 = w.evaluateWith cache ∧
      (∀ sighting ∈ (w.evaluateWatched cache).2, sighting.IsFinite) ∧
      (w.finalState cache).IsFinite ∧
      ∀ (a : Address) (v : CellValue), (w.evaluateWith cache).1[a]? = some v → v.IsPlain) ∧
    (∀ formula e, Expr.ofFormula formula = .ok e →
      Watched Value.IsFinite (((w.evaluationWatched e).run []).run (w.begin .empty))
        ((w.evaluation e).run (w.begin .empty))) ∧
    ∀ formula, (w.evaluateFormula formula).1.IsPlain := by
  have bounded : w.library.Bounded := builtin ▸ Library.builtin_bounded
  refine ⟨?sheet, fun formula e parsed => ?expression, fun formula => ?formula⟩
  case sheet =>
    obtain ⟨same, state, finite, known, -⟩ := w.watched_evaluate bounded cache
    refine ⟨?_, finite, known, fun a v => isPlain_of_shown known⟩
    exact congrArg₂ (fun cells p => ((Std.ExtTreeMap.ofList cells : Result), p)) same state
  case expression => exact w.watched_evaluation bounded .empty (Expr.printable_of_ofFormula parsed)
  case formula =>
    cases parsed : Expr.ofFormula formula with
    | error fault =>
      simp only [evaluateFormula, parsed]
      exact Value.IsFinite.error.isPlain
    | ok e =>
      rw [evaluateFormula_of_parsed parsed]
      exact (Value.finish_finished _).isFinite.isPlain

theorem evaluate_finite_mirror :
    (mirror ⟨0, 1⟩).library = .builtin ∧
      ((mirror ⟨0, 1⟩).evaluateWatched .empty).1 = (mirror ⟨0, 1⟩).evaluateWith .empty ∧
      ∀ v : CellValue, ((mirror ⟨0, 1⟩).evaluateWith .empty).1[Address.first]? = some v → v.IsPlain :=
  have finite := (evaluate_finite (mirror ⟨0, 1⟩) .empty rfl).1
  ⟨rfl, finite.1, finite.2.2.2 .first⟩

end Workbook
end PageCalc

import PageCalc.Proofs.Evaluation.Termination

/-!
# The stack and its index

An evaluation by plain recursion may keep an index of its stack, which tells at which position a formula
under evaluation stands, and look for such formulas only there. The index and the stack agree in all
states of such an evaluation, every call leaves both as it found them, and what is found is what the
evaluation gives.
-/

namespace PageCalc

open Collection

variable {α β : Type}

/-! ## States with an index -/

/-- The state of an evaluation that indexes its stack. -/
structure Visit where
  progress : Progress
  /-- The positions of the formulas under evaluation, counted from the outermost one. -/
  places : Std.ExtTreeMap CellKey Nat

namespace Visit

/-- The formulas under evaluation, the outermost one first. -/
def path (s : Visit) : List CellKey := s.progress.stack.reverse

def enter (s : Visit) (key : CellKey) : Visit :=
  ⟨s.progress.enter key, s.places.insert key s.progress.stack.length⟩

def leave (s : Visit) (key : CellKey) (value : Value) : Value × Visit :=
  ((s.progress.leave key value).1, ⟨(s.progress.leave key value).2, s.places.erase key⟩)

/-- Notes that the formulas from a position on lie on a cycle. -/
def closeCycle (s : Visit) (position : Nat) : Visit :=
  { s with progress.circular := s.progress.circular.insertMany (s.path.drop position) }

def isPending (s : Visit) (key : CellKey) : Bool :=
  (s.progress.sheet key.page).isFormula key.address && !s.progress.memo.contains key &&
    !s.places.contains key

def pendingReads (s : Visit) (page : Nat) (a : Address) : List Address :=
  (((s.progress.dependencies page).precedentsOf a).filter fun b => s.isPending ⟨page, b⟩).reverse

def pendingPrecedents (s : Visit) (key : CellKey) : List Address :=
  let others := (s.progress.dependencies key.page).formulas.erase key.address
  (Graph.finishOrder (s.pendingReads key.page) others
    (s.pendingReads key.page key.address)).reverse

/-- The state of a visit fits together, where at most `limit` formulas may be under evaluation. -/
structure Coherent (limit : Nat) (s : Visit) : Prop extends s.progress.Kept where
  indexed : ∀ (key : CellKey) (i : Nat), s.places[key]? = some i ↔ s.path[i]? = some key
  distinct : s.path.Nodup
  shallow : s.path.length ≤ limit
  marked : ∀ key ∈ s.progress.circular, key ∈ s.path
  unfinished : ∀ key ∈ s.path, key ∉ s.progress.memo
  entered : ∀ key ∈ s.path, s.progress.IsFormula key
  loaded : ∀ key ∈ s.progress.memo, key.page < s.progress.pages.size

end Visit

/-! ## Evaluating with an index -/

/-- An evaluation that indexes its stack and writes down the states that it goes on to. It may give up. -/
abbrev Visiting := StateT Visit (StateT (List Visit) Option)

namespace Visiting

/-- Goes on to another state. -/
def goOn (f : Visit → α × Visit) : Visiting α :=
  fun s states => some (f s, states ++ [(f s).2])

instance : MonadStateOf Progress Visiting where
  get := fun s states => some ((s.progress, s), states)
  set p := goOn fun s => (⟨⟩, { s with progress := p })
  modifyGet f := goOn fun s => ((f s.progress).1, { s with progress := (f s.progress).2 })

end Visiting

open Visiting

/-- Evaluates the formula of a cell, which is under evaluation in the meantime. -/
def evaluateFormulaVisiting (w : Workbook) (read : CellKey → Visiting Value) (key : CellKey)
    (source : String) : Visiting Value := do
  goOn fun s => (PUnit.unit, s.enter key)
  let value ← Pass.computation w read key source
  goOn fun s => s.leave key value

/-- Reads a cell as `lookUp` does, except that only the index tells which formulas are under evaluation. -/
def lookUpVisiting (settle : CellKey → String → Visiting Value) : CellKey → Visiting Value := fun key => do
  let s ← getThe Visit
  match s.progress.memo[key]? with
  | some value => return value
  | none =>
    match s.places[key]? with
    | some position =>
      goOn fun s => (PUnit.unit, s.closeCycle position)
      return .error .circular
    | none =>
      match s.progress.input key with
      | .blank => return .blank
      | .number x => return .number x
      | .text s => return .text s
      | .formula source => settle key source

/-- Evaluates the formula of a cell unless its value is known or there is no room for it. -/
def finishVisiting (w : Workbook) (read : CellKey → Visiting Value) (key : CellKey)
    (source : String) : Visiting Value := do
  match (← getThe Visit).progress.memo[key]? with
  | some value => return value
  | none =>
    if w.options.maxDepth ≤ (← getThe Visit).progress.stack.length then return .error .tooDeep
    else evaluateFormulaVisiting w read key source

/-- Reads the pending precedents of a formula, and then evaluates it. -/
def settleVisiting (w : Workbook) (read : CellKey → Visiting Value) (key : CellKey)
    (source : String) : Visiting Value := do
  for a in (← getThe Visit).pendingPrecedents key do
    discard <| read ⟨key.page, a⟩
  finishVisiting w read key source

/-- Reads a cell by plain recursion. It gives up where more than `calls` calls would be nested. -/
def readVisiting (w : Workbook) : (calls : Nat) → CellKey → Visiting Value
  | 0 => fun _ => failure
  | calls + 1 => lookUpVisiting (settleVisiting w (readVisiting w calls))

namespace Workbook

/-- Evaluates cells of the sheet. -/
def evaluateCellsVisiting (w : Workbook) (calls : Nat) (addresses : List Address) :
    Visiting (List (Address × CellValue)) :=
  addresses.mapM fun a => do
    let value ← readVisiting w calls ⟨Progress.root, a⟩
    return (a, value.toCellValue)

/-- The evaluation of an expression on the root page. -/
def evaluationVisiting (w : Workbook) (calls : Nat) (e : Expr) : Visiting Value :=
  evaluateExpr w.library (readReference w (readVisiting w calls) Progress.root) e

/-- The state in which only the root page is loaded. -/
def beginVisit (w : Workbook) (cache : ParseCache) : Visit := ⟨w.begin cache, ∅⟩

end Workbook

/-! ## What the steps keep -/

namespace Visit

variable {limit : Nat} {s : Visit} {q : Progress} {key : CellKey} {position : Nat} {v : Value}

theorem mem_path_iff : key ∈ s.path ↔ key ∈ s.progress.stack := List.mem_reverse

theorem length_path : s.path.length = s.progress.stack.length := List.length_reverse

theorem path_enter : (s.enter key).path = s.path ++ [key] := List.reverse_cons

theorem Coherent.mem_places_iff (coherent : s.Coherent limit) : key ∈ s.places ↔ key ∈ s.path := by
  rw [mem_iff_exists, List.mem_iff_getElem?]
  exact exists_congr (coherent.indexed key)

theorem getElem?_concat_iff {l : List α} {a b : α} {i : Nat} :
    (l ++ [a])[i]? = some b ↔ l[i]? = some b ∨ i = l.length ∧ b = a := by
  rcases Nat.lt_trichotomy i l.length with before | rfl | behind
  · simp [List.getElem?_append_left before, Nat.ne_of_lt before]
  · simp [eq_comm]
  · rw [List.getElem?_eq_none (by simp; omega), List.getElem?_eq_none (by omega)]
    simp [Nat.ne_of_gt behind]

/-- A formula that was not under evaluation is put on top of the stack if there is room for it. -/
theorem Coherent.enter (coherent : s.Coherent limit) (formula : s.progress.IsFormula key)
    (unknown : key ∉ s.progress.memo) (outside : key ∉ s.path) (room : s.path.length < limit) :
    (s.enter key).Coherent limit where
  toKept := coherent.toKept.of_same rfl rfl
  indexed other i := by
    rw [path_enter, getElem?_concat_iff, Visit.enter, Std.ExtTreeMap.getElem?_insert, length_path]
    by_cases same : key = other
    · subst same
      have nowhere : s.path[i]? ≠ some key := fun found => outside (List.mem_of_getElem? found)
      simp [nowhere, eq_comm]
    · simp [Std.LawfulEqCmp.compare_eq_iff_eq, same, coherent.indexed, Ne.symm same]
  distinct := by
    rw [path_enter, List.nodup_append_comm, List.singleton_append]
    exact coherent.distinct.cons outside
  shallow := by
    rw [path_enter, List.length_append, List.length_singleton]
    exact room
  marked other member := by
    rw [path_enter]
    exact List.mem_append_left _ (coherent.marked other member)
  unfinished := by
    rw [path_enter, List.forall_mem_append]
    exact ⟨coherent.unfinished, List.forall_mem_singleton.2 unknown⟩
  entered := by
    rw [path_enter, List.forall_mem_append]
    exact ⟨coherent.entered, List.forall_mem_singleton.2 formula⟩
  loaded := coherent.loaded

/-- The innermost formula is taken off the stack, and its value is kept. -/
theorem Coherent.leave {rest : List CellKey} (coherent : s.Coherent limit)
    (innermost : s.progress.stack = key :: rest) : (s.leave key v).2.Coherent limit := by
  have isPath : s.path = (s.leave key v).2.path ++ [key] := by
    show s.progress.stack.reverse = s.progress.stack.tail.reverse ++ [key]
    rw [innermost, List.reverse_cons, List.tail_cons]
  -- The formula is the last on the path, and stands nowhere before.
  have distinct := coherent.distinct
  rw [isPath, List.nodup_append_comm, List.singleton_append, List.nodup_cons] at distinct
  obtain ⟨gone, distinct⟩ := distinct
  have inPath {other : CellKey} (member : other ∈ (s.leave key v).2.path) : other ∈ s.path := by
    rw [isPath]
    exact List.mem_append_left _ member
  have onPath : key ∈ s.path := by
    rw [isPath]
    exact List.mem_append_right _ (List.mem_singleton_self key)
  have kept : (s.progress.leave key v).2.Kept :=
    Pass.kept_leave coherent.toKept (coherent.entered key onPath) (coherent.unfinished key onPath)
  refine ⟨kept, fun other i => ?indexed, distinct, ?shallow, fun other member => ?marked,
    fun other member => ?unfinished, fun other member => coherent.entered other (inPath member),
    fun other member => (kept.finished other member).loaded⟩
  case indexed =>
    have before := coherent.indexed other i
    rw [isPath, getElem?_concat_iff] at before
    have isPlaces : (s.leave key v).2.places = s.places.erase key := rfl
    rw [isPlaces, Std.ExtTreeMap.getElem?_erase]
    by_cases same : key = other
    · subst same
      have nowhere : (s.leave key v).2.path[i]? ≠ some key := fun found => gone (List.mem_of_getElem? found)
      simp [nowhere]
    · simp [Std.LawfulEqCmp.compare_eq_iff_eq, same, before, Ne.symm same]
  case shallow =>
    have shallow := coherent.shallow
    rw [isPath, List.length_append] at shallow
    omega
  case marked =>
    obtain ⟨different, marked⟩ := Pass.mem_leave_circular.1 member
    have onPath := coherent.marked other marked
    rw [isPath, List.mem_append, List.mem_singleton] at onPath
    exact onPath.resolve_right different
  case unfinished =>
    intro known
    rcases Pass.mem_leave_memo.1 known with rfl | before
    · exact gone member
    · exact coherent.unfinished other (inPath member) before

/-- A formula that is taken off the stack again leaves the index as it was. -/
theorem Coherent.leave_entered (coherent : s.Coherent limit) (outside : key ∉ s.path) :
    Visit.leave { s.enter key with progress := q } key v =
      ((q.leave key v).1, { s with progress := (q.leave key v).2 }) := by
  have nowhere : s.places[key]? = none :=
    Std.ExtTreeMap.getElem?_eq_none fun member => outside (coherent.mem_places_iff.1 member)
  have samePlaces : (s.places.insert key s.progress.stack.length).erase key = s.places := by
    refine Std.ExtTreeMap.ext_getElem? fun other => ?_
    rw [Std.ExtTreeMap.getElem?_erase, Std.ExtTreeMap.getElem?_insert]
    by_cases same : key = other
    · subst same
      simp [nowhere]
    · simp [Std.LawfulEqCmp.compare_eq_iff_eq, same]
  rw [Visit.leave, Visit.enter, samePlaces]

/-- The formulas from the position of a formula on are the formula and those that were entered since then. -/
theorem Coherent.mem_drop_iff (coherent : s.Coherent limit) (found : s.places[key]? = some position)
    {other : CellKey} : other ∈ s.path.drop position ↔
      other ∈ key :: s.progress.stack.takeWhile fun entered => entered ≠ key := by
  have isKey := (coherent.indexed key position).1 found
  obtain ⟨above, below, isStack⟩ := List.append_of_mem (mem_path_iff.1 (List.mem_of_getElem? isKey))
  have isPath : s.path = below.reverse ++ key :: above.reverse := by
    rw [path, isStack]
    simp
  have distinct := coherent.distinct
  rw [isPath] at isKey distinct
  -- The formula stands on the path once, behind those that were entered before it.
  have isPosition : position = below.length := by
    refine (List.getElem?_inj (List.getElem?_eq_some_iff.1 isKey).1 distinct).1 ?_
    rw [isKey, List.getElem?_append_right (by simp)]
    simp
  have notAbove : ∀ entered ∈ above, decide (entered ≠ key) = true := by
    intro entered member
    rw [List.nodup_append, List.nodup_cons] at distinct
    have gone := distinct.2.1.1
    rw [List.mem_reverse] at gone
    exact decide_eq_true fun same => gone (same ▸ member)
  rw [isPath, isPosition, ← List.length_reverse, List.drop_left, isStack, List.takeWhile_append_of_pos notAbove]
  simp

/-- Closing a cycle at the position of a formula marks what closing it at the formula marks. -/
theorem Coherent.closeCycle_eq (coherent : s.Coherent limit) (found : s.places[key]? = some position) :
    s.closeCycle position = { s with progress := s.progress.closeCycle key } := by
  have sameMarks : s.progress.circular.insertMany (s.path.drop position) =
      (s.progress.closeCycle key).circular := by
    refine Std.ExtTreeSet.ext_mem fun other => ?_
    rw [Pass.closeCycle_circular, mem_insertMany, coherent.mem_drop_iff found]
  rw [Visit.closeCycle, sameMarks]
  rfl

theorem Coherent.closeCycle (coherent : s.Coherent limit) (position : Nat) :
    (s.closeCycle position).Coherent limit where
  toKept := coherent.toKept.of_same rfl rfl
  indexed := coherent.indexed
  distinct := coherent.distinct
  shallow := coherent.shallow
  marked other member := by
    rcases mem_insertMany.1 member with before | later
    · exact coherent.marked other before
    · exact List.mem_of_mem_drop later
  unfinished := coherent.unfinished
  entered := coherent.entered
  loaded := coherent.loaded

theorem Coherent.pendingPrecedents_eq (coherent : s.Coherent limit) :
    s.pendingPrecedents key = s.progress.pendingPrecedents key := by
  have sameContains (other : CellKey) : s.places.contains other = s.progress.stack.contains other := by
    rw [Bool.eq_iff_iff, Std.ExtTreeMap.contains_iff_mem, coherent.mem_places_iff, mem_path_iff,
      List.contains_iff_mem]
  have sameReads : s.pendingReads = s.progress.pendingReads := by
    funext page a
    simp only [pendingReads, Progress.pendingReads, isPending, Progress.isPending, sameContains]
  rw [pendingPrecedents, Progress.pendingPrecedents, sameReads]

/-- A change that leaves the stack and the marks as they are keeps the state coherent if formulas stay what they
are and none of them is finished by it. -/
theorem Coherent.change (coherent : s.Coherent limit) (kept : q.Kept) (stack : q.stack = s.progress.stack)
    (circular : q.circular = s.progress.circular)
    (formulas : ∀ key, s.progress.IsFormula key → q.IsFormula key)
    (memo : ∀ key, s.progress.IsFormula key → q.memo[key]? = s.progress.memo[key]?) :
    Coherent limit { s with progress := q } := by
  have isPath : Visit.path { s with progress := q } = s.path := congrArg List.reverse stack
  refine ⟨kept, ?indexed, ?distinct, ?shallow, ?marked, ?unfinished, ?entered,
    fun key member => (kept.finished key member).loaded⟩ <;> rw [isPath]
  case indexed => exact coherent.indexed
  case distinct => exact coherent.distinct
  case shallow => exact coherent.shallow
  case marked => exact circular ▸ coherent.marked
  case unfinished =>
    intro key member known
    refine coherent.unfinished key member ?_
    rw [mem_iff_exists, ← memo key (coherent.entered key member), ← mem_iff_exists]
    exact known
  case entered => exact fun key member => formulas key (coherent.entered key member)

end Visit

/-! ## Visits that go along with attempts -/

/-- The evaluation has gone on from a state, and has the stack and the index again that it had there. -/
structure Visit.Resumed (limit : Nat) (s : Visit) (q : Progress) : Prop where
  stack : q.stack = s.progress.stack
  formulas : ∀ key, s.progress.IsFormula key → q.IsFormula key
  coherent : Visit.Coherent limit { s with progress := q }

/-- From a state on, a visit goes along with an attempt. Both give up, or both give the same and go on to the
same state, where the stack and the index are what they were before; all states that are written down are
coherent. -/
def Attends (limit : Nat) (visit : Visiting α) (attempt : Attempt α) (s : Visit) : Prop :=
  ∀ states : List Visit, (∀ t ∈ states, t.Coherent limit) →
    (attempt.run s.progress = none ∧ (visit.run s).run states = none) ∨
    ∃ a q states', attempt.run s.progress = some (a, q) ∧
      (visit.run s).run states = some ((a, { s with progress := q }), states') ∧
      s.Resumed limit q ∧ ∀ t ∈ states', t.Coherent limit

namespace Attends

variable {limit : Nat} {visit : Visiting α} {attempt : Attempt α} {s : Visit}
variable {f : α → Visiting β} {g : α → Attempt β}

theorem pure (coherent : s.Coherent limit) (a : α) : Attends limit (pure a) (pure a) s :=
  fun states all => .inr ⟨a, s.progress, states, rfl, rfl, ⟨rfl, fun _ => id, coherent⟩, all⟩

theorem bind (first : Attends limit visit attempt s)
    (second : ∀ a q, s.Resumed limit q → Attends limit (f a) (g a) { s with progress := q }) :
    Attends limit (visit >>= f) (attempt >>= g) s := by
  intro states all
  rcases first states all with ⟨none, noneToo⟩ | ⟨a, q, states', given, givenToo, resumed, all'⟩
  · left
    constructor
    · rw [StateT.run_bind, none]
      rfl
    · rw [StateT.run_bind, StateT.run_bind, noneToo]
      rfl
  · rw [StateT.run_bind, given, StateT.run_bind, StateT.run_bind, givenToo]
    rcases second a q resumed states' all' with ⟨none, noneToo⟩ |
      ⟨b, p, states'', given, givenToo, ⟨stack, formulas, coherent⟩, all''⟩
    · exact .inl ⟨none, noneToo⟩
    · exact .inr ⟨b, p, states'', given, givenToo,
        ⟨stack.trans resumed.stack,
          fun key formula => formulas key (resumed.formulas key formula), coherent⟩, all''⟩

/-- What follows may go along from every coherent state on. -/
theorem andThen (first : Attends limit visit attempt s)
    (second : ∀ a (t : Visit), t.Coherent limit → Attends limit (f a) (g a) t) :
    Attends limit (visit >>= f) (attempt >>= g) s :=
  first.bind fun a _ resumed => second a _ resumed.coherent

theorem map {h : α → β} (first : Attends limit visit attempt s) :
    Attends limit (h <$> visit) (h <$> attempt) s := by
  rw [← bind_pure_comp, ← bind_pure_comp]
  exact first.andThen fun a _ coherent => .pure coherent (h a)

theorem withState {f : Progress → Visiting α} {g : Progress → Attempt α}
    (onward : Attends limit (f s.progress) (g s.progress) s) : Attends limit (get >>= f) (get >>= g) s :=
  fun states all => onward states all

/-- The visit sees the whole state where the attempt sees what it knows of it. -/
theorem withVisit {f : Visit → Visiting α} {g : Progress → Attempt α}
    (onward : Attends limit (f s) (g s.progress) s) : Attends limit (getThe Visit >>= f) (get >>= g) s :=
  fun states all => onward states all

theorem change {f : Progress → α × Progress} (resumed : s.Resumed limit (f s.progress).2) :
    Attends limit (modifyGet f) (modifyGet f) s := by
  refine fun states all => .inr ⟨_, _, _, rfl, rfl, resumed, ?_⟩
  exact List.forall_mem_append.2 ⟨all, List.forall_mem_singleton.2 resumed.coherent⟩

end Attends

/-! ## References -/

section References

variable {limit : Nat} {w : Workbook} {s : Visit}
variable {read : CellKey → Visiting Value} {attempt : CellKey → Attempt Value}
variable (reads : ∀ (s : Visit) (key : CellKey), s.Coherent limit → Attends limit (read key) (attempt key) s)

include reads

theorem attends_readSeen (coherent : s.Coherent limit) (key : CellKey) :
    Attends limit (readSeen read key) (readSeen attempt key) s :=
  (reads s key coherent).map

theorem attends_readCells (coherent : s.Coherent limit) (place : Nat) (cells : List Address) :
    Attends limit (cells.mapM fun a => readSeen read ⟨place, a⟩)
      (cells.mapM fun a => readSeen attempt ⟨place, a⟩) s := by
  induction cells generalizing s with
  | nil => exact .pure coherent []
  | cons a cells ih =>
    rw [List.mapM_cons, List.mapM_cons]
    refine (attends_readSeen reads coherent ⟨place, a⟩).andThen fun v _ coherent => ?_
    exact (ih coherent).andThen fun vs _ coherent => .pure coherent (v :: vs)

theorem attends_readRange (coherent : s.Coherent limit) (place : Nat) (area : Range) :
    Attends limit (readRange read place area) (readRange attempt place area) s :=
  .withState ((attends_readCells reads coherent place _).andThen fun items _ coherent =>
    .pure coherent (Value.list items))

theorem attends_readWholeSheet (coherent : s.Coherent limit) (place : Nat) :
    Attends limit (readWholeSheet w read place) (readWholeSheet w attempt place) s := by
  unfold readWholeSheet
  cases w.options.wholeSheet with
  | grid =>
    refine .withState ?_
    cases (s.progress.sheet place).extent? with
    | none => exact .pure coherent _
    | some area => exact attends_readRange reads coherent place area
  | cell a => exact attends_readSeen reads coherent ⟨place, a⟩
  | reject => exact .pure coherent _

omit reads in
theorem Visit.Coherent.resolve (coherent : s.Coherent limit) (page : PageRef) :
    s.Resumed limit (s.progress.resolve w page).2 := by
  have grows : s.progress.Grows (s.progress.resolve w page).2 := Progress.resolve_grows coherent.toKept
  have formulas (key : CellKey) : s.progress.IsFormula key → (s.progress.resolve w page).2.IsFormula key :=
    grows.isFormula
  have memo (key : CellKey) (formula : s.progress.IsFormula key) :
      (s.progress.resolve w page).2.memo[key]? = s.progress.memo[key]? := Progress.resolve_memo formula.loaded
  exact ⟨Progress.resolve_stack, formulas, coherent.change (Progress.resolve_kept coherent.toKept)
    Progress.resolve_stack Progress.resolve_circular formulas memo⟩

theorem attends_readExternal (coherent : s.Coherent limit) (external : ExternalReference) :
    Attends limit (readExternal w read external) (readExternal w attempt external) s := by
  have found : Attends limit (modifyGet fun p => p.resolve w external.page)
      (modifyGet fun p => p.resolve w external.page) s :=
    .change (coherent.resolve external.page)
  refine found.andThen fun outcome _ coherent => ?_
  cases outcome with
  | error failure => exact .pure coherent _
  | ok place =>
    cases external.target with
    | cell a => exact attends_readSeen reads coherent ⟨place, a⟩
    | range area => exact attends_readRange reads coherent place area
    | wholeSheet => exact attends_readWholeSheet reads coherent place

theorem attends_readReference (coherent : s.Coherent limit) (place : Nat) (r : Reference) :
    Attends limit (readReference w read place r) (readReference w attempt place r) s := by
  cases r with
  | cell a => exact attends_readSeen reads coherent ⟨place, a⟩
  | range area => exact attends_readRange reads coherent place area
  | external external => exact attends_readExternal reads coherent external

theorem attends_plan (coherent : s.Coherent limit) (place : Nat) (plan : Plan α) :
    Attends limit (plan.run (readReference w read place)) (plan.run (readReference w attempt place)) s := by
  induction plan generalizing s with
  | done a => exact .pure coherent a
  | read r next ih =>
    exact (attends_readReference reads coherent place r).andThen fun v _ coherent => ih v coherent

theorem attends_evaluateExpr (coherent : s.Coherent limit) (place : Nat) (e : Expr) :
    Attends limit (evaluateExpr w.library (readReference w read place) e)
      (evaluateExpr w.library (readReference w attempt place) e) s := by
  rw [evaluateExpr_eq_run, evaluateExpr_eq_run]
  exact attends_plan reads coherent place (e.plan w.library)

/-! ## Cells -/

theorem attends_computation (coherent : s.Coherent limit) (key : CellKey) (source : String) :
    Attends limit (Pass.computation w read key source) (Pass.computation w attempt key source) s := by
  have parsed : s.Resumed limit { s.progress with cache := (s.progress.cache.parse source).2 } :=
    ⟨rfl, fun _ => id, coherent.change (coherent.toKept.of_same rfl rfl) rfl rfl (fun _ => id) fun _ _ => rfl⟩
  refine Attends.andThen (.change parsed) fun outcome _ coherent => ?_
  cases outcome with
  | error fault => exact .pure coherent _
  | ok e => exact (attends_evaluateExpr reads coherent key.page e).map

omit reads in
theorem run_evaluateFormulaCell (p : Progress) (key : CellKey) (source : String) :
    (evaluateFormulaCell w attempt key source).run p =
      ((Pass.computation w attempt key source).run (p.enter key)).map fun outcome =>
        outcome.2.leave key outcome.1 := by
  rw [evaluateFormulaCell_eq_bind]
  show Option.bind _ _ = _
  rw [Option.map_eq_bind]
  rfl

omit reads in
theorem run_evaluateFormulaVisiting (s : Visit) (states : List Visit) (key : CellKey) (source : String) :
    ((evaluateFormulaVisiting w read key source).run s).run states =
      (((Pass.computation w read key source).run (s.enter key)).run (states ++ [s.enter key])).map fun outcome =>
        (outcome.1.2.leave key outcome.1.1, outcome.2 ++ [(outcome.1.2.leave key outcome.1.1).2]) := by
  rw [Option.map_eq_bind]
  rfl

/-- A formula is under evaluation until it has its value, and then no more. -/
theorem attends_evaluateFormula {key : CellKey} (coherent : s.Coherent limit)
    (formula : s.progress.IsFormula key) (unknown : key ∉ s.progress.memo) (outside : key ∉ s.path)
    (room : s.path.length < limit) (source : String) :
    Attends limit (evaluateFormulaVisiting w read key source) (evaluateFormulaCell w attempt key source) s := by
  have entered := coherent.enter formula unknown outside room
  intro states all
  have allEntered : ∀ t ∈ states ++ [s.enter key], t.Coherent limit :=
    List.forall_mem_append.2 ⟨all, List.forall_mem_singleton.2 entered⟩
  have enterProgress : (s.enter key).progress = s.progress.enter key := rfl
  rw [run_evaluateFormulaCell, run_evaluateFormulaVisiting, ← enterProgress]
  rcases attends_computation (w := w) reads entered key source _ allEntered with ⟨none, noneToo⟩ |
    ⟨v, q, states', given, givenToo, ⟨stack, formulas, coherent'⟩, all'⟩
  · rw [none, noneToo]
    exact .inl ⟨rfl, rfl⟩
  · have isLeft : Visit.leave { s.enter key with progress := q } key v =
        ((q.leave key v).1, { s with progress := (q.leave key v).2 }) := coherent.leave_entered outside
    have left := coherent'.leave (v := v) stack
    rw [isLeft] at left
    have stackToo : (q.leave key v).2.stack = s.progress.stack := by
      rw [Progress.leave, stack]
      rfl
    rw [given, givenToo, Option.map_some, Option.map_some, isLeft]
    exact .inr ⟨_, _, _, rfl, rfl, ⟨stackToo, formulas, left⟩,
      List.forall_mem_append.2 ⟨all', List.forall_mem_singleton.2 left⟩⟩

theorem attends_finish {key : CellKey} (coherent : s.Coherent limit) (bounded : w.options.maxDepth ≤ limit)
    (formula : s.progress.IsFormula key) (outside : key ∉ s.path) (source : String) :
    Attends limit (finishVisiting w read key source) (finishPlainly w attempt key source) s := by
  refine .withVisit ?_
  cases known : s.progress.memo[key]? with
  | some v => exact .pure coherent v
  | none =>
    refine .withVisit ?_
    have unknown := not_mem_of_unknown known
    by_cases full : w.options.maxDepth ≤ s.progress.stack.length
    · rw [if_pos full, if_pos full]
      exact .pure coherent _
    · rw [if_neg full, if_neg full]
      rw [← Visit.length_path] at full
      exact attends_evaluateFormula reads coherent formula unknown outside (by omega) source

/-- The precedents of a formula are read one after the other. -/
theorem attends_precedents (coherent : s.Coherent limit) (place : Nat) (precedents : List Address) :
    Attends limit
      (forIn precedents PUnit.unit fun a _ => do
        discard <| read ⟨place, a⟩
        pure (ForInStep.yield PUnit.unit))
      (forIn precedents PUnit.unit fun a _ => do
        discard <| attempt ⟨place, a⟩
        pure (ForInStep.yield PUnit.unit)) s := by
  induction precedents generalizing s with
  | nil => exact .pure coherent PUnit.unit
  | cons a precedents ih =>
    rw [List.forIn_cons, List.forIn_cons, bind_assoc, bind_assoc]
    refine Attends.andThen (reads s ⟨place, a⟩ coherent).map fun _ _ coherent => ?_
    rw [pure_bind, pure_bind]
    exact ih coherent

theorem attends_settle {key : CellKey} (coherent : s.Coherent limit) (bounded : w.options.maxDepth ≤ limit)
    (formula : s.progress.IsFormula key) (outside : key ∉ s.path) (source : String) :
    Attends limit (settleVisiting w read key source) (settlePlainly w attempt key source) s := by
  refine .withVisit ?_
  rw [coherent.pendingPrecedents_eq]
  refine (attends_precedents reads coherent key.page _).bind fun _ q resumed => ?_
  -- Whatever the precedents did, the stack is what it was, so the formula is still not on it.
  have outside : key ∉ Visit.path { s with progress := q } := by
    rw [Visit.path, resumed.stack]
    exact outside
  exact attends_finish reads resumed.coherent bounded (resumed.formulas key formula) outside source

end References

theorem attends_closeCycle {limit : Nat} {s : Visit} {key : CellKey} {position : Nat}
    (coherent : s.Coherent limit) (found : s.places[key]? = some position) :
    Attends limit (goOn fun s => (PUnit.unit, s.closeCycle position)) (modify fun p => p.closeCycle key) s := by
  intro states all
  have closed := coherent.closeCycle position
  have isClosed := coherent.closeCycle_eq found
  rw [isClosed] at closed
  refine .inr ⟨PUnit.unit, s.progress.closeCycle key, _, rfl, ?_, ⟨rfl, fun _ => id, closed⟩,
    List.forall_mem_append.2 ⟨all, List.forall_mem_singleton.2 closed⟩⟩
  rw [← isClosed]
  rfl

/-- A cell under evaluation is found by the index where the attempt finds it on the stack. -/
theorem attends_lookUp {limit : Nat} {settle : CellKey → String → Visiting Value}
    {attempt : CellKey → String → Attempt Value} {s : Visit} {key : CellKey} (coherent : s.Coherent limit)
    (settles : ∀ source, key ∉ s.path → s.progress.input key = .formula source →
      Attends limit (settle key source) (attempt key source) s) :
    Attends limit (lookUpVisiting settle key) (lookUp attempt key) s := by
  refine .withVisit ?_
  cases s.progress.memo[key]? with
  | some v => exact .pure coherent v
  | none =>
    cases found : s.places[key]? with
    | some position =>
      have inside := Visit.mem_path_iff.1 (coherent.mem_places_iff.1 (mem_of_known found))
      simp only [inside, if_true]
      exact (attends_closeCycle coherent found).andThen fun _ _ coherent => .pure coherent _
    | none =>
      have outside : key ∉ s.path := fun member => not_mem_of_unknown found (coherent.mem_places_iff.2 member)
      have outsideToo : key ∉ s.progress.stack := fun member => outside (Visit.mem_path_iff.2 member)
      simp only [outsideToo, if_false]
      cases typed : s.progress.input key with
      | blank | number | text => exact .pure coherent _
      | formula source => exact settles source outside typed

/-- Plain recursion with an index reads every cell as plain recursion without one. -/
theorem attends_read {w : Workbook} (calls : Nat) (s : Visit) (key : CellKey)
    (coherent : s.Coherent w.options.maxDepth) :
    Attends w.options.maxDepth (readVisiting w calls key) (readPlainly w calls key) s := by
  induction calls generalizing s key with
  | zero => exact fun _ _ => .inl ⟨rfl, rfl⟩
  | succ calls ih =>
    refine attends_lookUp coherent fun source outside typed => ?_
    have formula : s.progress.IsFormula key := Sheet.isFormula_iff.2 ⟨source, typed⟩
    exact attends_settle ih coherent le_rfl formula outside source

/-! ## Whole evaluations -/

/-- From every coherent state on, a visit that returns leaves the stack and the index as it finds them, and all
states that it goes on to are coherent. -/
def Restores (limit : Nat) (visit : Visiting α) : Prop :=
  ∀ ⦃s t : Visit⦄ ⦃a : α⦄ ⦃states : List Visit⦄, s.Coherent limit →
    (visit.run s).run [] = some ((a, t), states) →
    t.progress.stack = s.progress.stack ∧ t.places = s.places ∧ t.Coherent limit ∧
      ∀ u ∈ states, u.Coherent limit

/-- What goes along with some attempt wherever it starts restores the stack and the index. -/
theorem Attends.restores {limit : Nat} {visit : Visiting α} {attempt : Attempt α}
    (attends : ∀ s : Visit, s.Coherent limit → Attends limit visit attempt s) : Restores limit visit := by
  intro s t a states coherent returned
  rcases attends s coherent [] (List.forall_mem_nil _) with ⟨-, none⟩ | ⟨b, q, states', -, given, resumed, all⟩
  · rw [none] at returned
    cases returned
  · rw [given] at returned
    cases returned
    exact ⟨resumed.stack, rfl, resumed.coherent, all⟩

/-- A visit from the beginning returns what an evaluation gives, and nothing is under evaluation then. Every
state that it goes on to is coherent. -/
def Completes (limit : Nat) (visit : Visiting α) (m : Evaluating α) (s : Visit) : Prop :=
  ∃ states, (visit.run s).run [] = some (((m.run s.progress).1, ⟨(m.run s.progress).2, ∅⟩), states) ∧
    (m.run s.progress).2.stack = [] ∧ (m.run s.progress).2.circular = ∅ ∧
    Visit.Coherent limit ⟨(m.run s.progress).2, ∅⟩ ∧ ∀ u ∈ states, u.Coherent limit

namespace Workbook

variable {w : Workbook} {limit : Nat}

theorem coherent_beginVisit (w : Workbook) (cache : ParseCache) (limit : Nat) :
    (w.beginVisit cache).Coherent limit where
  toKept := Progress.begin_kept w cache
  indexed key i := by simp [beginVisit, Visit.path, begin, Progress.load, Progress.start]
  distinct := List.nodup_nil
  shallow := Nat.zero_le limit
  marked key member := absurd member Std.ExtTreeSet.not_mem_empty
  unfinished key member := absurd member List.not_mem_nil
  entered key member := absurd member List.not_mem_nil
  loaded key member := ((Progress.begin_kept w cache).finished key member).loaded

theorem attends_evaluateCells (calls : Nat) (addresses : List Address) {s : Visit}
    (coherent : s.Coherent w.options.maxDepth) :
    Attends w.options.maxDepth (w.evaluateCellsVisiting calls addresses)
      (w.evaluateCellsPlainly calls addresses) s := by
  unfold evaluateCellsVisiting evaluateCellsPlainly
  induction addresses generalizing s with
  | nil => exact .pure coherent []
  | cons a addresses ih =>
    rw [List.mapM_cons, List.mapM_cons, bind_assoc, bind_assoc]
    refine (attends_read calls s _ coherent).andThen fun v _ coherent => ?_
    rw [pure_bind, pure_bind]
    exact (ih coherent).andThen fun cells _ coherent => .pure coherent _

theorem restores_evaluateCells (w : Workbook) (calls : Nat) (addresses : List Address) :
    Restores w.options.maxDepth (w.evaluateCellsVisiting calls addresses) :=
  Attends.restores fun _ coherent => attends_evaluateCells calls addresses coherent

theorem restores_evaluateExpr (w : Workbook) (calls place : Nat) (e : Expr) :
    Restores w.options.maxDepth (evaluateExpr w.library (readReference w (readVisiting w calls) place) e) :=
  Attends.restores fun _ coherent => attends_evaluateExpr (attends_read calls) coherent place e

/-- What goes along with an attempt that returns completes from the beginning. -/
theorem completes_of_returns {cache : ParseCache} {visit : Visiting α} {attempt : Attempt α} {m : Evaluating α}
    (attends : Attends limit visit attempt (w.beginVisit cache))
    (returns : Returns attempt m (w.begin cache)) : Completes limit visit m (w.beginVisit cache) := by
  rcases attends [] (List.forall_mem_nil _) with ⟨none, -⟩ | ⟨a, q, states, given, givenToo, resumed, all⟩
  · cases none.symm.trans returns
  · have same : (a, q) = m.run (w.begin cache) := Option.some.inj (given.symm.trans returns)
    have isOutcome : (m.run (w.beginVisit cache).progress).1 = a := congrArg Prod.fst same.symm
    have isEnd : (m.run (w.beginVisit cache).progress).2 = q := congrArg Prod.snd same.symm
    have idle : q.stack = [] := resumed.stack
    unfold Completes
    rw [isOutcome, isEnd]
    refine ⟨states, givenToo, idle, ?_, resumed.coherent, all⟩
    refine Std.ExtTreeSet.ext_mem fun key => ⟨fun marked => ?_, fun member => ?_⟩
    · have onPath : key ∈ q.stack := Visit.mem_path_iff.1 (resumed.coherent.marked key marked)
      rw [idle] at onPath
      cases onPath
    · exact absurd member Std.ExtTreeSet.not_mem_empty

/-- The stack and its index agree throughout an evaluation. The state at the beginning is coherent; every cell,
reference and expression that is evaluated from a coherent state on leaves the stack and the index as it finds
them; and whatever cells of the root page are evaluated one after the other, or whatever expression is, the
evaluation that looks for formulas under evaluation in the index returns what the evaluation gives, and nothing
is under evaluation, indexed or marked then. -/
theorem visitation_coherent (w : Workbook) (cache : ParseCache) :
    (w.beginVisit cache).Coherent w.options.maxDepth ∧
    (∀ calls place, (∀ a, Restores w.options.maxDepth (readVisiting w calls ⟨place, a⟩)) ∧
      (∀ a, Restores w.options.maxDepth (readSeen (readVisiting w calls) ⟨place, a⟩)) ∧
      (∀ area, Restores w.options.maxDepth (readRange (readVisiting w calls) place area)) ∧
      ∀ e, Restores w.options.maxDepth
        (evaluateExpr w.library (readReference w (readVisiting w calls) place) e)) ∧
    ∀ spare, (∀ addresses, Completes w.options.maxDepth
        (w.evaluateCellsVisiting (w.callBound + spare) addresses) (w.evaluateCells addresses)
        (w.beginVisit cache)) ∧
      ∀ e, Completes w.options.maxDepth (w.evaluationVisiting (w.callBound + spare) e) (w.evaluation e)
        (w.beginVisit cache) := by
  have begun := w.coherent_beginVisit cache w.options.maxDepth
  refine ⟨begun, fun calls place => ⟨?cell, ?seen, ?range, w.restores_evaluateExpr calls place⟩,
    fun spare => ⟨?cells, ?whole⟩⟩
  case cell => exact fun a => Attends.restores fun s => attends_read calls s ⟨place, a⟩
  case seen =>
    exact fun a => Attends.restores fun s coherent => attends_readSeen (attends_read calls) coherent _
  case range =>
    exact fun area => Attends.restores fun s coherent =>
      attends_readRange (attends_read calls) coherent place area
  case cells =>
    intro addresses
    have ready : (Pass.ofSheet w (some w.options.maxDepth)).Ready w.options.maxDepth (w.begin cache) :=
      Pass.ready_begin _ cache rfl
    exact completes_of_returns (attends_evaluateCells _ addresses begun)
      (returns_evaluateCells (Nat.le_add_right ..) addresses ready rfl)
  case whole =>
    intro e
    exact completes_of_returns (attends_evaluateExpr (attends_read _) begun Progress.root e)
      (returns_evaluation (Nat.le_add_right ..) cache e)

end Workbook

end PageCalc

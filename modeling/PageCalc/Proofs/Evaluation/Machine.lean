import Mathlib.Data.List.Chain
import PageCalc.Proofs.Evaluation.Precedents

/-!
# Evaluation as a machine

An evaluation goes on by steps of a few kinds: it finds pages, enters formulas, finds that a formula
under evaluation was read again, and leaves formulas with their values. What the steps keep holds in
every state of every evaluation.
-/

namespace PageCalc

open Collection

/-- A stretch of an evaluation. -/
structure Pass where
  book : Workbook
  /-- The cells that are read while no formula is under evaluation. -/
  entry : CellKey → Prop
  /-- The number of formulas that may be under evaluation at once, if there is a limit. -/
  limit? : Option Nat

namespace Progress

/-- The formula of a cell waits for no other formula of its page. -/
def Settled (p : Progress) (key : CellKey) : Prop :=
  ∀ b, (p.sheet key.page).Reads key.address b → ¬ p.isPending ⟨key.page, b⟩

/-- The formula of a cell demands a cell of a page, from which reads inside the page lead to
another cell. -/
def Linked (w : Workbook) (p : Progress) (above below : CellKey) : Prop :=
  above.page < p.pages.size ∧ ∃ a, (p.atlas w).DemandsAcross below ⟨above.page, a⟩ ∧
    Relation.ReflTransGen (p.sheet above.page).Reads a above.address

end Progress

namespace Pass

variable {pass : Pass} {p p' p'' : Progress} {key : CellKey} {v : Value}

/-! ## Answers -/

/-- The innermost formula reads a cell. -/
def Asked (pass : Pass) (p : Progress) (key : CellKey) : Prop :=
  match p.stack with
  | [] => pass.entry key
  | top :: _ => (p.atlas pass.book).Demands top key

/-- The innermost formula reads a cell by the identifier of a page. -/
def AskedAcross (pass : Pass) (p : Progress) (key : CellKey) : Prop :=
  match p.stack with
  | [] => pass.entry key
  | top :: _ => (p.atlas pass.book).DemandsAcross top key

/-- What the innermost formula finds in a cell that it reads. -/
inductive Answers (pass : Pass) (p : Progress) : CellKey → Value → Prop where
  | finished {key : CellKey} {v : Value} (known : p.memo[key]? = some v) : Answers pass p key v
  | typed {key : CellKey} {v : Value} (loaded : key.page < p.pages.size)
      (literal : (p.input key).literal? = some v) : Answers pass p key v
  | waiting {key : CellKey} (entered : key ∈ p.stack)
      (marked : ∀ other ∈ key :: p.stack.takeWhile (· ≠ key), other ∈ p.circular) :
      Answers pass p key (.error .circular)
  | tooDeep {key : CellKey} (formula : p.IsFormula key) (outside : key ∉ p.stack)
      (asked : pass.AskedAcross p key) (deep : ∃ limit ∈ pass.limit?, limit ≤ p.stack.length) :
      Answers pass p key (.error .tooDeep)

/-- What the innermost formula finds when it reads a reference. -/
def AnswersReference (pass : Pass) (p : Progress) (place : Nat) (r : Reference) (v : Value) : Prop :=
  p.Resolved pass.book r ∧ ((p.atlas pass.book).sight place r).Gives (pass.Answers p) v

/-- The value of a formula that is all evaluated. -/
inductive Computed (pass : Pass) (p : Progress) (key : CellKey) : Value → Prop where
  | fault {source : String} {fault : FormulaError} (typed : p.input key = .formula source)
      (parsed : Expr.ofFormula source = .error fault) :
      Computed pass p key (.error fault.toCellError)
  | value {source : String} {e : Expr} {x : Value} (typed : p.input key = .formula source)
      (parsed : Expr.ofFormula source = .ok e)
      (yields : (e.plan pass.book.library).Yields (pass.AnswersReference p key.page) x) :
      Computed pass p key x.finish

/-! ## Steps -/

/-- One step of an evaluation. -/
inductive Step (pass : Pass) : Progress → Progress → Prop where
  | parse {p : Progress} (source : String) :
      Step pass p { p with cache := (p.cache.parse source).2 }
  | resolve {p : Progress} (page : PageRef) : Step pass p (p.resolve pass.book page).2
  | close {p : Progress} {key : CellKey} (entered : key ∈ p.stack) (asked : pass.Asked p key) :
      Step pass p (p.closeCycle key)
  | enter {p : Progress} {key : CellKey} {a : Address} (pending : p.isPending key)
      (settled : p.Settled key) (asked : pass.AskedAcross p ⟨key.page, a⟩)
      (askedPending : p.isPending ⟨key.page, a⟩)
      (path : Relation.ReflTransGen (p.ReadsPending key.page) a key.address) :
      Step pass p (p.enter key)
  | leave {p : Progress} {key : CellKey} {v : Value} (innermost : p.stack.head? = some key)
      (computed : pass.Computed p key v) : Step pass p (p.leave key v).2

/-- The state is reached by steps. -/
abbrev Steps (pass : Pass) : Progress → Progress → Prop := Relation.ReflTransGen pass.Step

/-- What holds in every state of an evaluation. -/
structure Valid (pass : Pass) (p : Progress) : Prop extends p.Placed pass.book, p.Kept where
  distinct : p.stack.Nodup
  entered : ∀ key ∈ p.stack, p.IsFormula key ∧ key ∉ p.memo
  settled : ∀ key ∈ p.stack, p.Settled key
  wasSettled : ∀ key ∈ p.memo, ¬ (p.sheet key.page).OnCycle key.address → p.Settled key
  chain : p.stack.IsChain (p.Linked pass.book)
  rooted : ∀ key ∈ p.stack.getLast?, ∃ a, pass.entry ⟨key.page, a⟩ ∧
    Relation.ReflTransGen (p.sheet key.page).Reads a key.address
  marked : ∀ key ∈ p.circular, key ∈ p.stack ∧ (p.atlas pass.book).DependsOn key key

/-! ## Growth -/

theorem closeCycle_circular {other : CellKey} : other ∈ (p.closeCycle key).circular ↔
    other ∈ p.circular ∨ other ∈ key :: p.stack.takeWhile (· ≠ key) := mem_insertMany

theorem leave_memo {other : CellKey} : (p.leave key v).2.memo[other]? =
    if key = other then some (p.leave key v).1 else p.memo[other]? := by
  simp only [Progress.leave, Std.ExtTreeMap.getElem?_insert, Std.LawfulEqCmp.compare_eq_iff_eq]

theorem leave_marked (isMarked : key ∈ p.circular) : (p.leave key v).1 = .error .circular := by
  simp [Progress.leave, Std.ExtTreeSet.contains_iff_mem.2 isMarked]

theorem leave_unmarked (isUnmarked : key ∉ p.circular) : (p.leave key v).1 = v := by
  have unmarked : p.circular.contains key = false := by
    rw [← Bool.not_eq_true, Std.ExtTreeSet.contains_iff_mem]
    exact isUnmarked
  simp [Progress.leave, unmarked]

/-- A formula is left with its value, or with that of a cycle. -/
theorem leave_value (p : Progress) (key : CellKey) (v : Value) :
    (p.leave key v).1 = .error .circular ∨ (p.leave key v).1 = v := by
  by_cases isMarked : key ∈ p.circular
  · exact .inl (leave_marked isMarked)
  · exact .inr (leave_unmarked isMarked)

/-- What is known when a formula has been left was known before, or is its value: that of a cycle if the
formula was marked, and what it computed if not. -/
theorem memo_of_leave {other : CellKey} {u : Value} (known : (p.leave key v).2.memo[other]? = some u) :
    p.memo[other]? = some u ∨ other = key ∧
      (key ∈ p.circular ∧ u = .error .circular ∨ key ∉ p.circular ∧ u = v) := by
  rw [leave_memo] at known
  split at known
  · next same =>
    cases known
    refine .inr ⟨same.symm, ?_⟩
    by_cases isMarked : key ∈ p.circular
    · exact .inl ⟨isMarked, leave_marked isMarked⟩
    · exact .inr ⟨isMarked, leave_unmarked isMarked⟩
  · exact .inl known

theorem mem_leave_memo {other : CellKey} :
    other ∈ (p.leave key v).2.memo ↔ other = key ∨ other ∈ p.memo := by
  rw [Progress.leave, Std.ExtTreeMap.mem_insert, Std.LawfulEqCmp.compare_eq_iff_eq, eq_comm]

theorem mem_leave_circular {other : CellKey} :
    other ∈ (p.leave key v).2.circular ↔ other ≠ key ∧ other ∈ p.circular := mem_erase

/-- A formula without a value is not on a cycle of its page, whose cells have theirs. -/
theorem kept_leave (kept : p.Kept) (formula : p.IsFormula key) (unfinished : key ∉ p.memo) :
    (p.leave key v).2.Kept where
  gathered := kept.gathered
  finished other member := by
    rcases mem_leave_memo.1 member with rfl | known
    · exact formula
    · exact kept.finished other known
  premarked place a onCycle := by
    have known := kept.premarked place a onCycle
    have other : key ≠ ⟨place, a⟩ := by
      rintro rfl
      exact unfinished (mem_of_known known)
    rw [leave_memo, if_neg other]
    exact known
  ids := kept.ids

theorem stack_eq_cons (innermost : p.stack.head? = some key) :
    p.stack = key :: (p.leave key v).2.stack := by
  obtain ⟨rest, same⟩ := List.head?_eq_some_iff.1 innermost
  simp [Progress.leave, same]

theorem enter_grows : p.Grows (p.enter key) :=
  .of_same rfl rfl rfl (List.subset_cons_self ..) fun _ => id

theorem leave_grows (valid : pass.Valid p) (innermost : p.stack.head? = some key) :
    p.Grows (p.leave key v).2 where
  size := Nat.le_refl _
  pages _ _ := rfl
  resolutions _ _ := id
  memo other u known := by
    have unfinished := (valid.entered key (List.mem_of_head? innermost)).2
    rw [leave_memo, if_neg, known]
    rintro rfl
    exact unfinished (mem_of_known known)
  waiting other entered := by
    rw [stack_eq_cons (v := v) innermost] at entered
    exact (List.mem_cons.1 entered).symm.imp_right fun same => mem_leave_memo.2 (.inl same)
  marked other marked := by
    -- The mark of the formula that is left goes with it.
    by_cases same : other = key
    · exact .inr (mem_leave_memo.2 (.inl same))
    · exact .inl (mem_leave_circular.2 ⟨same, marked⟩)

theorem Step.grows (valid : pass.Valid p) (step : pass.Step p p') : p.Grows p' := by
  -- Only resolving changes the pages, and only leaving takes a formula off the stack.
  cases step with
  | parse source =>
    exact .of_same rfl rfl rfl (List.Subset.refl _) fun _ => id
  | resolve page => exact Progress.resolve_grows valid.toKept
  | close entered asked =>
    exact .of_same rfl rfl rfl (List.Subset.refl _) fun _ marked =>
      closeCycle_circular.2 (.inl marked)
  | enter => exact enter_grows
  | leave innermost computed => exact leave_grows valid innermost

/-! ## Validity -/

theorem settled_grows (grows : p.Grows p') (loaded : key.page < p.pages.size)
    (settled : p.Settled key) : p'.Settled key := by
  intro b reads
  rw [grows.sheet loaded] at reads
  exact grows.not_isPending loaded (settled b reads)

theorem linked_grows {w : Workbook} {above below : CellKey} (grows : p.Grows p')
    (placed : p.Placed w) (linked : p.Linked w above below) : p'.Linked w above below := by
  obtain ⟨loaded, a, across, path⟩ := linked
  rw [← grows.sheet loaded] at path
  exact ⟨Nat.lt_of_lt_of_le loaded grows.size, a, grows.demandsAcross placed across, path⟩

theorem Valid.stays_settled (valid : pass.Valid p) (grows : p.Grows p') (finished : key ∈ p.memo)
    (offCycle : ¬ (p'.sheet key.page).OnCycle key.address) : p'.Settled key := by
  have loaded := (valid.finished key finished).loaded
  rw [grows.sheet loaded] at offCycle
  exact settled_grows grows loaded (valid.wasSettled key finished offCycle)

theorem Valid.of_grows (valid : pass.Valid p) (grows : p.Grows p') (placed : p'.Placed pass.book)
    (kept : p'.Kept) (sameStack : p'.stack = p.stack) (stillOpen : ∀ key ∈ p.stack, key ∉ p'.memo)
    (new : ∀ key ∈ p'.memo, key ∈ p.memo ∨ (p'.sheet key.page).OnCycle key.address)
    (marked : ∀ key ∈ p'.circular, key ∈ p.stack ∧ (p'.atlas pass.book).DependsOn key key) :
    pass.Valid p' where
  toPlaced := placed
  toKept := kept
  distinct := sameStack ▸ valid.distinct
  entered key member := by
    rw [sameStack] at member
    exact ⟨grows.isFormula (valid.entered key member).1, stillOpen key member⟩
  settled key member := by
    rw [sameStack] at member
    exact settled_grows grows (valid.entered key member).1.loaded (valid.settled key member)
  -- Cells on cycles are finished when their page is loaded, without being settled.
  wasSettled key member offCycle :=
    valid.stays_settled grows ((new key member).resolve_right offCycle) offCycle
  chain := by
    rw [sameStack]
    exact valid.chain.imp fun _ _ => linked_grows grows valid.toPlaced
  rooted key last := by
    rw [sameStack] at last
    have formula := (valid.entered key (List.mem_of_getLast? last)).1
    rw [grows.sheet formula.loaded]
    exact valid.rooted key last
  marked := by rw [sameStack]; exact marked

theorem linked_dependsOn {w : Workbook} {above below : CellKey} (linked : p.Linked w above below) :
    (p.atlas w).DependsOn below above := by
  obtain ⟨-, a, across, path⟩ := linked
  exact .trans_left (.single across.demands.reads) (Atlas.reaches_inside path)

/-- Every formula under evaluation depends on those that were entered after it. -/
theorem Valid.pairwise (valid : pass.Valid p) : p.stack.Pairwise fun above below =>
    (p.atlas pass.book).DependsOn below above := by
  have chain := valid.chain.imp fun above below => linked_dependsOn
  have trans : Trans (fun above below => (p.atlas pass.book).DependsOn below above)
      (fun above below => (p.atlas pass.book).DependsOn below above)
      (fun above below => (p.atlas pass.book).DependsOn below above) :=
    ⟨fun first second => second.trans first⟩
  exact chain.pairwise

/-- A formula that is read again while it is under evaluation, and all that were entered since
then, lie on a cycle. -/
theorem mem_stack_of_above (entered : key ∈ p.stack) {other : CellKey}
    (member : other ∈ key :: p.stack.takeWhile (· ≠ key)) : other ∈ p.stack := by
  rcases List.mem_cons.1 member with rfl | above
  · exact entered
  · exact (List.takeWhile_prefix _).subset above

theorem Valid.onCycle (valid : pass.Valid p) (entered : key ∈ p.stack) (asked : pass.Asked p key)
    {other : CellKey} (member : other ∈ key :: p.stack.takeWhile (· ≠ key)) :
    other ∈ p.stack ∧ (p.atlas pass.book).DependsOn other other := by
  obtain ⟨top, rest, stackSplit⟩ := List.exists_cons_of_ne_nil (List.ne_nil_of_mem entered)
  have closing : (p.atlas pass.book).Reads top key := by
    rw [Asked, stackSplit] at asked
    exact asked.reads
  -- Every formula under evaluation leads to the innermost one, and that one reads `key`.
  have toTop (other : CellKey) (member : other ∈ p.stack) :
      (p.atlas pass.book).Reaches other top := by
    have pairwise := valid.pairwise
    rw [stackSplit] at member pairwise
    rcases List.mem_cons.1 member with rfl | below
    · exact .refl
    · exact ((List.pairwise_cons.1 pairwise).1 other below).to_reflTransGen
  have fromKey : (p.atlas pass.book).Reaches key other := by
    rcases List.mem_cons.1 member with rfl | above
    · exact .refl
    · -- What was entered since `key` stands above it.
      have pairwise := valid.pairwise
      rw [← List.takeWhile_append_dropWhile (p := fun entered => decide (entered ≠ key))
        (l := p.stack), List.pairwise_append] at pairwise
      refine (pairwise.2.2 other above key ?_).to_reflTransGen
      rw [← List.takeWhile_append_dropWhile (p := fun entered => decide (entered ≠ key))
        (l := p.stack), List.mem_append] at entered
      refine entered.resolve_left fun early => ?_
      simpa using List.all_eq_true.1 List.all_takeWhile key early
  have inStack := mem_stack_of_above entered member
  exact ⟨inStack, .trans_left (.tail' (toTop other inStack) closing) fromKey⟩

theorem Valid.parse (valid : pass.Valid p) (source : String) :
    pass.Valid { p with cache := (p.cache.parse source).2 } := by
  have grows := Step.grows valid (.parse source)
  exact valid.of_grows grows ⟨valid.root, valid.resolved⟩ (valid.toKept.of_same rfl rfl) rfl
    (fun key member => (valid.entered key member).2) (fun key => .inl) valid.marked

theorem Valid.resolve (valid : pass.Valid p) (page : PageRef) :
    pass.Valid (p.resolve pass.book page).2 := by
  have grows := Step.grows valid (.resolve page)
  refine valid.of_grows grows (Progress.resolve_placed valid.toKept valid.toPlaced)
    (Progress.resolve_kept valid.toKept) Progress.resolve_stack (fun key member => ?_)
    (fun key member => ?_) (fun key member => ?_)
  · obtain ⟨formula, unfinished⟩ := valid.entered key member
    rwa [Std.ExtTreeMap.mem_iff_isSome_getElem?, Progress.resolve_memo formula.loaded,
      ← Std.ExtTreeMap.mem_iff_isSome_getElem?]
  · obtain ⟨v, known⟩ := mem_iff_exists.1 member
    exact (Progress.memo_of_resolve known).imp mem_of_known And.right
  · rw [Progress.resolve_circular] at member
    exact (valid.marked key member).imp_right (grows.dependsOn valid.toPlaced)

theorem Valid.close (valid : pass.Valid p) (entered : key ∈ p.stack) (asked : pass.Asked p key) :
    pass.Valid (p.closeCycle key) := by
  have grows := Step.grows valid (.close entered asked)
  refine valid.of_grows grows ⟨valid.root, valid.resolved⟩ (valid.toKept.of_same rfl rfl) rfl
    (fun key member => (valid.entered key member).2) (fun key => .inl) ?_
  intro other member
  rcases closeCycle_circular.1 member with known | new
  · exact valid.marked other known
  · exact valid.onCycle entered asked new

theorem Valid.enter {a : Address} (valid : pass.Valid p) (pending : p.isPending key)
    (settled : p.Settled key) (asked : pass.AskedAcross p ⟨key.page, a⟩)
    (path : Relation.ReflTransGen (p.sheet key.page).Reads a key.address) :
    pass.Valid (p.enter key) where
  root := valid.root
  resolved := valid.resolved
  toKept := valid.toKept.of_same rfl rfl
  distinct := List.nodup_cons.2 ⟨(Progress.isPending_iff.1 pending).2.2, valid.distinct⟩
  entered := by
    obtain ⟨formula, unfinished, -⟩ := Progress.isPending_iff.1 pending
    exact List.forall_mem_cons.2 ⟨⟨formula, unfinished⟩, valid.entered⟩
  settled other member := by
    rcases List.mem_cons.1 member with rfl | below
    · exact settled_grows enter_grows (Progress.isPending_iff.1 pending).1.loaded settled
    · have loaded := (valid.entered other below).1.loaded
      exact settled_grows enter_grows loaded (valid.settled other below)
  wasSettled other := valid.stays_settled enter_grows
  chain := by
    show List.IsChain (p.Linked pass.book) (key :: p.stack)
    cases stackIs : p.stack with
    | nil => exact .singleton _
    | cons top rest =>
      -- The new formula is linked to the one that asked for it.
      rw [AskedAcross, stackIs] at asked
      have loaded := (Progress.isPending_iff.1 pending).1.loaded
      exact List.isChain_cons_cons.2 ⟨⟨loaded, a, asked, path⟩, stackIs ▸ valid.chain⟩
  rooted other last := by
    have last : other ∈ (key :: p.stack).getLast? := last
    cases stackIs : p.stack with
    | nil =>
      rw [AskedAcross, stackIs] at asked
      rw [stackIs] at last
      cases last
      exact ⟨a, asked, path⟩
    | cons top rest =>
      rw [stackIs, List.getLast?_cons_cons, ← stackIs] at last
      exact valid.rooted other last
  marked other member := (valid.marked other member).imp_left (List.mem_cons_of_mem _)

theorem Valid.leave (valid : pass.Valid p) (innermost : p.stack.head? = some key) :
    pass.Valid (p.leave key v).2 := by
  have grows := leave_grows (v := v) valid innermost
  have stackSplit := stack_eq_cons (v := v) innermost
  have inStack : key ∈ p.stack := List.mem_of_head? innermost
  have inTail (other : CellKey) (member : other ∈ (p.leave key v).2.stack) : other ∈ p.stack := by
    rw [stackSplit]
    exact List.mem_cons_of_mem _ member
  have distinct := valid.distinct
  have chain := valid.chain
  rw [stackSplit] at distinct chain
  obtain ⟨formula, unfinished⟩ := valid.entered key inStack
  refine ⟨⟨valid.root, valid.resolved⟩, kept_leave valid.toKept formula unfinished,
    distinct.of_cons, ?entered, ?settled, ?wasSettled, chain.tail, ?rooted, ?marked⟩
  case entered =>
    intro other member
    obtain ⟨formula, unfinished⟩ := valid.entered other (inTail other member)
    refine ⟨formula, fun finished => ?_⟩
    rcases mem_leave_memo.1 finished with rfl | known
    · exact (List.nodup_cons.1 distinct).1 member
    · exact unfinished known
  case settled =>
    intro other member
    have formula := (valid.entered other (inTail other member)).1
    exact settled_grows grows formula.loaded (valid.settled other (inTail other member))
  case wasSettled =>
    -- The formula that is left was settled while it was under evaluation.
    intro other member offCycle
    rcases mem_leave_memo.1 member with rfl | known
    · exact settled_grows grows (valid.entered other inStack).1.loaded (valid.settled other inStack)
    · exact valid.stays_settled grows known offCycle
  case rooted =>
    intro other last
    refine valid.rooted other ?_
    cases tailIs : (p.leave key v).2.stack with
    | nil => simp [tailIs] at last
    | cons top rest =>
      rw [stackSplit, tailIs, List.getLast?_cons_cons, ← tailIs]
      exact last
  case marked =>
    intro other member
    obtain ⟨distinctFrom, member⟩ := mem_leave_circular.1 member
    obtain ⟨inStack, onCycle⟩ := valid.marked other member
    rw [stackSplit] at inStack
    exact ⟨(List.mem_cons.1 inStack).resolve_left distinctFrom, onCycle⟩

theorem Step.valid (valid : pass.Valid p) (step : pass.Step p p') : pass.Valid p' := by
  cases step with
  | parse source => exact valid.parse source
  | resolve page => exact valid.resolve page
  | close entered asked => exact valid.close entered asked
  | enter pending settled asked askedPending path =>
    exact valid.enter pending settled asked (Relation.ReflTransGen.mono (fun _ _ => And.left) _ _ path)
  | leave innermost computed => exact valid.leave innermost

/-! ## Runs -/

theorem Steps.valid (valid : pass.Valid p) (steps : pass.Steps p p') : pass.Valid p' := by
  induction steps with
  | refl => exact valid
  | tail _ step ih => exact step.valid ih

theorem Steps.grows (valid : pass.Valid p) (steps : pass.Steps p p') : p.Grows p' := by
  induction steps with
  | refl => exact .refl p
  | tail steps step ih => exact ih.trans (step.grows (Steps.valid valid steps))

/-- Steps after which the same formulas are under evaluation as before. -/
structure Runs (pass : Pass) (p p' : Progress) : Prop where
  steps : pass.Steps p p'
  stack : p'.stack = p.stack

theorem Runs.refl (p : Progress) : pass.Runs p p := ⟨.refl, rfl⟩

theorem Runs.trans (first : pass.Runs p p') (second : pass.Runs p' p'') : pass.Runs p p'' :=
  ⟨first.steps.trans second.steps, second.stack.trans first.stack⟩

theorem Runs.valid (valid : pass.Valid p) (runs : pass.Runs p p') : pass.Valid p' :=
  Steps.valid valid runs.steps

theorem Runs.grows (valid : pass.Valid p) (runs : pass.Runs p p') : p.Grows p' :=
  Steps.grows valid runs.steps

theorem Runs.asked (valid : pass.Valid p) (runs : pass.Runs p p') (asked : pass.Asked p key) :
    pass.Asked p' key := by
  unfold Asked at *
  rw [runs.stack]
  split at asked
  · exact asked
  · exact (runs.grows valid).demands valid.toPlaced asked

theorem Runs.askedAcross (valid : pass.Valid p) (runs : pass.Runs p p')
    (asked : pass.AskedAcross p key) : pass.AskedAcross p' key := by
  unfold AskedAcross at *
  rw [runs.stack]
  split at asked
  · exact asked
  · exact (runs.grows valid).demandsAcross valid.toPlaced asked

theorem Runs.answers (valid : pass.Valid p) (runs : pass.Runs p p') (answers : pass.Answers p key v) :
    pass.Answers p' key v := by
  have grows := runs.grows valid
  have valid' := runs.valid valid
  cases answers with
  | finished known => exact .finished (grows.memo _ _ known)
  | typed loaded literal =>
    exact .typed (Nat.lt_of_lt_of_le loaded grows.size) ((congrArg Input.literal? (grows.input loaded)).trans literal)
  | waiting entered marked =>
    rw [← runs.stack] at entered marked
    refine .waiting entered fun other member => ?_
    -- Marks go when a formula is left, but what stands on the stack in the end was not left.
    exact (grows.marked other (marked other member)).resolve_right
      (valid'.entered other (mem_stack_of_above entered member)).2
  | tooDeep formula outside asked deep =>
    refine .tooDeep (grows.isFormula formula) (runs.stack ▸ outside) (runs.askedAcross valid asked) ?_
    rw [runs.stack]
    exact deep

theorem Runs.answersReference {place : Nat} {r : Reference} (valid : pass.Valid p)
    (runs : pass.Runs p p') (loaded : place < p.pages.size)
    (answers : pass.AnswersReference p place r v) : pass.AnswersReference p' place r v := by
  have grows := runs.grows valid
  obtain ⟨resolved, gives⟩ := answers
  refine ⟨grows.resolved resolved, ?_⟩
  rw [grows.sight valid.toPlaced loaded resolved]
  exact gives.mono fun _ _ _ => runs.answers valid

end Pass
end PageCalc

import PageCalc.Proofs.Evaluation.CircularSoundness
import PageCalc.Proofs.Evaluation.DepthLimit
import PageCalc.Proofs.Evaluation.FinishedMeaning
import PageCalc.Proofs.Evaluation.FormulaSheets
import PageCalc.Proofs.Evaluation.Strict

/-!
# Which cycles are found

While the formula of a cell is evaluated, the evaluation explores what its references lead to, as far
as nothing was known of it before. The cell is found to lie on a cycle if and only if a formula that is
explored reads the cell again, or one that was under evaluation already.
-/

namespace PageCalc

open Collection

variable {w : Workbook} {p q r r' : Progress} {key k : CellKey} {s t u : Site Page} {v : Value}

namespace Atlas

variable {atlas : Atlas Page}

/-- The site is neither finished nor under evaluation, and not on a cycle of its page. -/
def Open (atlas : Atlas Page) (p : Progress) (s : Site Page) : Prop :=
  ¬ atlas.OnCycle s ∧ ¬ p.Known s ∧ ∀ key ∈ p.stack, p.site key ≠ s

/-- The sites that open reads lead to from a site: those that a formula demands, and those that have
to be finished before because they are read inside the page. -/
inductive Explores (atlas : Atlas Page) (p : Progress) (s : Site Page) : Site Page → Prop where
  | start : Explores atlas p s s
  | demand {t u : Site Page} (path : Explores atlas p s t) (step : atlas.Demands t u)
      (isOpen : atlas.Open p u) : Explores atlas p s u
  | inside {t u : Site Page} (path : Explores atlas p s t) (step : atlas.ReadsInside t u)
      (isOpen : atlas.Open p u) : Explores atlas p s u

/-- A formula that is explored from a cell demands the cell, or one that is under evaluation. -/
def ClosesCycle (atlas : Atlas Page) (p : Progress) (key : CellKey) : Prop :=
  ∃ s, atlas.Explores p (p.site key) s ∧ ∃ other ∈ key :: p.stack, atlas.Demands s (p.site other)

end Atlas

namespace Workbook

/-- No formula on a page calls a lazy function. -/
def Strict (w : Workbook) : Prop :=
  ∀ (page : PageRef) (found : Page) (a : Address) (e : Expr), w.find page = .ok found →
    found.sheet.expr? a = some e → e.Strict w.library

theorem Strict.loaded (strict : w.Strict) (faithful : r.Faithful w) {e : Expr}
    (parsed : (r.atlas w).expr? k = some e) : e.Strict w.library := by
  obtain ⟨page, isPage, member⟩ := Progress.exists_page (Progress.isFormula_of_expr? parsed).loaded
  obtain ⟨found, leads⟩ := faithful.pages page member
  refine strict found _ k.address e leads ?_
  rw [Atlas.expr?, Progress.atlas_sheet, Progress.sheet_of_page isPage] at parsed
  exact parsed

end Workbook

namespace Pass

/-- What a formula demands is finished, or under evaluation; and if it is the first cell or one that
was under evaluation already, the first cell is found to lie on a cycle. What it reads inside its page
is finished or under evaluation. -/
structure Covered (w : Workbook) (p : Progress) (key : CellKey) (r : Progress) (k : CellKey) : Prop where
  demanded : ∀ t, w.atlas.Demands (r.site k) t → (w.atlas.input t).isFormula →
    ∃ other, r.site other = t ∧ (other ∈ r.memo ∨ other ∈ r.stack) ∧
      (other ∈ key :: p.stack → key ∈ r.circular)
  inside : ∀ t, w.atlas.ReadsInside (r.site k) t → (w.atlas.input t).isFormula →
    ∃ other, r.site other = t ∧ (other ∈ r.memo ∨ other ∈ r.stack)

/-- What holds while the formula of a cell is evaluated that was entered in the state `p`. -/
structure Exploring (w : Workbook) (p : Progress) (key : CellKey) (r : Progress) : Prop where
  stack : ∃ above, r.stack = above ++ key :: p.stack ∧
    ∀ k ∈ above, w.atlas.Explores p (p.site key) (r.site k)
  blamed : key ∈ r.circular → w.atlas.ClosesCycle p key
  covered : ∀ k ∈ r.memo, k ∉ p.memo → ¬ w.atlas.OnCycle (r.site k) → Covered w p key r k

/-! ## What is read is finished -/

theorem Covered.grows (covered : Covered w p key r k) (valid : w.pass.Valid r)
    (grows : r.Grows r') (loaded : k.page < r.pages.size) (unfinished : key ∉ r'.memo) :
    Covered w p key r' k := by
  -- Finished cells stay finished, and those under evaluation are finished or still are.
  have still {other : CellKey} (settled : other ∈ r.memo ∨ other ∈ r.stack) :
      r'.site other = r.site other ∧ (other ∈ r'.memo ∨ other ∈ r'.stack) := by
    rcases settled with finished | entered
    · exact ⟨grows.site (valid.finished other finished).loaded, .inl (grows.mem_memo finished)⟩
    · exact ⟨grows.site (valid.entered other entered).1.loaded, (grows.waiting other entered).symm⟩
  refine ⟨fun t demands formula => ?_, fun t reads formula => ?_⟩
  · rw [grows.site loaded] at demands
    obtain ⟨other, isT, settled, closes⟩ := covered.demanded t demands formula
    obtain ⟨sameSite, settled'⟩ := still settled
    refine ⟨other, sameSite.trans isT, settled', fun open' => ?_⟩
    exact (grows.marked key (closes open')).resolve_right unfinished
  · rw [grows.site loaded] at reads
    obtain ⟨other, isT, settled⟩ := covered.inside t reads formula
    obtain ⟨sameSite, settled'⟩ := still settled
    exact ⟨other, sameSite.trans isT, settled'⟩

/-- A strict formula that is all evaluated has got an answer from whatever it demands. -/
theorem Computed.exists_answers (strict : w.Strict) (valid : w.pass.Valid r) (faithful : r.Faithful w)
    (computed : w.pass.Computed r k v) (demands : w.atlas.Demands (r.site k) t) :
    ∃ other u, r.site other = t ∧ w.pass.Answers r other u := by
  obtain ⟨e, parsed, ref, member, target⟩ := demands
  obtain ⟨source, typed, isTree⟩ := Atlas.exists_of_expr? parsed
  rw [Progress.input_site] at typed
  cases computed with
  | fault typedToo parsedToo =>
    cases typed.symm.trans typedToo
    cases isTree.symm.trans parsedToo
  | value typedToo parsedToo yields =>
    cases typed.symm.trans typedToo
    cases isTree.symm.trans parsedToo
    obtain ⟨x, resolved, gives⟩ :=
      (surely_plan e (strict.loaded faithful parsed) member).answered yields
    obtain ⟨other, seen, isT⟩ :=
      Progress.exists_of_target_site faithful valid.toPlaced resolved target
    obtain ⟨u, answers⟩ := gives.exists_reads seen
    exact ⟨other, u, isT, answers⟩

/-- A formula that answers is finished or under evaluation, and if it was entered no later than the
first cell, a cycle was closed. -/
theorem Answers.settled {above : List CellKey} (valid : w.pass.Valid r)
    (stackIs : r.stack = above ++ key :: p.stack) (answers : w.pass.Answers r k v)
    (formula : (w.atlas.input (r.site k)).isFormula) :
    (k ∈ r.memo ∨ k ∈ r.stack) ∧ (k ∈ key :: p.stack → key ∈ r.circular) := by
  cases answers with
  | finished known =>
    refine ⟨.inl (mem_of_known known), fun isOpen => ?_⟩
    have inStack : k ∈ r.stack := by
      rw [stackIs]
      exact List.mem_append_right _ isOpen
    exact absurd (mem_of_known known) (valid.entered k inStack).2
  | typed loaded literal =>
    rw [Progress.input_site] at formula
    cases shape : r.input k <;> simp_all [Input.literal?, Input.isFormula]
  | waiting inStack marked =>
    -- Closing the cycle marked everything above the cell, the first cell included.
    refine ⟨.inr inStack, fun isOpen => marked key ?_⟩
    rw [stackIs] at inStack ⊢
    exact (mem_cons_takeWhile_iff (stackIs ▸ valid.distinct) inStack).2 isOpen
  | tooDeep isFormula outside asked deep =>
    obtain ⟨limit, noLimit, -⟩ := deep
    cases noLimit

theorem Valid.settled_inside (valid : w.pass.Valid r) (entered : k ∈ r.stack)
    (reads : w.atlas.ReadsInside (r.site k) t) (formula : (w.atlas.input t).isFormula) :
    ∃ other, r.site other = t ∧ (other ∈ r.memo ∨ other ∈ r.stack) := by
  obtain ⟨samePage, reads⟩ := reads
  have isT : r.site ⟨k.page, t.address⟩ = t := by
    cases t
    exact congrArg (Site.mk · _) samePage.symm
  refine ⟨⟨k.page, t.address⟩, isT, ?_⟩
  have settled := valid.settled k entered t.address reads
  rw [Progress.isPending_iff, not_and] at settled
  have formula : r.IsFormula ⟨k.page, t.address⟩ := by
    rw [← isT] at formula
    exact formula
  by_contra neither
  exact settled formula (not_or.1 neither)

theorem covered_of_computed {above : List CellKey} (strict : w.Strict) (valid : w.pass.Valid r)
    (faithful : r.Faithful w) (stackIs : r.stack = above ++ key :: p.stack)
    (innermost : r.stack.head? = some k) (computed : w.pass.Computed r k v) :
    Covered w p key r k where
  demanded t demands formula := by
    obtain ⟨other, u, rfl, answers⟩ := computed.exists_answers strict valid faithful demands
    exact ⟨other, rfl, answers.settled valid stackIs formula⟩
  inside t reads formula := valid.settled_inside (List.mem_of_head? innermost) reads formula

/-! ## What is entered is explored -/

/-- A cell that is pending after the first one was entered was pending before. -/
theorem Exploring.open_of_pending (exploring : Exploring w p key r) (start : w.pass.Valid p)
    (valid : w.pass.Valid r) (grows : p.Grows r) (pending : r.isPending k) :
    w.atlas.Open p (r.site k) := by
  obtain ⟨above, stackIs, -⟩ := exploring.stack
  obtain ⟨formula, notFinished, notEntered⟩ := Progress.isPending_iff.1 pending
  have loaded := formula.loaded
  have unfinished : k ∉ p.memo := fun finished => notFinished (grows.mem_memo finished)
  have outside : k ∉ p.stack := by
    intro below
    refine notEntered ?_
    rw [stackIs]
    exact List.mem_append_right _ (List.mem_cons_of_mem _ below)
  -- A site is that of one cell only, at whatever time it is looked at.
  have notEarlier (other : CellKey) (loadedBefore : other.page < p.pages.size)
      (same : p.site other = r.site k) : other = k := by
    rw [← grows.site loadedBefore] at same
    exact valid.site_injective (Nat.lt_of_lt_of_le loadedBefore grows.size) loaded same
  refine ⟨valid.not_onCycle pending, ?_, fun other entered same => outside ?_⟩
  · rintro ⟨other, finished, same⟩
    exact unfinished (notEarlier other (start.finished other finished).loaded same ▸ finished)
  · exact notEarlier other (start.entered other entered).1.loaded same ▸ entered

theorem Exploring.explores (exploring : Exploring w p key r) (grows : p.Grows r)
    (pending : p.isPending key) (innermost : k ∈ r.stack.head?) :
    w.atlas.Explores p (p.site key) (r.site k) := by
  obtain ⟨above, stackIs, explored⟩ := exploring.stack
  rw [stackIs] at innermost
  cases above with
  | nil =>
    cases innermost
    rw [grows.site (Progress.isPending_iff.1 pending).1.loaded]
    exact .start
  | cons top above =>
    cases innermost
    exact explored k List.mem_cons_self

/-! ## Moves -/

theorem Exploring.stays_covered (exploring : Exploring w p key r) (valid : w.pass.Valid r)
    (onward : r.Grows r') (unfinished : key ∉ r'.memo) (finished : k ∈ r.memo) (new : k ∉ p.memo)
    (offCycle : ¬ w.atlas.OnCycle (r'.site k)) : Covered w p key r' k := by
  have loaded := (valid.finished k finished).loaded
  rw [onward.site loaded] at offCycle
  exact (exploring.covered k finished new offCycle).grows valid onward loaded unfinished

theorem Exploring.enter {a : Address} (exploring : Exploring w p key r)
    (start : w.pass.Valid p) (valid : w.pass.Valid r) (faithful : r.Faithful w) (grows : p.Grows r)
    (pending : p.isPending key) (asked : w.pass.AskedAcross r ⟨k.page, a⟩)
    (askedPending : r.isPending ⟨k.page, a⟩)
    (path : Relation.ReflTransGen (r.ReadsPending k.page) a k.address)
    (unfinished : key ∉ (r.enter k).memo) : Exploring w p key (r.enter k) := by
  have opens {b : Address} (pendingB : r.isPending ⟨k.page, b⟩) :
      w.atlas.Open p (r.site ⟨k.page, b⟩) := exploring.open_of_pending start valid grows pendingB
  obtain ⟨above, stackIs, explored⟩ := exploring.stack
  have first : w.atlas.Explores p (p.site key) (r.site ⟨k.page, a⟩) := by
    obtain ⟨top, rest, split⟩ := List.exists_cons_of_ne_nil
      (show r.stack ≠ [] by rw [stackIs]; exact List.append_ne_nil_of_right_ne_nil _ (by simp))
    rw [AskedAcross, split] at asked
    have innermost : top ∈ r.stack.head? := by simp [split]
    refine .demand (exploring.explores grows pending innermost) ?_ (opens askedPending)
    exact faithful.demands valid.toPlaced asked.demands
  -- The cell that was asked for is demanded, and from there pending reads lead inside the page.
  have onward {b : Address} (path : Relation.ReflTransGen (r.ReadsPending k.page) a b) :
      w.atlas.Explores p (p.site key) (r.site ⟨k.page, b⟩) := by
    induction path with
    | refl => exact first
    | tail _ step ih => exact .inside ih ⟨rfl, step.1⟩ (opens step.2)
  have explores : ∀ other ∈ k :: above, w.atlas.Explores p (p.site key) (r.site other) :=
    List.forall_mem_cons.2 ⟨onward path, explored⟩
  exact ⟨⟨k :: above, congrArg (k :: ·) stackIs, explores⟩, exploring.blamed,
    fun _ finished new offCycle =>
      exploring.stays_covered valid enter_grows unfinished finished new offCycle⟩

/-- A cycle that is closed at the first cell, or at one that was under evaluation before, is closed by a
formula that was explored. -/
theorem Exploring.closes (exploring : Exploring w p key r) (start : w.pass.Valid p)
    (valid : w.pass.Valid r) (faithful : r.Faithful w) (grows : p.Grows r) (pending : p.isPending key)
    (entered : k ∈ r.stack) (asked : w.pass.Asked r k) (new : key ∈ k :: r.stack.takeWhile (· ≠ k)) :
    w.atlas.ClosesCycle p key := by
  obtain ⟨above, stackIs, -⟩ := exploring.stack
  obtain ⟨top, rest, split⟩ := List.exists_cons_of_ne_nil (List.ne_nil_of_mem entered)
  rw [Asked, split] at asked
  rw [stackIs] at new entered
  -- The first cell is marked only if the cycle was closed at it or below it.
  have isOpen := (mem_cons_takeWhile_iff (stackIs ▸ valid.distinct) entered).1 new
  have innermost : top ∈ r.stack.head? := by simp [split]
  refine ⟨r.site top, exploring.explores grows pending innermost, k, isOpen, ?_⟩
  have loaded : k.page < p.pages.size := by
    rcases List.mem_cons.1 isOpen with rfl | below
    · exact (Progress.isPending_iff.1 pending).1.loaded
    · exact (start.entered k below).1.loaded
  rw [← grows.site loaded]
  exact faithful.demands valid.toPlaced asked

theorem Exploring.of_grows (exploring : Exploring w p key r) (valid : w.pass.Valid r)
    (onward : r.Grows r') (unfinished : key ∉ r'.memo) (sameStack : r'.stack = r.stack)
    (blamed : key ∈ r'.circular → w.atlas.ClosesCycle p key)
    (before : ∀ k ∈ r'.memo, ¬ w.atlas.OnCycle (r'.site k) → k ∈ r.memo) :
    Exploring w p key r' where
  stack := by
    obtain ⟨above, stackIs, explored⟩ := exploring.stack
    refine ⟨above, sameStack.trans stackIs, fun k member => ?_⟩
    have inStack : k ∈ r.stack := by
      rw [stackIs]
      exact List.mem_append_left _ member
    rw [onward.site (valid.entered k inStack).1.loaded]
    exact explored k member
  blamed := blamed
  covered k finished new offCycle :=
    exploring.stays_covered valid onward unfinished (before k finished offCycle) new offCycle

theorem Exploring.leave (exploring : Exploring w p key r) (strict : w.Strict) (valid : w.pass.Valid r)
    (faithful : r.Faithful w) (innermost : r.stack.head? = some k) (computed : w.pass.Computed r k v)
    (unfinished : key ∉ (r.leave k v).2.memo) : Exploring w p key (r.leave k v).2 := by
  have onward := leave_grows (v := v) valid innermost
  obtain ⟨above, stackIs, explored⟩ := exploring.stack
  have covered := covered_of_computed strict valid faithful stackIs innermost computed
  have tailIs := stack_eq_cons (v := v) innermost
  cases above with
  | nil =>
    -- The first cell itself would be finished.
    rw [stackIs] at innermost
    cases innermost
    exact absurd (mem_leave_memo.2 (.inl rfl)) unfinished
  | cons top above =>
    rw [stackIs, List.cons_append, List.cons.injEq] at tailIs
    obtain ⟨rfl, rest⟩ := tailIs
    refine ⟨⟨above, rest.symm, fun k member => explored k (List.mem_cons_of_mem _ member)⟩,
      fun isMarked => exploring.blamed (mem_leave_circular.1 isMarked).2,
      fun k finished new offCycle => ?_⟩
    rcases mem_leave_memo.1 finished with rfl | before
    · have entered := valid.entered k (List.mem_of_head? innermost)
      exact covered.grows valid onward entered.1.loaded unfinished
    · exact exploring.stays_covered valid onward unfinished before new offCycle

theorem Step.exploring (strict : w.Strict) (start : w.pass.Valid p) (valid : w.pass.Valid r)
    (faithful : r.Faithful w) (grows : p.Grows r) (pending : p.isPending key) (step : w.pass.Step r r')
    (unfinished : key ∉ r'.memo) (exploring : Exploring w p key r) : Exploring w p key r' := by
  have onward := step.grows valid
  cases step with
  | parse source =>
    exact exploring.of_grows valid onward unfinished rfl exploring.blamed fun _ finished _ => finished
  | resolve page =>
    refine exploring.of_grows valid onward unfinished Progress.resolve_stack (fun isMarked => ?_)
      fun k finished offCycle => ?_
    · rw [Progress.resolve_circular] at isMarked
      exact exploring.blamed isMarked
    · obtain ⟨v, known⟩ := mem_iff_exists.1 finished
      rcases Progress.memo_of_resolve known with before | ⟨-, onCycle⟩
      · exact mem_of_known before
      · exact absurd onCycle offCycle
  | @close k entered asked =>
    refine exploring.of_grows valid onward unfinished rfl (fun isMarked => ?_)
      fun _ finished _ => finished
    rcases closeCycle_circular.1 isMarked with before | new
    · exact exploring.blamed before
    · exact exploring.closes start valid faithful grows pending entered asked new
  | enter pendingK settled asked askedPending path =>
    exact exploring.enter start valid faithful grows pending asked askedPending path unfinished
  | leave innermost computed =>
    exact exploring.leave strict valid faithful innermost computed unfinished

theorem exploring_enter (valid : w.pass.Valid p) (pending : p.isPending key) :
    Exploring w p key (p.enter key) where
  stack := ⟨[], rfl, fun k member => absurd member List.not_mem_nil⟩
  blamed isMarked := by
    have inStack := (valid.marked key isMarked).1
    exact absurd inStack (Progress.isPending_iff.1 pending).2.2
  covered k finished new := absurd finished new

theorem Steps.exploring (coherent : w.Coherent) (strict : w.Strict) (start : w.pass.Valid p)
    (faithful : p.Faithful w) (pending : p.isPending key) (entered : w.pass.Valid (p.enter key))
    (steps : w.pass.Steps (p.enter key) r) (unfinished : key ∉ r.memo) : Exploring w p key r := by
  induction steps with
  | refl => exact exploring_enter start pending
  | @tail q r steps step ih =>
    have valid := Steps.valid entered steps
    have faithful := Steps.faithful coherent entered steps ⟨faithful.pages, faithful.resolutions⟩
    refine step.exploring strict start valid faithful (enter_grows.trans (Steps.grows entered steps))
      pending unfinished (ih ?_)
    exact fun finished => unfinished ((step.grows valid).mem_memo finished)

/-- When the first cell is innermost again, the same formulas are under evaluation as before. -/
theorem Exploring.stack_of_innermost (exploring : Exploring w p key r) (valid : w.pass.Valid r)
    (innermost : r.stack.head? = some key) : r.stack = key :: p.stack := by
  obtain ⟨above, stackIs, -⟩ := exploring.stack
  have distinct := valid.distinct
  rw [stackIs] at innermost distinct ⊢
  cases above with
  | nil => rfl
  | cons top above =>
    cases innermost
    exact absurd (List.mem_append_right _ List.mem_cons_self) (List.nodup_cons.1 distinct).1

/-! ## What is explored is finished -/

/-- When the formula of the first cell is all evaluated, every formula that is explored is that of the
first cell or finished. -/
theorem Exploring.finished (exploring : Exploring w p key r) (start : w.pass.Valid p)
    (grows : p.Grows r) (pending : p.isPending key)
    (stackIs : r.stack = key :: p.stack) (covered : Covered w p key r key)
    (explores : w.atlas.Explores p (p.site key) s) (formula : (w.atlas.input s).isFormula) :
    ∃ k, r.site k = s ∧ Covered w p key r k := by
  have atKey : r.site key = p.site key := grows.site (Progress.isPending_iff.1 pending).1.loaded
  -- A formula that is read and open is the first one, or it was finished since.
  have next {t : Site Page} (isOpen : w.atlas.Open p t)
      (read : ∃ other, r.site other = t ∧ (other ∈ r.memo ∨ other ∈ r.stack)) :
      ∃ k, r.site k = t ∧ Covered w p key r k := by
    obtain ⟨other, rfl, settled⟩ := read
    refine ⟨other, rfl, ?_⟩
    rcases settled with finished | inStack
    · refine exploring.covered other finished (fun before => isOpen.2.1 ⟨other, before, ?_⟩) isOpen.1
      exact (grows.site (start.finished other before).loaded).symm
    · rw [stackIs] at inStack
      rcases List.mem_cons.1 inStack with rfl | below
      · exact covered
      · exact absurd (grows.site (start.entered other below).1.loaded).symm (isOpen.2.2 other below)
  have isFormula {t u : Site Page} (reads : w.atlas.Reads t u) : (w.atlas.input t).isFormula := by
    obtain ⟨e, parsed, -⟩ := reads
    exact Sheet.isFormula_of_expr? parsed
  induction explores with
  | start => exact ⟨key, atKey, covered⟩
  | demand path step isOpen ih =>
    obtain ⟨k, rfl, coveredK⟩ := ih (isFormula step.reads)
    obtain ⟨other, isT, settled, -⟩ := coveredK.demanded _ step formula
    exact next isOpen ⟨other, isT, settled⟩
  | inside path step isOpen ih =>
    obtain ⟨k, rfl, coveredK⟩ := ih (isFormula step.reads)
    exact next isOpen (coveredK.inside _ step formula)

/-- When its formula is all evaluated, the first cell is found to lie on a cycle if and only if a
formula that was explored closes one. -/
theorem Exploring.marked_iff (exploring : Exploring w p key r) (start : w.pass.Valid p)
    (valid : w.pass.Valid r) (grows : p.Grows r) (pending : p.isPending key)
    (stackIs : r.stack = key :: p.stack) (covered : Covered w p key r key) :
    key ∈ r.circular ↔ w.atlas.ClosesCycle p key := by
  refine ⟨exploring.blamed, ?_⟩
  rintro ⟨s, explores, other, isOpen, demands⟩
  have formulaS : (w.atlas.input s).isFormula := by
    obtain ⟨e, parsed, -⟩ := demands
    exact Sheet.isFormula_of_expr? parsed
  obtain ⟨k, rfl, coveredK⟩ := exploring.finished start grows pending stackIs covered explores
    formulaS
  have formula : p.IsFormula other := by
    rcases List.mem_cons.1 isOpen with rfl | below
    · exact (Progress.isPending_iff.1 pending).1
    · exact (start.entered other below).1
  obtain ⟨other', same, settled, closes⟩ := coveredK.demanded _ demands formula
  -- The site that is demanded is that of `other` alone, so this read closed a cycle.
  refine closes ?_
  have loaded : other'.page < r.pages.size := by
    rcases settled with finished | inStack
    · exact (valid.finished other' finished).loaded
    · exact (valid.entered other' inStack).1.loaded
  rw [← grows.site formula.loaded] at same
  have sameKey := valid.site_injective loaded (Nat.lt_of_lt_of_le formula.loaded grows.size) same
  exact sameKey ▸ isOpen

/-- A formula that is left, all evaluated, ends as one on a cycle if and only if a formula that was
explored closes one. -/
theorem circular_iff_of_computed (law : ValueLaw w.library Value.Ordinary) (sound : w.pass.Sound r)
    (exploring : Exploring w p key r) (start : w.pass.Valid p) (valid : w.pass.Valid r)
    (grows : p.Grows r) (pending : p.isPending key) (stackIs : r.stack = key :: p.stack)
    (covered : Covered w p key r key) (computed : w.pass.Computed r key v) :
    (∃ e, (r.leave key v).2.memo[key]? = some (.error e) ∧ e.kind = .circular) ↔
      w.atlas.ClosesCycle p key := by
  rw [← exploring.marked_iff start valid grows pending stackIs covered, leave_memo, if_pos rfl]
  by_cases isMarked : key ∈ r.circular
  · exact iff_of_true ⟨_, congrArg some (leave_marked isMarked), rfl⟩ isMarked
  · refine iff_of_false ?_ isMarked
    rintro ⟨e, isError, isCircular⟩
    rw [leave_unmarked isMarked] at isError
    cases isError
    cases computed.ordinary law sound with
    | error ordinary => exact ordinary isCircular

/-! ## Entering and leaving -/

/-- Every formula under evaluation was entered when its turn had come. -/
theorem Steps.exists_turn (steps : w.pass.Steps q r) (outside : key ∉ q.stack) (inside : key ∈ r.stack) :
    ∃ p, w.pass.Steps q p ∧ w.pass.Turn p key ∧ w.pass.Steps (p.enter key) r := by
  induction steps with
  | refl => exact absurd inside outside
  | @tail r r' steps step ih =>
    have earlier (before : key ∈ r.stack) :
        ∃ p, w.pass.Steps q p ∧ w.pass.Turn p key ∧ w.pass.Steps (p.enter key) r' := by
      obtain ⟨p, reached, turn, onward⟩ := ih before
      exact ⟨p, reached, turn, onward.tail step⟩
    cases step with
    | parse | close => exact earlier inside
    | resolve page => exact earlier (Progress.resolve_stack (w := w) ▸ inside)
    | @enter other a pending settled asked askedPending path =>
      rcases List.mem_cons.1 inside with rfl | below
      · exact ⟨r, steps, ⟨pending, settled, a, asked, askedPending, path⟩, .refl⟩
      · exact earlier below
    | leave innermost computed => exact earlier (List.mem_of_mem_tail inside)

/-- Every finished formula off cycles of its page was left, all evaluated. -/
theorem Steps.exists_computed (valid : w.pass.Valid q) (steps : w.pass.Steps q r)
    (unfinished : key ∉ q.memo) (finished : key ∈ r.memo)
    (offCycle : ¬ (r.sheet key.page).OnCycle key.address) :
    ∃ p v, w.pass.Steps q p ∧ p.stack.head? = some key ∧ w.pass.Computed p key v ∧
      w.pass.Steps (p.leave key v).2 r := by
  induction steps with
  | refl => exact absurd finished unfinished
  | @tail r r' steps step ih =>
    have valid' := Steps.valid valid steps
    have earlier (before : key ∈ r.memo) : ∃ p v, w.pass.Steps q p ∧ p.stack.head? = some key ∧
        w.pass.Computed p key v ∧ w.pass.Steps (p.leave key v).2 r' := by
      rw [(step.grows valid').sheet (valid'.finished key before).loaded] at offCycle
      obtain ⟨p, v, reached, innermost, computed, onward⟩ := ih before offCycle
      exact ⟨p, v, reached, innermost, computed, onward.tail step⟩
    cases step with
    | parse | close | enter => exact earlier finished
    | resolve page =>
      obtain ⟨v, known⟩ := mem_iff_exists.1 finished
      rcases Progress.memo_of_resolve known with before | ⟨-, onCycle⟩
      · exact earlier (mem_of_known before)
      · exact absurd onCycle offCycle
    | @leave other v innermost computed =>
      rcases mem_leave_memo.1 finished with rfl | before
      · exact ⟨r, v, steps, innermost, computed, .refl⟩
      · exact earlier before

end Pass

namespace Workbook

/-- The evaluation of the sheet enters the formula of a cell in the state `p`. -/
structure Enters (w : Workbook) (cache : ParseCache) (p : Progress) (key : CellKey) : Prop where
  reached : w.pass.Steps (w.begin cache) p
  turn : w.pass.Turn p key
  onward : w.pass.Steps (p.enter key) (w.finalState cache)

theorem exists_enters {cache : ParseCache} (steps : w.pass.Steps (w.begin cache) (w.finalState cache))
    (finished : key ∈ (w.finalState cache).memo)
    (offCycle : ¬ ((w.finalState cache).sheet key.page).OnCycle key.address) :
    ∃ p, w.Enters cache p key := by
  have begun := w.pass.valid_begin cache
  by_cases before : key ∈ (w.begin cache).memo
  · have grows := Pass.Steps.grows begun steps
    rw [grows.sheet (begun.finished key before).loaded] at offCycle
    obtain ⟨v, known⟩ := mem_iff_exists.1 before
    rcases Progress.memo_of_load known with earlier | ⟨-, onCycle⟩
    · simp [Progress.start] at earlier
    · exact absurd onCycle offCycle
  · obtain ⟨r, v, reached, innermost, computed, onward⟩ :=
      Pass.Steps.exists_computed begun steps before finished offCycle
    obtain ⟨p, reachedP, turn, toR⟩ :=
      Pass.Steps.exists_turn reached List.not_mem_nil (List.mem_of_head? innermost)
    exact ⟨p, reachedP, turn, (toR.tail (.leave innermost computed)).trans onward⟩

/-- A formula that is entered ends as one on a cycle if and only if a formula that can be explored
from it reads it again, or reads one that is under evaluation already. -/
theorem Enters.circular_iff {cache : ParseCache} (law : ValueLaw w.library Value.Ordinary)
    (coherent : w.Coherent) (strict : w.Strict) (enters : w.Enters cache p key)
    (finished : key ∈ (w.finalState cache).memo) :
    (∃ e, (w.finalState cache).memo[key]? = some (.error e) ∧ e.kind = .circular) ↔
      w.atlas.ClosesCycle p key := by
  have begun := w.pass.valid_begin cache
  have start := Pass.Steps.valid begun enters.reached
  have faithful := Pass.Steps.faithful coherent begun enters.reached (Progress.begin_faithful w cache)
  have pending := enters.turn.pending
  have entered := enters.turn.step.valid start
  have offCycle : ¬ ((w.finalState cache).sheet key.page).OnCycle key.address := by
    have grows := Pass.Steps.grows entered enters.onward
    rw [grows.sheet (Progress.isPending_iff.1 pending).1.loaded]
    exact start.not_onCycle pending
  -- The formula is left in a state `r`, with nothing under evaluation that was entered after it.
  obtain ⟨r, v, steps, innermost, computed, onward⟩ := Pass.Steps.exists_computed entered
    enters.onward (Progress.isPending_iff.1 pending).2.1 finished offCycle
  have valid := Pass.Steps.valid entered steps
  have grows := Pass.enter_grows.trans (Pass.Steps.grows entered steps)
  have unfinished := (valid.entered key (List.mem_of_head? innermost)).2
  have exploring := Pass.Steps.exploring coherent strict start faithful pending entered steps unfinished
  have stackIs := exploring.stack_of_innermost valid innermost
  have faithfulR := Pass.Steps.faithful coherent entered steps
    ⟨faithful.pages, faithful.resolutions⟩
  have covered := Pass.covered_of_computed strict valid faithfulR
    (show r.stack = [] ++ key :: p.stack from stackIs) innermost computed
  have sound := Pass.Steps.sound law begun
    ((enters.reached.tail enters.turn.step).trans steps) (w.pass.sound_begin cache)
  rw [← Pass.circular_iff_of_computed law sound exploring start valid grows pending stackIs covered
    computed]
  -- What it is left with is kept to the end.
  have left : ((r.leave key v).2).memo[key]? = some (r.leave key v).1 :=
    Pass.leave_memo.trans (if_pos rfl)
  have validLeft := Pass.Step.valid valid (.leave innermost computed)
  rw [(Pass.Steps.grows validLeft onward).memo _ _ left, left]

/-- A finished formula ends as one on a cycle if and only if it lies on a cycle of its page or was
entered in a state in which a formula that could be explored from it read it again, or read one that
was under evaluation. -/
theorem circular_iff_closesCycle (w : Workbook) (cache : ParseCache) (builtin : w.library = .builtin)
    (coherent : w.Coherent) (strict : w.Strict) (unused : w.DepthUnused cache) (key : CellKey)
    (finished : key ∈ (w.finalState cache).memo) :
    (∃ e, (w.finalState cache).memo[key]? = some (.error e) ∧ e.kind = .circular) ↔
      w.atlas.OnCycle ((w.finalState cache).site key) ∨
        ∃ p, w.Enters cache p key ∧ w.atlas.ClosesCycle p key := by
  have law : ValueLaw w.library Value.Ordinary := builtin ▸ Library.builtin_ordinary
  have steps := unused.run.1.steps
  by_cases onCycle : w.atlas.OnCycle ((w.finalState cache).site key)
  · have valid := Pass.Steps.valid (w.pass.valid_begin cache) steps
    exact iff_of_true ⟨_, valid.premarked key.page key.address onCycle, rfl⟩ (.inl onCycle)
  · rw [or_iff_right onCycle]
    constructor
    · intro circular
      obtain ⟨p, enters⟩ := exists_enters steps finished onCycle
      exact ⟨p, enters, (enters.circular_iff law coherent strict finished).1 circular⟩
    · rintro ⟨p, enters, closes⟩
      exact (enters.circular_iff law coherent strict finished).2 closes

theorem strict_cycleAcross : cycleAcross.Strict := by
  intro r page a e found parsed
  have onlyReference : ∃ r, e = .reference r := by
    rcases find_ofTwo found with rfl | rfl
    · have entry := Sheet.leaving_expr?_iff.1 parsed
      simp only [List.mem_cons, Prod.mk.injEq, List.not_mem_nil, or_false] at entry
      obtain ⟨-, rfl⟩ | ⟨-, rfl⟩ | ⟨-, rfl⟩ := entry <;> exact ⟨_, rfl⟩
    · cases List.mem_singleton.1 (Sheet.returning_expr?_iff.1 parsed)
      exact ⟨_, rfl⟩
  obtain ⟨r, rfl⟩ := onlyReference
  trivial

/-- The second cell of a cycle that leaves the page of the root is found to lie on it, although it lies on no cycle
of its page. The first one is not: when it is entered, the second one is finished, and nothing is explored there. -/
theorem circular_iff_closesCycle_cycleAcross :
    (¬ cycleAcross.atlas.OnCycle ((cycleAcross.finalState cycleCache).site ⟨Progress.root, ⟨0, 1⟩⟩) ∧
      ∃ p, cycleAcross.Enters cycleCache p ⟨Progress.root, ⟨0, 1⟩⟩ ∧
        cycleAcross.atlas.ClosesCycle p ⟨Progress.root, ⟨0, 1⟩⟩) ∧
    ¬ ∃ p, cycleAcross.Enters cycleCache p ⟨Progress.root, ⟨0, 0⟩⟩ ∧
      cycleAcross.atlas.ClosesCycle p ⟨Progress.root, ⟨0, 0⟩⟩ := by
  have unused : cycleAcross.DepthUnused cycleCache := (depthUnused_of_shelf rfl (by decide +kernel)).1 _
  have middle := cycleAcross.known_of_memo_shown rfl cycleCache ⟨Progress.root, ⟨0, 1⟩⟩ .circular
    (by decide +kernel)
  have first := cycleAcross.known_of_memo_shown rfl cycleCache ⟨Progress.root, ⟨0, 0⟩⟩
    CellError.circular.propagated (by decide +kernel)
  have valid := Pass.Steps.valid (cycleAcross.pass.valid_begin cycleCache) unused.run.1.steps
  have offCycle (a : Address) : ¬ cycleAcross.atlas.OnCycle ((cycleAcross.finalState cycleCache).site
      ⟨Progress.root, a⟩) := by
    rw [Progress.site, Progress.pageAt_root valid.toPlaced]
    exact Sheet.not_onCycle_leaving
  have exact' (key : CellKey) := circular_iff_closesCycle cycleAcross cycleCache rfl (coherent_ofTwo _ _)
    strict_cycleAcross unused key
  constructor
  · exact ⟨offCycle _, ((exact' _ (mem_of_known middle)).1 ⟨_, middle, rfl⟩).resolve_left (offCycle _)⟩
  · intro closes
    obtain ⟨e, known, isCircular⟩ := (exact' _ (mem_of_known first)).2 (.inr closes)
    cases first.symm.trans known
    cases isCircular

end Workbook
end PageCalc

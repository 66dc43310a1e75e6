import PageCalc.Proofs.Evaluation.Pages

/-!
# Finished cells mean their values

Every value that an evaluation without a limit keeps follows from the equations of its pages, where
the marked sites are those that were found to lie on cycles.
-/

namespace PageCalc

open Collection

namespace Progress

variable {w : Workbook} {p p' : Progress} {key : CellKey} {v : Value} {s : Site Page}

/-- The site is that of a finished cell. -/
def Known (p : Progress) (s : Site Page) : Prop := ∃ key ∈ p.memo, p.site key = s

/-- The site is that of a cell that is finished with the value. -/
def Holds (p : Progress) (s : Site Page) (v : Value) : Prop :=
  ∃ key, p.memo[key]? = some v ∧ p.site key = s

theorem Known.exists_holds (isKnown : p.Known s) : ∃ v, p.Holds s v := by
  obtain ⟨key, member, same⟩ := isKnown
  obtain ⟨v, known⟩ := mem_iff_exists.1 member
  exact ⟨v, key, known, same⟩

/-- The site lies on a cycle, and is that of a cell that is finished with this. -/
def Marked (w : Workbook) (p : Progress) (s : Site Page) : Prop :=
  p.Holds s (.error .circular) ∧ w.atlas.DependsOn s s

/-- Every finished cell has a value that it means. -/
def Explained (w : Workbook) (p : Progress) : Prop :=
  ∀ (key : CellKey) (v : Value), p.memo[key]? = some v →
    w.atlas.Means p.Known (p.Marked w) (p.site key) v

theorem Grows.known (grows : p.Grows p') (kept : p.Kept) (isKnown : p.Known s) : p'.Known s := by
  obtain ⟨key, member, rfl⟩ := isKnown
  exact ⟨key, grows.mem_memo member, grows.site (kept.finished key member).loaded⟩

theorem Grows.marked_iff (grows : p.Grows p') (kept : p.Kept) (kept' : p'.Kept)
    (isKnown : p.Known s) : p.Marked w s ↔ p'.Marked w s := by
  constructor
  · rintro ⟨⟨key, known, rfl⟩, onCycle⟩
    have loaded := (kept.finished key (mem_of_known known)).loaded
    exact ⟨⟨key, grows.memo key _ known, grows.site loaded⟩, onCycle⟩
  · rintro ⟨⟨key, known, same⟩, onCycle⟩
    obtain ⟨other, member, rfl⟩ := isKnown
    have loaded := (kept.finished other member).loaded
    rw [← grows.site loaded] at same
    have sameKey := kept'.site_injective (kept'.finished key (mem_of_known known)).loaded
      (Nat.lt_of_lt_of_le loaded grows.size) same
    subst sameKey
    obtain ⟨v, knownBefore⟩ := mem_iff_exists.1 member
    have sameValue := (grows.memo key v knownBefore).symm.trans known
    exact ⟨⟨key, knownBefore.trans sameValue, rfl⟩, onCycle⟩

theorem Grows.means (grows : p.Grows p') (kept : p.Kept) (kept' : p'.Kept)
    (means : w.atlas.Means p.Known (p.Marked w) s v) :
    w.atlas.Means p'.Known (p'.Marked w) s v :=
  means.mono (fun _ => grows.known kept) fun _ => grows.marked_iff kept kept'

theorem Explained.grows (explained : p.Explained w) (grows : p.Grows p') (kept : p.Kept)
    (kept' : p'.Kept) (known : p.memo[key]? = some v) :
    w.atlas.Means p'.Known (p'.Marked w) (p'.site key) v := by
  rw [grows.site (kept.finished key (mem_of_known known)).loaded]
  exact grows.means kept kept' (explained key v known)

theorem means_of_circular (known : p.memo[key]? = some (.error .circular))
    (onCycle : w.atlas.DependsOn (p.site key) (p.site key)) :
    w.atlas.Means p.Known (p.Marked w) (p.site key) (.error .circular) := by
  obtain ⟨t, reads, -⟩ := Relation.TransGen.head'_iff.1 onCycle
  obtain ⟨e, parsed, -⟩ := reads
  exact .circular ⟨key, mem_of_known known, rfl⟩ parsed ⟨⟨key, known, rfl⟩, onCycle⟩

end Progress

namespace Pass

variable {pass : Pass} {p p' : Progress} {key t : CellKey} {v : Value} {cache : ParseCache}

/-- Closing a cycle marks everything from the cell up, so also the innermost formula. -/
theorem marked_of_waiting (innermost : p.stack.head? = some key)
    (marked : ∀ other ∈ t :: p.stack.takeWhile (· ≠ t), other ∈ p.circular) : key ∈ p.circular := by
  refine marked key ?_
  obtain ⟨rest, stackIs⟩ := List.head?_eq_some_iff.1 innermost
  by_cases same : key = t
  · exact same ▸ List.mem_cons_self
  · simp [stackIs, same]

/-- What the innermost formula finds in a cell, the cell means, unless a cycle was closed. -/
theorem Answers.means (answers : pass.Answers p t v) (noLimit : pass.limit? = none)
    (explained : p.Explained pass.book) (unmarked : ∀ top ∈ p.stack.head?, top ∉ p.circular) :
    pass.book.atlas.Means p.Known (p.Marked pass.book) (p.site t) v := by
  cases answers with
  | finished known => exact explained _ _ known
  | typed loaded literal => exact .literal literal
  | waiting entered marked =>
    obtain ⟨top, rest, stackIs⟩ := List.exists_cons_of_ne_nil (List.ne_nil_of_mem entered)
    have innermost : p.stack.head? = some top := by rw [stackIs, List.head?_cons]
    exact absurd (marked_of_waiting innermost marked) (unmarked top innermost)
  | tooDeep formula outside asked deep => simp [noLimit] at deep

theorem Answers.root_means {a : Address} (answers : pass.Answers p ⟨Progress.root, a⟩ v)
    (valid : pass.Valid p) (explained : p.Explained pass.book) (noLimit : pass.limit? = none)
    (idle : p.stack = []) : pass.book.atlas.Means p.Known (p.Marked pass.book)
      ⟨pass.book.rootPage, a⟩ v := by
  have means := answers.means noLimit explained (by simp [idle])
  rw [Progress.site, Progress.pageAt_root valid.toPlaced] at means
  exact means

theorem AnswersReference.means {place : Nat} {r : Reference} (valid : pass.Valid p)
    (faithful : p.Faithful pass.book) (noLimit : pass.limit? = none) (explained : p.Explained pass.book)
    (unmarked : ∀ top ∈ p.stack.head?, top ∉ p.circular)
    (answers : pass.AnswersReference p place r v) :
    (pass.book.atlas.sight (p.pageAt place) r).Gives
      (pass.book.atlas.Means p.Known (p.Marked pass.book)) v := by
  obtain ⟨resolved, gives⟩ := answers
  rw [faithful.sight valid.toPlaced resolved]
  exact gives.map fun t _ u answered => answered.means noLimit explained unmarked

theorem leave_means (valid : pass.Valid p) (faithful : p.Faithful pass.book) (noLimit : pass.limit? = none)
    (explained : p.Explained pass.book) (innermost : p.stack.head? = some key)
    (computed : pass.Computed p key v) :
    pass.book.atlas.Means (p.leave key v).2.Known ((p.leave key v).2.Marked pass.book)
      ((p.leave key v).2.site key) (p.leave key v).1 := by
  have step : pass.Step p (p.leave key v).2 := .leave innermost computed
  have valid' := step.valid valid
  have grows := step.grows valid
  have finished : (p.leave key v).2.memo[key]? = some (p.leave key v).1 := by
    rw [leave_memo, if_pos rfl]
  have isKnown : (p.leave key v).2.Known ((p.leave key v).2.site key) :=
    ⟨key, mem_of_known finished, rfl⟩
  -- A marked formula means the error by its cycle, any other one what its answers make of it.
  by_cases isMarked : key ∈ p.circular
  · rw [leave_marked isMarked] at finished ⊢
    refine Progress.means_of_circular finished ?_
    exact faithful.dependsOn valid.toPlaced (valid.marked key isMarked).2
  rw [leave_unmarked isMarked] at finished ⊢
  have unmarked : ∀ top ∈ p.stack.head?, top ∉ p.circular := by
    rintro top isTop
    rw [innermost] at isTop
    cases isTop
    exact isMarked
  cases computed with
  | fault typed parsed => exact .fault isKnown typed parsed
  | @value source e x typed parsed yields =>
    by_cases marked : (p.leave key x.finish).2.Marked pass.book ((p.leave key x.finish).2.site key)
    · obtain ⟨⟨other, known, same⟩, onCycle⟩ := marked
      have sameKey := valid'.toKept.site_injective
        (valid'.finished other (mem_of_known known)).loaded
        (valid'.finished key (mem_of_known finished)).loaded same
      subst sameKey
      -- A formula that computes this very error while it lies on a cycle counts as marked.
      have isCircular := Option.some.inj (finished.symm.trans known)
      rw [isCircular] at known onCycle ⊢
      exact Progress.means_of_circular known onCycle
    · refine .formula isKnown (Atlas.expr?_of_parsed typed parsed) marked (fun _ _ => id)
        (yields.mono fun r u answers => ?_)
      refine (answers.means valid faithful noLimit explained unmarked).mono fun t _ u means => ?_
      exact grows.means valid.toKept valid'.toKept means

theorem Step.explained (valid : pass.Valid p) (faithful : p.Faithful pass.book)
    (faithful' : p'.Faithful pass.book) (noLimit : pass.limit? = none) (step : pass.Step p p')
    (explained : p.Explained pass.book) : p'.Explained pass.book := by
  have grows := step.grows valid
  have valid' := step.valid valid
  cases step with
  | parse | close | enter => exact explained
  | resolve page =>
    intro key v known
    rcases Progress.memo_of_resolve known with before | ⟨rfl, onCycle⟩
    · exact explained.grows grows valid.toKept valid'.toKept before
    · refine Progress.means_of_circular known ?_
      exact faithful'.dependsOn valid'.toPlaced (Atlas.dependsOn_inside onCycle)
  | @leave key v innermost computed =>
    intro other u known
    rw [leave_memo] at known
    split at known
    · next same =>
      subst same
      cases known
      exact leave_means valid faithful noLimit explained innermost computed
    · exact explained.grows grows valid.toKept valid'.toKept known

theorem explained_begin (pass : Pass) (cache : ParseCache) :
    (pass.book.begin cache).Explained pass.book := by
  intro key v known
  obtain ⟨rfl, onCycle⟩ := Progress.memo_of_begin known
  refine Progress.means_of_circular known ?_
  exact (Progress.begin_faithful pass.book cache).dependsOn (pass.valid_begin cache).toPlaced
    (Atlas.dependsOn_inside onCycle)

/-- Finished cells go on meaning their values if there is no limit on the way. -/
theorem Steps.stays_explained (coherent : pass.book.Coherent) (noLimit : pass.limit? = none)
    (valid : pass.Valid p) (faithful : p.Faithful pass.book) (explained : p.Explained pass.book)
    (steps : pass.Steps p p') : p'.Explained pass.book := by
  induction steps with
  | refl => exact explained
  | @tail q p' steps step ih =>
    have faithful := Steps.faithful coherent valid steps faithful
    have valid := Steps.valid valid steps
    exact step.explained valid faithful (step.faithful coherent valid faithful) noLimit ih

/-- Finished cells mean their values if there was no limit on the way. -/
theorem Steps.explained (coherent : pass.book.Coherent) (noLimit : pass.limit? = none)
    (steps : pass.Steps (pass.book.begin cache) p) : p.Explained pass.book :=
  Steps.stays_explained coherent noLimit (pass.valid_begin cache) (Progress.begin_faithful _ cache)
    (pass.explained_begin cache) steps

theorem Valid.marked_of_onCycle {s : Site Page} (valid : pass.Valid p) (faithful : p.Faithful pass.book)
    (isKnown : p.Known s) (onCycle : pass.book.atlas.OnCycle s) : p.Marked pass.book s := by
  obtain ⟨key, -, rfl⟩ := isKnown
  refine ⟨⟨key, valid.premarked key.page key.address onCycle, rfl⟩, ?_⟩
  exact faithful.dependsOn valid.toPlaced (Atlas.dependsOn_inside onCycle)

theorem Steps.marked_of_onCycle {s : Site Page} (coherent : pass.book.Coherent)
    (steps : pass.Steps (pass.book.begin cache) p) (isKnown : p.Known s)
    (onCycle : pass.book.atlas.OnCycle s) : p.Marked pass.book s := by
  have start := pass.valid_begin cache
  have faithful := Steps.faithful coherent start steps (Progress.begin_faithful _ cache)
  exact (Steps.valid start steps).marked_of_onCycle faithful isKnown onCycle

end Pass
end PageCalc

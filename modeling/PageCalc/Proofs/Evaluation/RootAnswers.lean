import PageCalc.Proofs.Evaluation.Pages

/-!
# Answers that name the root

The root is loaded from the start, so when a resolver answers with a page that calls itself as the root
does, the root is read, whatever sheet came with the answer. An evaluation goes on just as with a
resolver that hands out the root's own sheet there.
-/

namespace PageCalc

/-- The workbook whose resolver answers with the sheet of the root for every page that calls itself so. -/
def Workbook.rooted (w : Workbook) : Workbook :=
  { w with resolver := fun r => (w.resolver r).map fun answer =>
      if answer.id = w.pageId then { answer with sheet := w.sheet } else answer }

namespace Workbook

variable {w : Workbook} {r : PageRef}

theorem find_rooted_of_error {failure : ResolveError} (other : r.identifier ≠ w.pageId)
    (given : w.resolver r = .error failure) : w.rooted.find r = .error failure.message := by
  simp [find, rooted, other, given, Except.map]

theorem find_rooted_of_ok {answer : ResolvedPage} (other : r.identifier ≠ w.pageId)
    (given : w.resolver r = .ok answer) : w.rooted.find r =
      .ok (if answer.id = w.pageId then w.rootPage else ⟨answer.id, answer.sheet⟩) := by
  by_cases isRoot : answer.id = w.pageId <;> simp [find, rooted, other, given, Except.map, isRoot, rootPage]

end Workbook

/-- The same stretch of an evaluation. -/
def Pass.rooted (pass : Pass) : Pass := { pass with book := pass.book.rooted }

namespace Progress

variable {w : Workbook} {p : Progress}

theorem accept_rooted (placed : p.Placed w) (r : PageRef) :
    p.accept (w.rooted.resolver r) = p.accept (w.resolver r) := by
  show p.accept ((w.resolver r).map _) = _
  cases w.resolver r with
  | error failure => rfl
  | ok answer =>
    show p.accept (.ok (if answer.id = w.pageId then { answer with sheet := w.sheet } else answer)) = _
    split
    · next isRoot =>
      -- The page that calls itself so is there already.
      obtain ⟨page, loaded, sameId, -⟩ := placed.root
      have found : p.pages.findIdx? (·.id = answer.id) ≠ none := by
        intro none
        have other := Array.findIdx?_eq_none_iff.1 none page (Array.mem_of_getElem? loaded)
        simp [isRoot, sameId] at other
      obtain ⟨place, found⟩ := Option.ne_none_iff_exists'.1 found
      simp only [accept, found]
    · rfl

theorem resolve_rooted (placed : p.Placed w) (r : PageRef) : p.resolve w.rooted r = p.resolve w r := by
  have calling : Placed w { p with calls := r :: p.calls } := ⟨placed.root, placed.resolved⟩
  have fetching : p.fetch w.rooted.resolver r = p.fetch w.resolver r := by
    simp only [fetch, accept_rooted calling]
  simp only [resolve, fetching]
  rfl

end Progress

namespace Pass

variable {pass : Pass} {p p' : Progress} {key : CellKey} {place : Nat} {r : Reference} {v : Value}

theorem valid_rooted_iff : pass.rooted.Valid p ↔ pass.Valid p :=
  ⟨fun valid => { valid with root := valid.root, resolved := valid.resolved },
    fun valid => { valid with root := valid.root, resolved := valid.resolved }⟩

theorem Answers.rooted (answers : pass.Answers p key v) : pass.rooted.Answers p key v := by
  cases answers with
  | finished known => exact .finished known
  | typed loaded literal => exact .typed loaded literal
  | waiting entered marked => exact .waiting entered marked
  | tooDeep formula outside asked deep => exact .tooDeep formula outside asked deep

theorem AnswersReference.rooted (answers : pass.AnswersReference p place r v) :
    pass.rooted.AnswersReference p place r v :=
  ⟨answers.1, answers.2.mono fun _ _ _ => Answers.rooted⟩

theorem Computed.rooted (computed : pass.Computed p key v) : pass.rooted.Computed p key v := by
  cases computed with
  | fault typed parsed => exact .fault typed parsed
  | value typed parsed yields => exact .value typed parsed (yields.mono fun _ _ => AnswersReference.rooted)

theorem Step.rooted (valid : pass.Valid p) (step : pass.Step p p') : pass.rooted.Step p p' := by
  cases step with
  | parse source => exact .parse source
  | resolve page =>
    rw [← Progress.resolve_rooted valid.toPlaced]
    exact .resolve page
  | close entered asked => exact .close entered asked
  | enter pending settled asked askedPending path => exact .enter pending settled asked askedPending path
  | leave innermost computed => exact .leave innermost computed.rooted

theorem Runs.rooted (valid : pass.Valid p) (runs : pass.Runs p p') : pass.rooted.Runs p p' := by
  refine ⟨?_, runs.stack⟩
  obtain ⟨steps, -⟩ := runs
  induction steps with
  | refl => exact .refl
  | tail steps step ih => exact ih.tail (step.rooted (Steps.valid valid steps))

end Pass
end PageCalc

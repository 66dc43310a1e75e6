import PageCalc.Proofs.Evaluation.Consistency

/-!
# One sheet for each page

The resolver is asked about an identifier at most once, and never about that of the root. A page is
loaded once, whatever identifiers lead to it, so that references by any of them read the same cells.
-/

namespace PageCalc

open Collection

/-- What a reference reads of the page at a place. -/
def readTarget {m : Type → Type} [Monad m] [MonadStateOf Progress m] (w : Workbook)
    (read : CellKey → m Value) (page : Nat) : PageTarget → m Value
  | .cell a => readSeen read ⟨page, a⟩
  | .range range => readRange read page range
  | .wholeSheet => readWholeSheet w read page

namespace Progress

variable {w : Workbook} {p p' : Progress} {r : PageRef} {place : Nat}

/-! ## The answers of the resolver -/

/-- The answer of the resolver to an identifier: the one that it gave if it was asked about the
identifier before, and else the one that it gives now. -/
def answer (p : Progress) (w : Workbook) (r : PageRef) : Except ResolveError ResolvedPage :=
  w.resolver ((p.calls.find? fun call => call.identifier = r.identifier).getD r)

/-- Where an answer of the resolver leads among the loaded pages. -/
inductive Leads (pages : Array LoadedPage) :
    Except ResolveError ResolvedPage → Except ResolveError Nat → Prop where
  | failed (failure : ResolveError) : Leads pages (.error failure) (.error failure)
  | found {answer : ResolvedPage} {place : Nat} {page : LoadedPage}
      (loaded : pages[place]? = some page) (same : page.id = answer.id) :
      Leads pages (.ok answer) (.ok place)

variable {answer : Except ResolveError ResolvedPage} {outcome : Except ResolveError Nat}

theorem Leads.grows (grows : p.Grows p') (leads : Leads p.pages answer outcome) :
    Leads p'.pages answer outcome := by
  cases leads with
  | failed failure => exact .failed failure
  | found loaded same =>
    refine .found ((grows.pages _ ?_).trans loaded) same
    exact (Array.getElem?_eq_some_iff.1 loaded).1

theorem Fetched.leads (fetched : Fetched w p r outcome p') :
    Leads p'.pages (w.resolver r) outcome := by
  cases fetched with
  | missing answer => exact answer ▸ .failed _
  | known given found =>
    obtain ⟨inBounds, same, -⟩ := Array.findIdx?_eq_some_iff_getElem.1 found
    exact given ▸ .found (Array.getElem?_eq_getElem inBounds) (of_decide_eq_true same)
  | loaded given new =>
    rw [given, load_pages]
    exact .found Array.getElem?_push_size rfl

theorem Fetched.calls (fetched : Fetched w p r outcome p') : p'.calls = r :: p.calls := by
  cases fetched <;> rfl

/-! ## The ledger -/

/-- The resolver was asked about every identifier once, and its answers are kept. -/
structure Ledger (w : Workbook) (p : Progress) : Prop where
  once : (p.calls.map PageRef.identifier).Nodup
  foreign : ∀ call ∈ p.calls, call.identifier ≠ w.pageId
  asked : ∀ i ∈ p.resolutions, ∃ call ∈ p.calls, call.identifier = i
  kept : ∀ call ∈ p.calls, ∃ outcome, p.resolutions[call.identifier]? = some outcome ∧
    Leads p.pages (w.resolver call) outcome

theorem ledger_begin (w : Workbook) (cache : ParseCache) : (w.begin cache).Ledger w where
  once := .nil
  foreign _ member := absurd member List.not_mem_nil
  asked _ known := absurd known Std.ExtTreeMap.not_mem_empty
  kept _ member := absurd member List.not_mem_nil

theorem Ledger.not_called (ledger : p.Ledger w) (unknown : p.resolutions[r.identifier]? = none) :
    ∀ call ∈ p.calls, call.identifier ≠ r.identifier := by
  intro call member same
  obtain ⟨outcome, known, -⟩ := ledger.kept call member
  rw [same, unknown] at known
  cases known

theorem Ledger.resolve (ledger : p.Ledger w) (kept : p.Kept) : (p.resolve w r).2.Ledger w := by
  refine resolve_cases p w r ?own ?known ?fetched
  case own => exact fun _ => ledger
  case known => exact fun _ _ _ => ledger
  case fetched =>
    intro outcome p' other unknown fetched
    -- The resolver is asked about new identifiers only, and nothing that it said before is lost.
    have new := ledger.not_called unknown
    have grows : p.Grows (p'.settleReference r outcome) :=
      (fetched.grows kept).trans (settleReference_grows (by rw [fetched.same.1, unknown]))
    have calls : (p'.settleReference r outcome).calls = r :: p.calls := fetched.calls
    refine ⟨?once, ?foreign, ?asked, ?kept⟩
    case once =>
      rw [calls, List.map_cons, List.nodup_cons]
      refine ⟨fun member => ?_, ledger.once⟩
      obtain ⟨call, member, same⟩ := List.mem_map.1 member
      exact new call member same
    case foreign =>
      rw [calls]
      exact List.forall_mem_cons.2 ⟨other, ledger.foreign⟩
    case asked =>
      intro i known
      rw [calls]
      rw [settleReference, Std.ExtTreeMap.mem_insert, fetched.same.1,
        Std.LawfulEqCmp.compare_eq_iff_eq] at known
      rcases known with same | before
      · exact ⟨r, List.mem_cons_self, same⟩
      · obtain ⟨call, member, same⟩ := ledger.asked i before
        exact ⟨call, List.mem_cons_of_mem _ member, same⟩
    case kept =>
      rw [calls]
      refine List.forall_mem_cons.2
        ⟨⟨outcome, Std.ExtTreeMap.getElem?_insert_self, ?_⟩, fun call member => ?_⟩
      · exact fetched.leads
      · obtain ⟨before, known, leads⟩ := ledger.kept call member
        exact ⟨before, grows.resolutions _ _ known, leads.grows grows⟩

theorem Ledger.answer_of_unknown (ledger : p.Ledger w) (unknown : p.resolutions[r.identifier]? = none) :
    p.answer w r = w.resolver r := by
  have new : (p.calls.find? fun call => call.identifier = r.identifier) = none :=
    List.find?_eq_none.2 fun call member => by simpa using ledger.not_called unknown call member
  rw [Progress.answer, new]
  rfl

/-- Resolving a reference to another page leads where the answer to its identifier says. -/
theorem Ledger.resolve_leads (ledger : p.Ledger w) (other : r.identifier ≠ w.pageId) :
    Leads (p.resolve w r).2.pages (p.answer w r) (p.resolve w r).1 := by
  refine resolve_cases p w r ?own ?known ?fetched
  case own => exact fun own => absurd own other
  case known =>
    intro outcome _ known
    obtain ⟨call, member, same⟩ := ledger.asked _ (mem_of_known known)
    cases found : p.calls.find? fun call => call.identifier = r.identifier with
    | none => exact absurd same (by simpa using List.find?_eq_none.1 found call member)
    | some first =>
      have sameToo : first.identifier = r.identifier := by simpa using List.find?_some found
      obtain ⟨outcome', known', leads⟩ := ledger.kept first (List.mem_of_find?_eq_some found)
      rw [sameToo, known] at known'
      cases known'
      rw [Progress.answer, found]
      exact leads
  case fetched =>
    intro outcome p' _ unknown fetched
    rw [ledger.answer_of_unknown unknown]
    exact fetched.leads

/-- A page that is loaded already is not loaded again. Only what the resolver said is kept. -/
theorem Ledger.resolve_of_loaded {answer : ResolvedPage} {page : LoadedPage} (ledger : p.Ledger w)
    (kept : p.Kept) (other : r.identifier ≠ w.pageId) (given : p.answer w r = .ok answer)
    (loaded : p.pages[place]? = some page) (same : page.id = answer.id) :
    ∃ resolutions calls, p.resolve w r = (.ok place, { p with resolutions, calls }) := by
  have leads := ledger.resolve_leads other
  have kept' : (p.resolve w r).2.Kept := resolve_kept kept
  have grows : p.Grows (p.resolve w r).2 := resolve_grows kept
  have stays := grows.pages place (Array.getElem?_eq_some_iff.1 loaded).1
  rw [given] at leads
  -- No two loaded pages call themselves the same.
  have isPlace : (p.resolve w r).1 = .ok place := by
    cases isOutcome : (p.resolve w r).1 with
    | error failure =>
      rw [isOutcome] at leads
      cases leads
    | ok place' =>
      rw [isOutcome] at leads
      obtain - | ⟨loaded', same'⟩ := leads
      exact congrArg _ (kept'.ids _ _ _ _ loaded' (stays.trans loaded) (same'.trans same.symm))
  have isState : ∃ resolutions calls, (p.resolve w r).2 = { p with resolutions, calls } := by
    refine resolve_cases p w r ?own ?known ?fetched
    case own => exact fun _ => ⟨_, _, rfl⟩
    case known => exact fun _ _ _ => ⟨_, _, rfl⟩
    case fetched =>
      intro outcome p' _ unknown fetched
      rw [ledger.answer_of_unknown unknown] at given
      cases fetched with
      | missing | known => exact ⟨_, _, rfl⟩
      | loaded givenToo new =>
        -- The page that is loaded would have been found.
        cases given.symm.trans givenToo
        have distinct := Array.findIdx?_eq_none_iff.1 new page (Array.mem_of_getElem? loaded)
        simp [same] at distinct
  obtain ⟨resolutions, calls, isState⟩ := isState
  exact ⟨resolutions, calls, Prod.ext isPlace isState⟩

end Progress

namespace Pass

variable {pass : Pass} {p q : Progress}

theorem Step.ledger (valid : pass.Valid p) (step : pass.Step p q) (ledger : p.Ledger pass.book) :
    q.Ledger pass.book := by
  cases step with
  | resolve page => exact ledger.resolve valid.toKept
  | parse | close | enter | leave => exact ⟨ledger.once, ledger.foreign, ledger.asked, ledger.kept⟩

theorem Steps.ledger (valid : pass.Valid p) (steps : pass.Steps p q) (ledger : p.Ledger pass.book) :
    q.Ledger pass.book := by
  induction steps with
  | refl => exact ledger
  | tail steps step ih => exact step.ledger (Steps.valid valid steps) ih

end Pass

/-! ## Names of pages -/

/-- The pages of an evaluation and their names, as a chronicle of it shows them. -/
structure Chronicle.Unified (w : Workbook) (chronicle : Chronicle) (first last : Progress) : Prop where
  /-- The resolver is asked about no identifier twice. -/
  once : (last.calls.map PageRef.identifier).Nodup
  foreign : w.pageId ∉ last.calls.map PageRef.identifier
  /-- No two pages call themselves the same. -/
  distinct : (last.pages.toList.map LoadedPage.id).Nodup
  root : ∃ page, last.pages[Progress.root]? = some page ∧ page.id = w.pageId ∧ page.sheet = w.sheet
  /-- A page that is loaded keeps its place. -/
  stays : ∀ p ∈ first :: chronicle.states, ∀ (place : Nat) (page : LoadedPage),
    p.pages[place]? = some page → last.pages[place]? = some page
  /-- The identifier of the root means the root. -/
  own : ∀ p ∈ first :: chronicle.states, ∀ (external : ExternalReference) (read : CellReader),
    external.page.identifier = w.pageId →
    (readExternal w read external).run p = (readTarget w read Progress.root external.target).run p
  /-- A reference whose identifier leads to a page that is loaded already reads that page, in a state
  in which only the answers of the resolver may be new. -/
  named : ∀ p ∈ first :: chronicle.states, ∀ (external : ExternalReference) (answer : ResolvedPage)
    (place : Nat) (page : LoadedPage), external.page.identifier ≠ w.pageId →
    p.answer w external.page = .ok answer → p.pages[place]? = some page → page.id = answer.id →
    ∃ resolutions calls, ∀ read : CellReader, (readExternal w read external).run p =
      (readTarget w read place external.target).run { p with resolutions, calls }
  /-- Calls for the same cell find the same value, unless just one of them finds a refusal. -/
  agree : ∀ (asked asked' : Progress) (key : CellKey) (v v' : Value), .answer asked key v ∈ chronicle →
    .answer asked' key v' ∈ chronicle → (v = v' ↔ (v = .error .tooDeep ↔ v' = .error .tooDeep))

theorem run_readExternal {w : Workbook} {read : CellReader} {external : ExternalReference} {p q : Progress}
    {place : Nat} (leads : p.resolve w external.page = (.ok place, q)) :
    (readExternal w read external).run p = (readTarget w read place external.target).run q := by
  unfold readExternal
  rw [StateT.run_bind, StateT.run_modifyGet, leads]
  rfl

theorem Chronicle.Consistent.agree {chronicle : Chronicle} {first last asked asked' : Progress}
    {key : CellKey} {v v' : Value} (consistent : chronicle.Consistent first last)
    (answered : .answer asked key v ∈ chronicle) (answered' : .answer asked' key v' ∈ chronicle) :
    v = v' ↔ (v = .error .tooDeep ↔ v' = .error .tooDeep) := by
  have final : v = v' ∨ v = .error .tooDeep ∨ v' = .error .tooDeep := by
    by_cases formula : last.IsFormula key
    · rcases consistent.finished asked key v answered formula with refused | known
      · exact .inr (.inl refused)
      · rcases consistent.finished asked' key v' answered' formula with refused | known'
        · exact .inr (.inr refused)
        · exact .inl (Option.some.inj (known.symm.trans known'))
    · have typed := consistent.typed asked key v answered formula
      have typed' := consistent.typed asked' key v' answered' formula
      exact .inl (Option.some.inj (typed.symm.trans typed'))
  constructor
  · rintro rfl
    rfl
  · intro both
    rcases final with same | refused | refused
    · exact same
    · exact refused.trans (both.1 refused).symm
    · exact (both.2 refused).trans refused.symm

namespace Pass

variable {pass : Pass} {p p' : Progress} {c : Chronicle}

theorem Tells.unified (valid : pass.Valid p) (tells : pass.Tells p c p') (ledger : p.Ledger pass.book)
    (idle : p'.stack = []) : c.Unified pass.book p p' := by
  -- The ledger is kept in every state of the chronicle, and the last of these is the end.
  have states := tells.invariant (I := fun s => pass.Valid s ∧ s.Ledger pass.book)
    (fun s s' _ step holds => ⟨step.valid holds.1, step.ledger holds.1 holds.2⟩) valid ⟨valid, ledger⟩
  have last : p' ∈ p :: c.states := List.mem_of_getLast? tells.ends
  obtain ⟨valid', ledger'⟩ := states p' last
  refine ⟨ledger'.once, ?foreign, ?distinct, valid'.root, ?stays, ?own, ?named,
    fun _ _ _ _ _ => (tells.consistent valid idle).agree⟩
  case foreign =>
    intro member
    obtain ⟨call, member, same⟩ := List.mem_map.1 member
    exact ledger'.foreign call member same
  case distinct =>
    refine List.nodup_iff_getElem?_ne_getElem?.2 fun i j before inBounds same => ?_
    rw [List.length_map] at inBounds
    have loaded := Array.getElem?_eq_getElem (Nat.lt_trans before inBounds : i < p'.pages.size)
    have loaded' := Array.getElem?_eq_getElem (inBounds : j < p'.pages.size)
    simp only [List.getElem?_map, Array.getElem?_toList, loaded, loaded', Option.map_some,
      Option.some.injEq] at same
    exact Nat.ne_of_lt before (valid'.ids _ _ _ _ loaded loaded' same)
  case stays =>
    intro s member place page loaded
    have grows := tells.grows_last valid s member
    exact (grows.pages place (Array.getElem?_eq_some_iff.1 loaded).1).trans loaded
  case own =>
    intro s member external read own
    exact run_readExternal (if_pos own)
  case named =>
    intro s member external answer place page other given loaded same
    obtain ⟨valid, ledger⟩ := states s member
    obtain ⟨resolutions, calls, leads⟩ := ledger.resolve_of_loaded valid.toKept other given loaded same
    exact ⟨resolutions, calls, fun read => run_readExternal leads⟩

end Pass

namespace Workbook

/-- Each page is asked for once and loaded once in the evaluation of a sheet and in that of an
expression on it, and all identifiers that lead to a page read the same cells of it. Two reads of a cell
differ only if one of them is refused for want of room, and never because of the identifier. -/
theorem evaluate_unified (w : Workbook) (cache : ParseCache) (e : Expr) :
    (w.evaluateRecorded cache).1 = w.evaluateWith cache ∧
    (w.evaluateRecorded cache).2.Unified w (w.begin cache) (w.finalState cache) ∧
    (w.evaluationRecorded e (w.begin cache)).1 = (w.evaluation e).run (w.begin cache) ∧
    (w.evaluationRecorded e (w.begin cache)).2.Unified w (w.begin cache)
      ((w.evaluation e).run (w.begin cache)).2 := by
  have ledger := Progress.ledger_begin w cache
  have records := w.records_evaluateCells cache w.sheet.inputs.keys
  have records' := w.records_evaluation cache e
  have runs := w.runs_evaluate w.options.maxDepth cache
  have runs' := (w.after_evaluation w.options.maxDepth cache e).1
  refine ⟨w.evaluateRecorded_fst cache, ?_, records'.same, ?_⟩
  · exact records.tells.unified (Pass.valid_begin _ cache) ledger runs.stack
  · exact records'.tells.unified (Pass.valid_begin _ cache) ledger runs'.stack

end Workbook

end PageCalc

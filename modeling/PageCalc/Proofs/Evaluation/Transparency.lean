import PageCalc.Proofs.Evaluation.OtherMonads

/-!
# What a cache changes

A cache is asked for the outcome of a formula in the course of an evaluation, and grows by it. Neither
what the evaluation gives nor any other part of its state depends on what the cache holds. Whatever the
cache held at first, the formulas that it holds beyond that are just those of the loaded pages: they are
parsed when a page is loaded, and no other text is ever parsed.
-/

namespace PageCalc

open Collection

namespace ParseCache

variable {cache : ParseCache} {formula other : String} {outcome : ParseOutcome}

theorem getElem?_outcomes_iff : cache.outcomes[formula]? = some outcome ↔
    formula ∈ cache.outcomes ∧ outcome = Expr.ofFormula formula := by
  constructor
  · exact fun known => ⟨mem_of_known known, cache.faithful formula outcome known⟩
  · rintro ⟨member, rfl⟩
    obtain ⟨kept, known⟩ := mem_iff_exists.1 member
    rw [known, cache.faithful formula kept known]

theorem mem_parse : other ∈ (cache.parse formula).2.outcomes ↔ other ∈ cache.outcomes ∨ other = formula := by
  unfold parse
  split
  · next kept known =>
    refine (or_iff_left_of_imp ?_).symm
    rintro rfl
    exact mem_of_known known
  · simp only [insert, Std.ExtTreeMap.mem_insert, Std.LawfulEqCmp.compare_eq_iff_eq]
    rw [eq_comm, or_comm]

end ParseCache

/-- Gathering the dependencies of a sheet parses its formulas. -/
theorem Dependencies.mem_ofSheet_snd {sheet : Sheet} {cache : ParseCache} {formula : String} :
    formula ∈ (ofSheet sheet cache).2.outcomes ↔
      formula ∈ cache.outcomes ∨ ∃ a, (a, formula) ∈ sheet.formulas := by
  unfold ofSheet
  generalize empty = g
  induction sheet.formulas generalizing g cache with
  | nil => simp
  | cons entry entries ih =>
    rw [List.foldl_cons, ih, ParseCache.mem_parse]
    simp only [List.mem_cons, exists_or, or_assoc]
    refine or_congr_right (or_congr_left ?_)
    exact ⟨fun same => ⟨entry.1, by rw [same]⟩, fun ⟨a, same⟩ => by rw [← same]⟩

namespace Progress

variable {p : Progress} {key : CellKey}

/-- A loaded page has a formula with the text. -/
def HasFormula (p : Progress) (formula : String) : Prop :=
  ∃ page ∈ p.pages, ∃ a, (a, formula) ∈ page.sheet.formulas

theorem hasFormula_of_input {formula : String} (typed : p.input key = .formula formula) :
    p.HasFormula formula := by
  have isFormula : p.IsFormula key := Sheet.isFormula_iff.2 ⟨formula, typed⟩
  have loaded := isFormula.loaded
  refine ⟨p.pages[key.page], Array.getElem_mem loaded, key.address, ?_⟩
  rw [input, sheet_of_page (Array.getElem?_eq_getElem loaded)] at typed
  exact Sheet.input_eq_formula_iff.1 typed

/-- The cache holds what another one did, and the formulas of the loaded pages. -/
def Stocks (p : Progress) (old cache : ParseCache) : Prop :=
  ∀ formula, formula ∈ cache.outcomes ↔ formula ∈ old.outcomes ∨ p.HasFormula formula

theorem hasFormula_load {id : String} {sheet : Sheet} {formula : String} :
    (p.load id sheet).2.HasFormula formula ↔
      p.HasFormula formula ∨ ∃ a, (a, formula) ∈ sheet.formulas := by
  simp only [HasFormula, load, Array.mem_push, or_and_right, exists_or, exists_eq_left]

theorem load_withCache (id : String) (sheet : Sheet) (cache : ParseCache) :
    { p with cache }.load id sheet = ((p.load id sheet).1,
      { (p.load id sheet).2 with cache := (Dependencies.ofSheet sheet cache).2 }) := by
  -- The outcomes that the graph is gathered from are the same with any cache.
  have sameGraph : (Dependencies.ofSheet sheet cache).1 = (Dependencies.ofSheet sheet p.cache).1 := by
    rw [Dependencies.ofSheet_fst, Dependencies.ofSheet_fst]
  simp only [load, sameGraph]

theorem Stocks.load {old cache : ParseCache} (stocks : p.Stocks old cache) (id : String) (sheet : Sheet) :
    (p.load id sheet).2.Stocks old (Dependencies.ofSheet sheet cache).2 := by
  intro formula
  rw [Dependencies.mem_ofSheet_snd, stocks formula, hasFormula_load, or_assoc]

end Progress

/-! ## Transparent evaluations -/

variable {α β : Type} {p : Progress}

/-- Whatever the cache holds, the evaluation goes the same way, and the cache grows by the formulas of the
pages that are loaded on the way. -/
structure Transparent (m : Evaluating α) (p : Progress) : Prop where
  grows : ∀ formula, p.HasFormula formula → (m.run p).2.HasFormula formula
  carries : ∀ old cache, p.Stocks old cache → ∃ cache',
    m.run { p with cache } = ((m.run p).1, { (m.run p).2 with cache := cache' }) ∧
      (m.run p).2.Stocks old cache'

namespace Transparent

variable {m : Evaluating α} {f : α → Evaluating β}

theorem pure (a : α) : Transparent (Pure.pure a) p where
  grows _ has := has
  carries _ cache stocks := ⟨cache, rfl, stocks⟩

theorem bind (first : Transparent m p)
    (second : ∀ a q, (∀ formula, p.HasFormula formula → q.HasFormula formula) → Transparent (f a) q) :
    Transparent (m >>= f) p := by
  have onward := second (m.run p).1 (m.run p).2 first.grows
  refine ⟨fun formula has => onward.grows formula (first.grows formula has), fun old cache stocks => ?_⟩
  obtain ⟨between, same, stocks⟩ := first.carries old cache stocks
  obtain ⟨cache', same', stocks'⟩ := onward.carries old between stocks
  refine ⟨cache', ?_, stocks'⟩
  rw [StateT.run_bind, same]
  exact same'

/-- What is done may depend on the state but for the cache. -/
theorem get {f : Progress → Evaluating β} (blind : ∀ cache, f { p with cache } = f p)
    (onward : Transparent (f p) p) : Transparent (MonadState.get >>= f) p where
  grows := onward.grows
  carries old cache stocks := by
    obtain ⟨cache', same, stocks'⟩ := onward.carries old cache stocks
    refine ⟨cache', ?_, stocks'⟩
    show (f { p with cache }).run { p with cache } = _
    rw [blind]
    exact same

/-- The state is changed, but neither its cache nor its pages. -/
theorem update {f : Progress → α × Progress}
    (blind : ∀ cache, f { p with cache } = ((f p).1, { (f p).2 with cache }))
    (samePages : (f p).2.pages = p.pages) : Transparent (modifyGet f) p where
  grows formula has := by
    show (f p).2.HasFormula formula
    rw [Progress.HasFormula, samePages]
    exact has
  carries old cache stocks := by
    refine ⟨cache, blind cache, fun formula => ?_⟩
    show _ ↔ _ ∨ (f p).2.HasFormula formula
    rw [Progress.HasFormula, samePages]
    exact stocks formula

/-- The state is changed as an evaluation does that may depend on it. -/
theorem update_as {f : Progress → α × Progress} {g : Progress → Evaluating α} (isRun : ∀ p, f p = (g p).run p)
    (blind : ∀ cache, g { p with cache } = g p) (onward : Transparent (g p) p) :
    Transparent (modifyGet f) p := by
  have isProgram : (modifyGet f : Evaluating α) = MonadState.get >>= g := funext isRun
  exact isProgram ▸ .get blind onward

theorem map {g : α → β} (transparent : Transparent m p) : Transparent (g <$> m) p := by
  rw [← bind_pure_comp]
  exact transparent.bind fun a q _ => .pure (g a)

theorem mapM {f : α → Evaluating β} (each : ∀ a p, Transparent (f a) p) (as : List α) :
    Transparent (as.mapM f) p := by
  induction as generalizing p with
  | nil => exact .pure []
  | cons a as ih =>
    rw [List.mapM_cons]
    exact (each a p).bind fun b q _ => ih.bind fun bs q _ => .pure (b :: bs)

theorem forIn {body : α → PUnit → Evaluating (ForInStep PUnit)} (each : ∀ a u p, Transparent (body a u) p)
    (as : List α) (u : PUnit) : Transparent (ForIn.forIn as u body) p := by
  induction as generalizing p u with
  | nil => exact .pure u
  | cons a as ih =>
    rw [List.forIn_cons]
    refine (each a u p).bind fun step q _ => ?_
    cases step with
    | done u => exact .pure u
    | yield u => exact ih u

theorem run {plan : Plan α} {ask : Reference → Evaluating Value} (asks : ∀ r p, Transparent (ask r) p) :
    Transparent (plan.run ask) p := by
  induction plan generalizing p with
  | done a => exact .pure a
  | read r next ih => exact (asks r p).bind fun v q _ => ih v

end Transparent

/-! ## Steps -/

theorem transparent_parse {source : String} (has : p.HasFormula source) :
    Transparent (modifyGet fun p =>
      ((p.cache.parse source).1, { p with cache := (p.cache.parse source).2 })) p where
  grows _ has := has
  carries _ cache stocks := by
    have sameOutcome : (cache.parse source).1 = (p.cache.parse source).1 := by
      rw [ParseCache.parse_fst, ParseCache.parse_fst]
    refine ⟨(cache.parse source).2, Prod.ext sameOutcome rfl, fun formula => ?_⟩
    rw [ParseCache.mem_parse, stocks formula, or_assoc]
    refine or_congr_right (or_iff_left_of_imp ?_)
    rintro rfl
    exact has

theorem transparent_load (id : String) (sheet : Sheet) : Transparent (modifyGet (·.load id sheet)) p where
  grows _ has := Progress.hasFormula_load.2 (.inl has)
  carries _ cache stocks := ⟨_, Progress.load_withCache id sheet cache, stocks.load id sheet⟩

theorem transparent_accept (answer : Except ResolveError ResolvedPage) :
    Transparent (modifyGet (·.accept answer)) p := by
  cases answer with
  | error failure => exact .update (fun _ => rfl) rfl
  | ok page =>
    -- A page is loaded only if no loaded one has its identifier.
    refine .update_as (g := fun p => (p.pages.findIdx? (·.id = page.id)).elim
      (.ok <$> modifyGet (·.load page.id page.sheet)) (pure <| .ok ·)) (fun p => ?_) (fun _ => rfl) ?_
    · simp only [Progress.accept]
      cases p.pages.findIdx? (·.id = page.id) <;> rfl
    · cases p.pages.findIdx? (·.id = page.id) with
      | some place => exact .pure _
      | none => exact (transparent_load page.id page.sheet).map

theorem transparent_fetch (resolver : Resolver) (page : PageRef) :
    Transparent (modifyGet (·.fetch resolver page)) p := by
  have isProgram : (modifyGet (·.fetch resolver page) : Evaluating (Except ResolveError Nat)) = (do
      modify fun p => { p with calls := page :: p.calls }
      let outcome ← modifyGet (·.accept (resolver page))
      modify fun p => { p with resolutions := p.resolutions.insert page.identifier outcome }
      pure outcome) := rfl
  rw [isProgram]
  refine .bind (.update (fun _ => rfl) rfl) fun _ q _ => ?_
  refine (transparent_accept (resolver page)).bind fun outcome q _ => ?_
  exact .bind (.update (fun _ => rfl) rfl) fun _ q _ => .pure outcome

theorem transparent_resolve (w : Workbook) (page : PageRef) : Transparent (modifyGet (·.resolve w page)) p := by
  refine .update_as (g := fun p => if page.identifier = w.pageId then pure (.ok Progress.root)
    else (p.resolutions[page.identifier]?).elim (modifyGet (·.fetch w.resolver page)) pure)
    (fun p => ?_) (fun _ => rfl) ?_
  · unfold Progress.resolve
    split
    · rfl
    · cases p.resolutions[page.identifier]? <;> rfl
  · split
    · exact .pure _
    · cases p.resolutions[page.identifier]? with
      | some outcome => exact .pure outcome
      | none => exact transparent_fetch w.resolver page

/-! ## References -/

section References

variable {w : Workbook} {read : CellReader} (reads : ∀ key p, Transparent (read key) p)
include reads

theorem transparent_readSeen (key : CellKey) : Transparent (readSeen read key) p := (reads key p).map

theorem transparent_readRange (place : Nat) (area : Range) : Transparent (readRange read place area) p :=
  .get (fun _ => rfl) (.bind (.mapM (fun _ _ => transparent_readSeen reads _) _) fun _ _ _ => .pure _)

theorem transparent_readWholeSheet (place : Nat) : Transparent (readWholeSheet w read place) p := by
  unfold readWholeSheet
  cases w.options.wholeSheet with
  | grid =>
    refine .get (fun _ => rfl) ?_
    cases (p.sheet place).extent? with
    | none => exact .pure _
    | some area => exact transparent_readRange reads place area
  | cell a => exact transparent_readSeen reads _
  | reject => exact .pure _

theorem transparent_readReference (place : Nat) (r : Reference) :
    Transparent (readReference w read place r) p := by
  cases r with
  | cell a => exact transparent_readSeen reads _
  | range area => exact transparent_readRange reads place area
  | external external =>
    refine (transparent_resolve w external.page).bind fun outcome q _ => ?_
    cases outcome with
    | error failure => exact .pure _
    | ok there =>
      cases external.target with
      | cell a => exact transparent_readSeen reads _
      | range area => exact transparent_readRange reads there area
      | wholeSheet => exact transparent_readWholeSheet reads there

end References

/-! ## Cells -/

section Cells

variable {w : Workbook} {read : CellReader} {key : CellKey} {source : String}

theorem transparent_evaluateFormulaCell (reads : ∀ key p, Transparent (read key) p)
    (has : p.HasFormula source) : Transparent (evaluateFormulaCell w read key source) p := by
  rw [evaluateFormulaCell_eq_bind]
  refine .bind (.update (fun _ => rfl) rfl) fun _ q grows => ?_
  refine Transparent.bind ?_ fun v q _ => .update (f := fun q => q.leave key v) (fun _ => rfl) rfl
  refine (transparent_parse (grows source has)).bind fun outcome q _ => ?_
  cases outcome with
  | error fault => exact .pure _
  | ok e =>
    refine Transparent.map ?_
    rw [evaluateExpr_eq_run]
    exact .run fun r q => transparent_readReference reads key.page r

theorem transparent_finishCell (reads : ∀ key p, Transparent (read key) p)
    (has : p.HasFormula source) : Transparent (finishCell w read key source) p := by
  refine .get (fun _ => rfl) ?_
  cases p.memo[key]? with
  | some v => exact .pure v
  | none => exact transparent_evaluateFormulaCell reads has

theorem transparent_settleCell (reads : ∀ key p, Transparent (read key) p)
    (has : p.HasFormula source) : Transparent (settleCell w read key source) p := by
  refine .get (fun _ => rfl) (.bind (.forIn ?_ _ _) fun _ q grows =>
    transparent_finishCell reads (grows source has))
  intro a u q
  refine .get (fun _ => rfl) ?_
  -- The text is that of the precedent in the state in which its turn comes, so its page has it.
  cases typed : q.input ⟨key.page, a⟩ with
  | blank | number _ | text _ => exact .pure _
  | formula other =>
    exact .bind (transparent_finishCell reads (Progress.hasFormula_of_input typed)).map fun _ _ _ => .pure _

theorem transparent_lookUp {settle : CellKey → String → Evaluating Value}
    (settles : ∀ source, p.HasFormula source → Transparent (settle key source) p) :
    Transparent (lookUp settle key) p := by
  refine .get (fun _ => rfl) ?_
  cases p.memo[key]? with
  | some v => exact .pure v
  | none =>
    by_cases entered : key ∈ p.stack
    · simp only [entered, if_true]
      exact .bind (.update (fun _ => rfl) rfl) fun _ _ _ => .pure _
    · simp only [entered, if_false]
      cases typed : p.input key with
      | blank | number _ | text _ => exact .pure _
      | formula source => exact settles source (Progress.hasFormula_of_input typed)

theorem transparent_readCell (depth : Nat) (key : CellKey) (p : Progress) :
    Transparent (readCell w depth key) p := by
  induction depth generalizing key p with
  | zero => exact transparent_lookUp fun _ _ => .pure _
  | succ depth ih => exact transparent_lookUp fun _ has => transparent_settleCell ih has

end Cells

namespace Workbook

variable {w : Workbook}

theorem begin_withCache (cache : ParseCache) : w.begin cache =
    { w.begin .empty with cache := (Dependencies.ofSheet w.sheet cache).2 } :=
  congrArg Prod.snd (Progress.load_withCache (p := Progress.start .empty) w.pageId w.sheet cache)

theorem begin_stocks (cache : ParseCache) :
    (w.begin .empty).Stocks cache (Dependencies.ofSheet w.sheet cache).2 := by
  have none : (Progress.start .empty).Stocks cache cache := fun formula => by
    simp [Progress.HasFormula, Progress.start]
  exact none.load w.pageId w.sheet

theorem transparent_evaluateCells (addresses : List Address) {p : Progress} :
    Transparent (w.evaluateCells addresses) p :=
  .mapM (fun _ p => (transparent_readCell _ _ p).bind fun _ _ _ => .pure _) addresses

/-- With any cache an evaluation gives what it gives with the empty one, and ends in the same state but for
the cache, which holds in the end what it held before and the formulas of the loaded pages. -/
theorem exists_cache_of_evaluateWith (w : Workbook) (cache : ParseCache) : ∃ cache',
    w.evaluateWith cache = ((w.evaluateWith .empty).1, { w.finalState .empty with cache := cache' }) ∧
      (w.finalState .empty).Stocks cache cache' := by
  obtain ⟨cache', same, stocks⟩ := (w.transparent_evaluateCells w.sheet.inputs.keys).carries cache _
    (w.begin_stocks cache)
  refine ⟨cache', ?_, stocks⟩
  rw [evaluateWith, begin_withCache, same]
  rfl

/-- No result depends on what the cache holds. -/
theorem evaluateWith_fst (w : Workbook) (cache : ParseCache) : (w.evaluateWith cache).1 = w.evaluate := by
  obtain ⟨cache', same, -⟩ := w.exists_cache_of_evaluateWith cache
  rw [same, evaluate]

theorem evaluation_fst (w : Workbook) (cache : ParseCache) (e : Expr) :
    ((w.evaluation e).run (w.begin cache)).1 = ((w.evaluation e).run (w.begin .empty)).1 := by
  have transparent : Transparent (w.evaluation e) (w.begin .empty) := by
    rw [evaluation, evaluateExpr_eq_run]
    exact .run fun r p => transparent_readReference (transparent_readCell _) _ r
  obtain ⟨cache', same, -⟩ := transparent.carries cache _ (w.begin_stocks cache)
  rw [begin_withCache, same]

theorem hasFormula_finalState_of_root {cache : ParseCache} {formula : String}
    (typed : ∃ a, (a, formula) ∈ w.sheet.formulas) : (w.finalState cache).HasFormula formula := by
  have valid := (w.runs_evaluate w.options.maxDepth cache).valid (Pass.valid_begin _ cache)
  obtain ⟨page, loaded, -, isSheet⟩ := valid.root
  have isSheet : page.sheet = w.sheet := isSheet
  exact ⟨page, Array.mem_of_getElem? loaded, isSheet ▸ typed⟩

/-- A cache, whatever it was used for before, answers what parsing gives. An evaluation with it gives the
same result as one with an empty cache, and asks the resolver for the same pages in the same order. In the
end the cache holds what it held before, and the outcome for each text that is a formula of the sheet or of
a page that was loaded. -/
theorem evaluateWith_transparent (w : Workbook) (cache : ParseCache) :
    (∀ formula, (cache.parse formula).1 = Expr.ofFormula formula) ∧
    (w.evaluateWith cache).1 = w.evaluate ∧
    (w.finalState cache).calls = (w.finalState .empty).calls ∧
    ∀ (formula : String) (outcome : ParseOutcome),
      (w.finalState cache).cache.outcomes[formula]? = some outcome ↔
        cache.outcomes[formula]? = some outcome ∨
        ((∃ a, (a, formula) ∈ w.sheet.formulas) ∨
          ∃ page ∈ (w.finalState cache).pages, ∃ a, (a, formula) ∈ page.sheet.formulas) ∧
            outcome = Expr.ofFormula formula := by
  obtain ⟨cache', same, stocks⟩ := w.exists_cache_of_evaluateWith cache
  have sameState : w.finalState cache = { w.finalState .empty with cache := cache' } := congrArg Prod.snd same
  refine ⟨cache.parse_fst, w.evaluateWith_fst cache, by rw [sameState], fun formula outcome => ?_⟩
  have onPages : ((∃ a, (a, formula) ∈ w.sheet.formulas) ∨
      ∃ page ∈ (w.finalState cache).pages, ∃ a, (a, formula) ∈ page.sheet.formulas) ↔
        (w.finalState cache).HasFormula formula := or_iff_right_of_imp hasFormula_finalState_of_root
  rw [onPages, sameState, ParseCache.getElem?_outcomes_iff, ParseCache.getElem?_outcomes_iff,
    stocks formula, or_and_right]
  rfl

end Workbook
end PageCalc

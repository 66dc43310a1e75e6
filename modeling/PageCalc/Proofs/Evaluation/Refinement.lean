import PageCalc.Proofs.Evaluation.FinishedMeaning
import PageCalc.Proofs.Evaluation.PageSteps
import PageCalc.Proofs.Evaluation.Shelves

/-!
# Sheets mean their equations

Where cycles stay inside pages and references do not go across pages too often, the values that the
evaluation of a sheet gives to its cells are those of the only solution of the equations.
-/

namespace PageCalc

variable {w : Workbook} {p : Progress} {key : CellKey} {n : Nat}

namespace Workbook

/-- Reads lead to the site from some cell of the sheet that is evaluated. -/
def InReach (w : Workbook) (s : Site Page) : Prop :=
  ∃ a, w.atlas.Reaches ⟨w.rootPage, a⟩ s

/-- No cycle that can be reached goes across pages. -/
def CyclesInside (w : Workbook) : Prop := ∀ a, w.atlas.CyclesInside ⟨w.rootPage, a⟩

/-- No path from a formula goes across pages as often as the limit on the depth. -/
def PathsShallow (w : Workbook) : Prop :=
  ∀ (a : Address) (sites : List (Site Page)) (n : Nat), w.sheet.isFormula a →
    w.atlas.Path ⟨w.rootPage, a⟩ sites n → n < w.options.maxDepth

theorem inReach_closed (w : Workbook) : w.atlas.Closed w.InReach := by
  rintro s t ⟨a, path⟩ reads
  exact ⟨a, path.tail reads⟩

/-- Where cycles stay inside pages, a site that depends on itself lies on a cycle of its page. -/
theorem CyclesInside.onCycle (inside : w.CyclesInside) {s : Site Page} (inReach : w.InReach s)
    (path : w.atlas.DependsOn s s) : w.atlas.OnCycle s := by
  obtain ⟨a, reached⟩ := inReach
  rcases path.inside_or_across with ⟨-, inside⟩ | ⟨u, v, before, across, after⟩
  · exact inside
  · exact absurd (after.trans before) (inside a u v (reached.trans before) across)

theorem PathsShallow.crosses_lt {a : Address} {t : Site Page} (shallow : w.PathsShallow)
    (inside : w.CyclesInside) (formula : w.sheet.isFormula a)
    (walk : w.atlas.Crosses ⟨w.rootPage, a⟩ n t) : n < w.options.maxDepth := by
  obtain ⟨rest, path⟩ := walk.exists_path (inside a)
  exact shallow a _ n formula path

theorem denotes_of_inReach (inside : w.CyclesInside) (shallow : w.PathsShallow) {s : Site Page}
    (inReach : w.InReach s) : ∃ v, w.atlas.Denotes s v := by
  obtain ⟨a, path⟩ := inReach
  by_cases formula : w.sheet.isFormula a
  · obtain ⟨n, walk⟩ := Atlas.exists_crosses path
    exact Atlas.exists_denotes (fun n t walk => shallow.crosses_lt inside formula walk) walk
  · rcases path.cases_head with rfl | ⟨t, ⟨e, parsed, -⟩, -⟩
    · refine (w.atlas.denotes_or_tame _).resolve_right ?_
      rintro ⟨e, parsed, -⟩
      exact formula (Sheet.isFormula_of_expr? parsed)
    · exact absurd (Sheet.isFormula_of_expr? parsed) formula

end Workbook

namespace Pass

variable {pass : Pass}

/-- The formulas under evaluation stand on a walk from a cell that was read from outside, which goes
across pages between any two of them. -/
theorem Valid.exists_crosses (valid : pass.Valid p) (faithful : p.Faithful pass.book) {top : CellKey}
    {rest : List CellKey} (stackIs : p.stack = top :: rest) : ∃ key, pass.entry key ∧ p.IsFormula key ∧
      pass.book.atlas.Crosses (p.site key) rest.length (p.site top) := by
  have chain := valid.chain
  have rooted := valid.rooted
  have entered := valid.entered
  rw [stackIs] at chain rooted entered
  clear stackIs
  -- Each formula was asked for across pages by the one below it, and the last one from outside.
  induction rest generalizing top with
  | nil =>
    obtain ⟨a, isEntry, path⟩ := rooted top rfl
    refine ⟨⟨top.page, a⟩, isEntry, ?_, Atlas.Crosses.insides (s := p.site ⟨top.page, a⟩) .start path⟩
    rcases path.cases_head with same | ⟨c, reads, -⟩
    · rw [same]
      exact (entered top List.mem_cons_self).1
    · exact reads.isFormula
  | cons below rest ih =>
    rw [List.isChain_cons_cons] at chain
    rw [List.getLast?_cons_cons] at rooted
    obtain ⟨key, isEntry, formula, walk⟩ := ih chain.2 rooted fun key member =>
      entered key (List.mem_cons_of_mem _ member)
    obtain ⟨-, b, across, path⟩ := chain.1
    refine ⟨key, isEntry, formula, Atlas.Crosses.insides (walk.across ?_) path⟩
    exact faithful.readsAcross valid.toPlaced across

/-- There is room for formulas if no walk from a cell that is read from outside goes across pages too
often. -/
theorem Valid.roomy_of_crosses (valid : pass.Valid p) (faithful : p.Faithful pass.book)
    (shallow : ∀ key n t, pass.entry key → p.IsFormula key → pass.book.atlas.Crosses (p.site key) n t →
      ∀ limit ∈ pass.limit?, n < limit) : pass.Roomy p := by
  intro key formula outside asked
  unfold AskedAcross at asked
  cases stackIs : p.stack with
  | nil =>
    rw [stackIs] at asked
    exact shallow key 0 _ asked formula .start
  | cons top rest =>
    rw [stackIs] at asked
    obtain ⟨first, isEntry, formula, walk⟩ := valid.exists_crosses faithful stackIs
    exact shallow first _ _ isEntry formula (walk.across (faithful.readsAcross valid.toPlaced asked))

theorem Valid.roomy (valid : (ofSheet w (some w.options.maxDepth)).Valid p) (faithful : p.Faithful w)
    (inside : w.CyclesInside) (shallow : w.PathsShallow) :
    (ofSheet w (some w.options.maxDepth)).Roomy p := by
  refine valid.roomy_of_crosses faithful ?_
  rintro ⟨place, a⟩ n t isEntry formula walk limit isLimit
  cases isLimit
  obtain rfl : place = Progress.root := isEntry
  have isRoot : p.pageAt Progress.root = w.rootPage := Progress.pageAt_root valid.toPlaced
  have formula : (p.pageAt Progress.root).sheet.isFormula a := formula
  have walk : w.atlas.Crosses ⟨p.pageAt Progress.root, a⟩ n t := walk
  rw [isRoot] at formula walk
  exact shallow.crosses_lt inside formula walk

end Pass

namespace Workbook

variable {cache : ParseCache} {a : Address} {v : Value}

/-- What is found in the end in a cell of the root page is what the cell denotes. -/
theorem denotes_of_answers (coherent : w.Coherent) (inside : w.CyclesInside) (shallow : w.PathsShallow)
    (runs : (Pass.ofSheet w (some w.options.maxDepth)).Runs (w.begin cache) p)
    (answers : (Pass.ofSheet w (some w.options.maxDepth)).Answers p ⟨Progress.root, a⟩ v) :
    w.atlas.Denotes ⟨w.rootPage, a⟩ v := by
  -- Paths that are shallow leave room for every formula, so that the limit has no part in the run.
  have roomy (q : Progress)
      (before : (Pass.ofSheet w (some w.options.maxDepth)).Steps (w.begin cache) q) :
      (Pass.ofSheet w (some w.options.maxDepth)).Roomy q := by
    have start := (Pass.ofSheet w (some w.options.maxDepth)).valid_begin cache
    have faithful := Pass.Steps.faithful coherent start before (Progress.begin_faithful w cache)
    exact (Pass.Steps.valid start before).roomy faithful inside shallow
  have steps : w.pass.Steps (w.begin cache) p := (runs.unlimited fun q before _ => roomy q before).steps
  have valid := Pass.Steps.valid (w.pass.valid_begin cache) steps
  have means := (answers.unlimited (roomy _ runs.steps)).root_means valid
    (Pass.Steps.explained coherent rfl steps) rfl runs.stack
  -- As all cycles stay inside pages, what is marked lies on a cycle of its page.
  have verdicts (s : Site Page) (inReach : w.InReach s) (isKnown : p.Known s) :
      p.Marked w s ↔ w.atlas.OnCycle s :=
    ⟨fun marked => inside.onCycle inReach marked.2,
      fun onCycle => Pass.Steps.marked_of_onCycle coherent steps isKnown onCycle⟩
  have inReach : w.InReach ⟨w.rootPage, a⟩ := ⟨a, .refl⟩
  obtain ⟨v', denotes⟩ := denotes_of_inReach inside shallow inReach
  rw [means.unique w.inReach_closed (fun s inReach isKnown _ => verdicts s inReach isKnown) inReach denotes]
  exact denotes

/-- The evaluation of a sheet gives to its cells, and to no others, the values of the only solution of
the equations. -/
theorem evaluateWith_eq_solution (w : Workbook) (cache : ParseCache) (coherent : w.Coherent)
    (inside : w.CyclesInside) (shallow : w.PathsShallow) :
    ∃ V, w.atlas.Solves w.InReach V ∧
      (∀ V', w.atlas.Solves w.InReach V' → ∀ s, w.InReach s → V' s = V s) ∧
      ∀ a, (w.evaluateWith cache).1[a]? =
        (w.sheet.inputs[a]?).map fun _ => (V ⟨w.rootPage, a⟩).toCellValue := by
  have closed := w.inReach_closed
  have chosen (s : Site Page) : ∃ v, w.InReach s → w.atlas.Denotes s v := by
    by_cases inReach : w.InReach s
    · exact (denotes_of_inReach inside shallow inReach).imp fun v denotes _ => denotes
    · exact ⟨.blank, fun reached => absurd reached inReach⟩
  choose V denotes using chosen
  refine ⟨V, Atlas.solves_of_denotes closed denotes, fun V' solves s inReach =>
    (denotes s inReach).eq_solution closed solves inReach, fun a => ?_⟩
  rcases w.getElem?_evaluateWith w.options.maxDepth cache a with
    ⟨blank, none⟩ | ⟨typed, v, answers, value⟩
  · rw [Std.ExtTreeMap.getElem?_eq_none blank]
    exact none
  · have runs := w.runs_evaluate w.options.maxDepth cache
    have means := denotes_of_answers coherent inside shallow runs answers
    have same := means.unique closed (fun _ _ _ _ => Iff.rfl) ⟨a, .refl⟩ (denotes _ ⟨a, .refl⟩)
    rw [Std.ExtTreeMap.getElem?_eq_some_getElem typed, ← same]
    exact value

theorem cyclesInside_of_isLocal (isLocal : w.sheet.IsLocal) : w.CyclesInside := by
  intro a s t reached across
  exact absurd across (not_readsAcross isLocal (onRoot_of_reaches isLocal rfl reached))

theorem pathsShallow_of_isLocal (isLocal : w.sheet.IsLocal) (room : 0 < w.options.maxDepth) :
    w.PathsShallow := by
  intro a sites n formula path
  have never : n = 0 := by
    induction path with
    | start => rfl
    | inside _ _ _ ih => exact ih
    | across path step _ =>
      exact absurd step (not_readsAcross isLocal (onRoot_of_reaches isLocal rfl path.reaches))
  rw [never]
  exact room

/-! ## A cycle inside a page, and a read across pages -/

/-- The cell of the other page that the first cell reads. -/
def answer : Site Page := ⟨⟨"q", .answering⟩, ⟨0, 0⟩⟩

theorem atlas_reads_cycleBeside {t : Site Page} (reads : cycleBeside.atlas.Reads ⟨cycleBeside.rootPage, a⟩ t) :
    (a = ⟨0, 0⟩ ∧ t = answer) ∨ (a = ⟨0, 1⟩ ∧ t = ⟨cycleBeside.rootPage, a⟩) := by
  obtain ⟨e, parsed, r, member, target⟩ := reads
  have entry := Sheet.asking_expr?_iff.1 parsed
  simp only [List.mem_cons, Prod.mk.injEq, List.not_mem_nil, or_false] at entry
  obtain ⟨rfl, rfl⟩ | ⟨rfl, rfl⟩ := entry <;> cases List.mem_singleton.1 member
  · exact .inl ⟨rfl, List.mem_singleton.1 target⟩
  · exact .inr ⟨rfl, List.mem_singleton.1 target⟩

theorem not_reads_answer {t : Site Page} : ¬ cycleBeside.atlas.Reads answer t := by
  rintro ⟨e, parsed, -⟩
  cases Sheet.answering_expr?.symm.trans parsed

theorem readsAcross_cycleBeside {t : Site Page}
    (across : cycleBeside.atlas.ReadsAcross ⟨cycleBeside.rootPage, a⟩ t) : t = answer := by
  rcases atlas_reads_cycleBeside across.reads with ⟨-, isAnswer⟩ | ⟨rfl, -⟩
  · exact isAnswer
  · obtain ⟨e, parsed, r, member, external, -⟩ := across
    have entry := Sheet.asking_expr?_iff.1 parsed
    simp only [List.mem_cons, Prod.mk.injEq, List.not_mem_nil, or_false] at entry
    obtain ⟨same, -⟩ | ⟨-, rfl⟩ := entry
    · cases same
    · cases List.mem_singleton.1 member
      cases external

theorem reaches_cycleBeside {t : Site Page} (path : cycleBeside.atlas.Reaches ⟨cycleBeside.rootPage, a⟩ t) :
    t = ⟨cycleBeside.rootPage, a⟩ ∨ t = answer := by
  induction path with
  | refl => exact .inl rfl
  | tail _ reads ih =>
    rcases ih with rfl | rfl
    · exact (atlas_reads_cycleBeside reads).symm.imp And.right And.right
    · exact absurd reads not_reads_answer

theorem cyclesInside_cycleBeside : cycleBeside.CyclesInside := by
  intro a t u reached across back
  rcases reaches_cycleBeside reached with rfl | rfl
  · obtain rfl := readsAcross_cycleBeside across
    rcases back.cases_head with same | ⟨v, reads, -⟩
    · exact absurd (congrArg (·.page.id) same) (show "q" ≠ "main" by decide)
    · exact not_reads_answer reads
  · exact not_reads_answer across.reads

theorem pathsShallow_cycleBeside : cycleBeside.PathsShallow := by
  intro a sites n _ path
  have once : n = 0 ∧ sites.head? = some ⟨cycleBeside.rootPage, a⟩ ∨ n = 1 ∧ sites.head? = some answer := by
    induction path with
    | start => exact .inl ⟨rfl, rfl⟩
    | inside _ step _ ih =>
      rcases ih with ⟨rfl, isFirst⟩ | ⟨-, isAnswer⟩
      · cases isFirst
        rcases atlas_reads_cycleBeside step.reads with ⟨-, rfl⟩ | ⟨-, rfl⟩
        · exact absurd (congrArg Page.id step.1) (show "q" ≠ "main" by decide)
        · exact .inl ⟨rfl, rfl⟩
      · cases isAnswer
        exact absurd step.reads not_reads_answer
    | across _ step _ ih =>
      rcases ih with ⟨rfl, isFirst⟩ | ⟨-, isAnswer⟩
      · cases isFirst
        obtain rfl := readsAcross_cycleBeside step
        exact .inr ⟨rfl, rfl⟩
      · cases isAnswer
        exact absurd step.reads not_reads_answer
  have room : 1 < cycleBeside.options.maxDepth := by decide
  omega

/-- The first cell shows what it reads on the other page, and the second one that it lies on a cycle. -/
theorem evaluateWith_cycleBeside :
    (cycleBeside.evaluateWith .empty).1[(⟨0, 0⟩ : Address)]? = some (.text "x") ∧
    (cycleBeside.evaluateWith .empty).1[(⟨0, 1⟩ : Address)]? = some (.error .circular) := by
  obtain ⟨V, solves, -, shown⟩ := evaluateWith_eq_solution cycleBeside .empty (coherent_ofTwo _ _)
    cyclesInside_cycleBeside pathsShallow_cycleBeside
  have reads : cycleBeside.atlas.Reads ⟨cycleBeside.rootPage, ⟨0, 0⟩⟩ answer :=
    ⟨_, Sheet.asking_expr?_iff.2 List.mem_cons_self, _, List.mem_singleton.2 rfl, List.mem_singleton.2 rfl⟩
  have atAnswer : V answer = .text "x" :=
    solves.literal _ _ ⟨⟨0, 0⟩, .single reads⟩ (show (Sheet.answering.input ⟨0, 0⟩).literal? = _ by
      rw [show Sheet.answering.input ⟨0, 0⟩ = .text "x" by decide +kernel]; rfl)
  have noCycle : ¬ Sheet.asking.OnCycle ⟨0, 0⟩ := by
    intro onCycle
    obtain ⟨b, reads, -⟩ := Relation.TransGen.head'_iff.1 onCycle
    obtain ⟨e, parsed, r, member, target⟩ := Sheet.reads_iff_expr?.1 reads
    cases (Sheet.asking_expr?_iff.2 List.mem_cons_self).symm.trans parsed
    cases List.mem_singleton.1 member
    cases target
  have onCycle : Sheet.asking.OnCycle ⟨0, 1⟩ := .single (Sheet.reads_iff_expr?.2
    ⟨_, Sheet.asking_expr?_iff.2 (.tail _ List.mem_cons_self), _, List.mem_singleton.2 rfl, List.mem_singleton.2 rfl⟩)
  have atFirst : V ⟨cycleBeside.rootPage, ⟨0, 0⟩⟩ = ((V answer).propagated).finish :=
    solves.formula _ _ ⟨⟨0, 0⟩, .refl⟩ (Sheet.asking_expr?_iff.2 List.mem_cons_self) noCycle
  have atSecond := solves.circular ⟨cycleBeside.rootPage, ⟨0, 1⟩⟩ ⟨⟨0, 1⟩, .refl⟩ onCycle
  have typed : cycleBeside.sheet.inputs[(⟨0, 0⟩ : Address)]? = some "=@[Q](q):A1" := by decide +kernel
  have typed' : cycleBeside.sheet.inputs[(⟨0, 1⟩ : Address)]? = some "=B1" := by decide +kernel
  rw [shown, shown, typed, typed', atFirst, atAnswer, Option.map_some, Option.map_some, atSecond]
  exact ⟨rfl, rfl⟩

end Workbook
end PageCalc

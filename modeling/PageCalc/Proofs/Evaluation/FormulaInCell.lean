import PageCalc.Proofs.Evaluation.FormulaSheets
import PageCalc.Proofs.Evaluation.Standalone
import PageCalc.Proofs.Evaluation.Transfer
import PageCalc.Proofs.Evaluation.Transparency

/-!
# Formulas in a cell and in none

A formula that stands in no cell has the value that it would have in a cell that nothing reads. All that
it leads to is found in the sheet with it as well, with the same values.
-/

namespace PageCalc

open Collection

theorem PageTarget.sight_congr {π : Type} {s t : Sheet} {policy : WholeSheetPolicy} {page : π}
    {target : PageTarget} (rows : t.rows = s.rows) (columns : t.columns = s.columns) :
    target.sight policy page t = target.sight policy page s := by
  have cellsIn : t.cellsIn = s.cellsIn := funext (Sheet.cellsIn_congr rows columns)
  unfold PageTarget.sight WholeSheetPolicy.sight
  rw [Sheet.extent?_congr rows columns, cellsIn]

namespace Workbook

variable {w : Workbook} {t : Sheet} {x a : Address} {raw : String} {page : Page} {s : Site Page} {e : Expr}

/-- The workbook with another sheet on its root page. -/
abbrev revised (w : Workbook) (t : Sheet) : Workbook := ({ w with sheet := t } : Workbook).rooted

open Classical in
/-- The pages of a workbook after its root has got another sheet. -/
noncomputable def retyped (w : Workbook) (t : Sheet) (page : Page) : Page :=
  if page = w.rootPage then { page with sheet := t } else page

theorem retyped_rootPage : w.retyped t w.rootPage = (w.revised t).rootPage := if_pos rfl

theorem retyped_of_ne (other : page ≠ w.rootPage) : w.retyped t page = page := if_neg other

theorem retyped_id : (w.retyped t page).id = page.id := by
  unfold retyped
  split <;> rfl

theorem find_retyped (r : PageRef) : (w.revised t).find r =
    (w.rooted.find r).map (w.retyped t) := by
  have root := retyped_rootPage (w := w) (t := t)
  by_cases own : r.identifier = w.pageId
  · rw [find_own (w := w.rooted) own, find_own (w := w.revised t) own]
    exact congrArg Except.ok root.symm
  cases given : w.resolver r with
  | error failure =>
    rw [find_rooted_of_error own given, find_rooted_of_error (w := { w with sheet := t }) own given]
    rfl
  | ok answer =>
    rw [find_rooted_of_ok own given, find_rooted_of_ok (w := { w with sheet := t }) own given]
    by_cases isRoot : answer.id = w.pageId
    · simp only [isRoot, if_true, Except.map, root]
      rfl
    · have other : (⟨answer.id, answer.sheet⟩ : Page) ≠ w.rootPage :=
        fun same => isRoot (congrArg Page.id same)
      simp only [isRoot, if_false, Except.map, retyped_of_ne other]

theorem exists_of_find_retyped {r : PageRef}
    (found : (w.revised t).find r = .ok page) :
    ∃ there, w.rooted.find r = .ok there ∧ w.retyped t there = page := by
  rw [find_retyped] at found
  cases leads : w.rooted.find r with
  | error message =>
    rw [leads] at found
    cases found
  | ok there =>
    rw [leads] at found
    exact ⟨there, rfl, Except.ok.inj found⟩

theorem Coherent.retyped (coherent : w.rooted.Coherent) (t : Sheet) :
    (w.revised t).Coherent where
  find r r' same := by rw [find_retyped r, find_retyped r', coherent.find r r' same]
  sheet r r' page page' found found' same := by
    obtain ⟨there, leads, rfl⟩ := exists_of_find_retyped found
    obtain ⟨there', leads', rfl⟩ := exists_of_find_retyped found'
    rw [retyped_id, retyped_id] at same
    rw [coherent.page leads leads' same]

section Sights

variable (rows : t.rows = w.sheet.rows) (columns : t.columns = w.sheet.columns)

include rows columns

theorem retyped_cellsIn (page : Page) (area : Range) :
    (w.retyped t page).sheet.cellsIn area = page.sheet.cellsIn area := by
  by_cases isRoot : page = w.rootPage
  · rw [isRoot, retyped_rootPage]
    exact Sheet.cellsIn_congr rows columns area
  · rw [retyped_of_ne isRoot]

theorem retyped_target (page : Page) {policy : WholeSheetPolicy} {target : PageTarget} :
    target.sight policy (w.retyped t page) (w.retyped t page).sheet =
      (target.sight policy page page.sheet).map (w.retyped t) := by
  rw [← PageTarget.sight_map]
  by_cases isRoot : page = w.rootPage
  · rw [isRoot, retyped_rootPage]
    exact PageTarget.sight_congr rows columns
  · rw [retyped_of_ne isRoot]

/-- With another sheet of the same size references show the same places. -/
theorem retyped_sight (page : Page) (r : Reference) :
    (w.revised t).atlas.sight (w.retyped t page) r =
      (w.rooted.atlas.sight page r).map (w.retyped t) := by
  cases r with
  | cell b => rfl
  | range area =>
    show Sight.cells (((w.retyped t page).sheet.cellsIn area).map _) = _
    rw [retyped_cellsIn rows columns]
    simp only [Atlas.sight, Sight.map, List.map_map]
    rfl
  | external external =>
    have leads : (w.revised t).atlas.find external.page =
        (w.rooted.atlas.find external.page).map (w.retyped t) := find_retyped external.page
    cases found : w.rooted.atlas.find external.page with
    | error message =>
      rw [found] at leads
      rw [Atlas.sight_missing found, Atlas.sight_missing leads]
      rfl
    | ok there =>
      rw [found] at leads
      rw [Atlas.sight_external found, Atlas.sight_external leads]
      exact retyped_target rows columns there

end Sights

/-- No formula in reach reads a cell of the root page. -/
def Unread (w : Workbook) (x : Address) : Prop := ∀ s, w.InReach s → ¬ w.atlas.Reads s ⟨w.rootPage, x⟩

/-- A cell of the grid has got an input that no formula in reach reads. -/
structure Tried (w : Workbook) (x : Address) (raw : String) (t : Sheet) : Prop where
  typed : w.sheet.Typed x raw t
  rows : t.rows = w.sheet.rows
  columns : t.columns = w.sheet.columns
  unread : (w.revised t).Unread x

/-- A site that is in reach after the input was typed in, and is not that of the input. -/
def Spared (w : Workbook) (x : Address) (t : Sheet) (s : Site Page) : Prop :=
  (w.revised t).InReach (s.along (w.retyped t)) ∧ s ≠ ⟨w.rootPage, x⟩

namespace Tried

variable (tried : w.Tried x raw t)

include tried

theorem input (other : s ≠ ⟨w.rootPage, x⟩) :
    (w.revised t).atlas.input (s.along (w.retyped t)) = w.rooted.atlas.input s := by
  obtain ⟨page, b⟩ := s
  show (w.retyped t page).sheet.input b = page.sheet.input b
  by_cases isRoot : page = w.rootPage
  · subst isRoot
    rw [retyped_rootPage]
    exact tried.typed.input_of_ne fun same => other (by rw [same])
  · rw [retyped_of_ne isRoot]

theorem reads {s' : Site Page} (other : s ≠ ⟨w.rootPage, x⟩) (reads : w.rooted.atlas.Reads s s') :
    (w.revised t).atlas.Reads (s.along (w.retyped t)) (s'.along (w.retyped t)) := by
  obtain ⟨e, parsed, r, member, target⟩ := reads
  refine ⟨e, (Atlas.expr?_congr (tried.input other)).trans parsed, r, member, ?_⟩
  rw [Atlas.targets, Site.along, retyped_sight tried.rows tried.columns, Sight.sites_map]
  exact List.mem_map_of_mem target

theorem spared_of_reads {s : Site Page} {s' : Site Page}
    (inReach : (w.revised t).InReach s)
    (reads : (w.revised t).atlas.Reads s (s'.along (w.retyped t))) :
    w.Spared x t s' := by
  refine ⟨inReach_closed _ _ _ inReach reads, ?_⟩
  rintro rfl
  refine tried.unread _ inReach ?_
  rwa [Site.along, retyped_rootPage] at reads

theorem embeds : w.rooted.atlas.Embeds (w.revised t).atlas (w.retyped t)
    (w.Spared x t) where
  closed _ _ spared reads := tried.spared_of_reads spared.1 (tried.reads spared.2 reads)
  library := rfl
  input _ spared := tried.input spared.2
  sight _ _ _ _ _ _ := retyped_sight tried.rows tried.columns _ _

theorem expr? (isFormula : isFormulaText raw) (parsed : Expr.ofFormula raw = .ok e) :
    (w.revised t).atlas.expr? ⟨(w.revised t).rootPage, x⟩ = some e := by
  refine Atlas.expr?_of_parsed ?_ parsed
  exact tried.typed.input.trans (Input.ofText_of_isFormulaText isFormula)

/-- What the input refers to is in reach, and is found on the way without it. -/
theorem exists_crosses {r : Reference}
    (parsed : (w.revised t).atlas.expr? ⟨(w.revised t).rootPage, x⟩ = some e) (member : r ∈ e.references)
    (target : s ∈ w.rooted.atlas.targets w.rootPage r) :
    w.Spared x t s ∧
      ∃ n, (w.revised t).atlas.Crosses ⟨(w.revised t).rootPage, x⟩ n (s.along (w.retyped t)) := by
  have reads : (w.revised t).atlas.Reads ⟨(w.revised t).rootPage, x⟩ (s.along (w.retyped t)) := by
    refine ⟨e, parsed, r, member, ?_⟩
    show _ ∈ (w.revised t).atlas.targets (w.revised t).rootPage r
    rw [← retyped_rootPage, Atlas.targets, retyped_sight tried.rows tried.columns, Sight.sites_map]
    exact List.mem_map_of_mem target
  exact ⟨tried.spared_of_reads ⟨x, .refl⟩ reads, Atlas.exists_crosses (.single reads)⟩

theorem shallow {r : Reference} (inside : (w.revised t).CyclesInside) (shallow : (w.revised t).PathsShallow)
    (parsed : (w.revised t).atlas.expr? ⟨(w.revised t).rootPage, x⟩ = some e) (member : r ∈ e.references) :
    w.rooted.Shallow r := by
  intro s target n u walk
  obtain ⟨spared, m, first⟩ := tried.exists_crosses parsed member target
  have within := shallow.crosses_lt inside (Sheet.isFormula_of_expr? parsed)
    (first.trans (tried.embeds.crosses spared walk))
  exact Nat.lt_of_le_of_lt (Nat.le_add_left n m) within

theorem not_onCycle : ¬ (w.revised t).atlas.OnCycle ⟨(w.revised t).rootPage, x⟩ := by
  intro onCycle
  obtain ⟨b, -, reads⟩ := Relation.TransGen.tail'_iff.1 onCycle
  have inside : (w.revised t).atlas.ReadsInside ⟨(w.revised t).rootPage, b⟩ ⟨(w.revised t).rootPage, x⟩ :=
    ⟨rfl, reads⟩
  exact tried.unread _ ⟨b, .refl⟩ inside.reads

/-- The value of the formula is the one that its cell denotes. -/
theorem denotes (isFormula : isFormulaText raw) (parsed : Expr.ofFormula raw = .ok e)
    (coherent : (w.revised t).Coherent) (inside : (w.revised t).CyclesInside)
    (shallow : (w.revised t).PathsShallow) : (w.revised t).atlas.Denotes ⟨(w.revised t).rootPage, x⟩
      ((w.evaluation e).run (w.begin .empty)).1.finish := by
  have parsed := tried.expr? isFormula parsed
  have coherent' : w.rooted.Coherent := coherent.retyped (w := { w with sheet := t }) w.sheet
  have run := (Progress.Idle.start w.rooted .empty).after_plan coherent'
    (ensures_plan (ValueLaw.trivial w.library) e) fun r member =>
      tried.shallow inside shallow parsed (e.evaluated_subset _ member)
  rw [← evaluateExpr_eq_run] at run
  obtain ⟨last, -, yields⟩ := run
  -- A site that is in reach was found to lie on a cycle if it lies on one of its page.
  have verdicts (s : Site Page) (spared : w.Spared x t s)
      (isKnown : ((w.evaluation e).run (w.begin .empty)).2.Known s) :
      ((w.evaluation e).run (w.begin .empty)).2.Marked w.rooted s ↔
        (w.revised t).atlas.OnCycle (s.along (w.retyped t)) := by
    constructor
    · exact fun marked => inside.onCycle spared.1 (tried.embeds.dependsOn spared marked.2)
    · intro onCycle
      exact last.valid.marked_of_onCycle last.faithful isKnown ((tried.embeds.onCycle_iff spared).1 onCycle)
  refine .formula trivial parsed tried.not_onCycle (fun _ _ => id) ((yields_within yields).mono ?_)
  rintro r v ⟨member, gives⟩
  have member := e.evaluated_subset _ member
  show ((w.revised t).atlas.sight (w.revised t).rootPage r).Gives _ v
  rw [← retyped_rootPage, retyped_sight tried.rows tried.columns]
  refine gives.map fun s target u means => ?_
  exact tried.embeds.recurs.denotes verdicts (tried.exists_crosses parsed member target).1 means

end Tried

theorem tried_of_set (row : x.row < w.sheet.rows) (column : x.column < w.sheet.columns)
    (done : w.sheet.set x raw = .ok t) (unread : (w.revised t).Unread x) :
    w.Tried x raw t := by
  have typed := Sheet.typed_of_set done
  refine ⟨typed, ?_, ?_, unread⟩
  · rw [typed.rows]
    split <;> omega
  · rw [typed.columns]
    split <;> omega

/-- A formula evaluates as if it were typed into a cell of the grid that no formula in reach reads. -/
theorem evaluateWith_eq_evaluateFormula (w : Workbook) (cache : ParseCache) (isFormula : isFormulaText raw)
    (row : x.row < w.sheet.rows) (column : x.column < w.sheet.columns) (done : w.sheet.set x raw = .ok t)
    (unread : (w.revised t).Unread x) (coherent : (w.revised t).Coherent)
    (inside : (w.revised t).CyclesInside) (shallow : (w.revised t).PathsShallow) :
    (({ w with sheet := t } : Workbook).evaluateWith cache).1[x]? = some (w.evaluateFormula raw).1 := by
  have tried := tried_of_set row column done unread
  have source : t.input x = .formula raw := tried.typed.input.trans (Input.ofText_of_isFormulaText isFormula)
  obtain ⟨v, denotes, evaluated⟩ : ∃ v, (w.revised t).atlas.Denotes ⟨(w.revised t).rootPage, x⟩ v ∧
      (w.evaluateFormula raw).1 = v.toCellValue := by
    cases parsed : Expr.ofFormula raw with
    | error fault => exact ⟨_, .fault trivial source parsed, by simp only [evaluateFormula, parsed]; rfl⟩
    | ok e =>
      exact ⟨_, tried.denotes isFormula parsed coherent inside shallow, w.evaluateFormula_of_parsed parsed⟩
  have runs := runs_evaluate { w with sheet := t } w.options.maxDepth cache
  have filled : x ∈ t.inputs := Sheet.mem_inputs_of_isFormula (Sheet.isFormula_iff.2 ⟨raw, source⟩)
  obtain ⟨-, u, answers, shown⟩ := (getElem?_evaluateWith { w with sheet := t } w.options.maxDepth cache
    x).resolve_left fun blank => blank.1 filled
  have denotesToo : (w.revised t).atlas.Denotes ⟨(w.revised t).rootPage, x⟩ u :=
    denotes_of_answers coherent inside shallow (runs.rooted (Pass.valid_begin _ cache)) answers.rooted
  have same := denotesToo.unique (inReach_closed _) (fun _ _ _ _ => Iff.rfl) ⟨x, .refl⟩ denotes
  rw [evaluated, ← same]
  exact shown

/-! ## A mirror and a formula beside it -/

/-- A mirror with room for a formula beside it. -/
def mirrorWithRoom : Workbook where
  sheet := (Sheet.mirror ⟨0, 1⟩).ensureSize 1 3
  pageId := "main"

theorem evaluateWith_mirrorWithRoom :
    (({ mirrorWithRoom with sheet := .mirrorBeside ("=" ++ Address.first.text) (by simp) } :
      Workbook).evaluateWith .empty).1[(⟨0, 2⟩ : Address)]? =
    some (mirrorWithRoom.evaluateFormula ("=" ++ Address.first.text)).1 := by
  have references (a : Address) (e : Expr)
      (parsed : (Sheet.mirrorBeside ("=" ++ Address.first.text) (by simp)).expr? a = some e) :
      ∃ b : Address, b ≠ ⟨0, 2⟩ ∧ e = .reference (.cell b) := by
    rw [Sheet.mirrorBeside_expr?_text (by decide)] at parsed
    split at parsed
    · cases parsed
      exact ⟨.first, by decide, rfl⟩
    · split at parsed <;> cases parsed
      exact ⟨⟨0, 1⟩, by decide, rfl⟩
  have isLocal : (Sheet.mirrorBeside ("=" ++ Address.first.text) (by simp)).IsLocal :=
    Sheet.isLocal_of_references fun a e parsed =>
      (references a e parsed).elim fun b cell => ⟨.cell b, rfl, cell.2⟩
  refine evaluateWith_eq_evaluateFormula mirrorWithRoom .empty (by simp [isFormulaText]) (by decide)
    (by decide) rfl ?_ (coherent_of_none rfl) (cyclesInside_of_isLocal isLocal)
    (pathsShallow_of_isLocal isLocal (by decide))
  rintro ⟨page, a⟩ ⟨b, path⟩ ⟨e, parsed, r, member, target⟩
  obtain rfl := onRoot_of_reaches (w := mirrorWithRoom.revised _) isLocal rfl path
  obtain ⟨c, other, rfl⟩ := references a e parsed
  cases List.mem_singleton.1 (by simpa [Expr.references] using member)
  exact other (congrArg Site.address (List.mem_singleton.1 target)).symm

/-! ## Answers that disagree

Two answers of the resolver call themselves the same, but come with different sheets. The first one that
is asked for is read, and which one that is depends on the formulas that were evaluated before. -/

/-- The sheet that comes with the answer for an identifier. -/
def forkedAnswer (identifier : String) : Sheet :=
  (Sheet.empty.ensureSize 1 2).insert ⟨0, 1⟩ (if identifier = "p1" then "x" else "y") (by decide)
    (by split <;> decide)

/-- A workbook in which all identifiers lead to pages that call themselves the same. -/
def forked : Workbook where
  sheet := (Sheet.empty.ensureSize 1 2).insert ⟨0, 0⟩ "=@[P](p1):B1" (by decide) (by decide)
  pageId := "main"
  resolver page := .ok ⟨"p", page.label, forkedAnswer page.identifier⟩

/-- The sheet with a formula beside the one that is there. -/
def forkedBeside : Sheet := forked.sheet.insert ⟨0, 1⟩ "=@[P](p2):B1" (by decide) (by decide)

theorem ofFormula_forked (i : String) (member : i ∈ ["p1", "p2"]) :
    Expr.ofFormula (Expr.across i "P" ⟨0, 1⟩).formula = .ok (.across i "P" ⟨0, 1⟩) := by
  have identifiers : ')' ∉ i.toList ∧ (Text.trim i.toList).isEmpty = false := by
    simp only [List.mem_cons, List.not_mem_nil, or_false] at member
    rcases member with rfl | rfl <;> decide
  exact Expr.ofFormula_across (by decide) identifiers.1 identifiers.2 (by decide)

theorem forkedBeside_expr?_iff {a : Address} {e : Expr} : forkedBeside.expr? a = some e ↔
    (a, e) ∈ ([(⟨0, 0⟩, .across "p1" "P" ⟨0, 1⟩), (⟨0, 1⟩, .across "p2" "P" ⟨0, 1⟩)] : List (Address × Expr)) := by
  refine Sheet.expr?_eq_some_iff (by decide +kernel) ?_
  simp only [List.forall_mem_cons]
  exact ⟨ofFormula_forked _ (by decide), ofFormula_forked _ (by decide), List.forall_mem_nil _⟩

/-- The cache of both formulas. -/
def forkedCache : ParseCache :=
  .ofExprs [.across "p1" "P" ⟨0, 1⟩, .across "p2" "P" ⟨0, 1⟩] <| by
    simp only [List.forall_mem_cons]
    exact ⟨ofFormula_forked _ (by decide), ofFormula_forked _ (by decide), List.forall_mem_nil _⟩

/-- The formula on its own reads the page that its own identifier leads to. -/
theorem evaluateFormula_forked : (forked.evaluateFormula "=@[P](p2):B1").1 = .text "y" := by
  have printed : (Expr.across "p2" "P" ⟨0, 1⟩).formula = "=@[P](p2):B1" := by decide +kernel
  rw [← printed, evaluateFormula_of_parsed (ofFormula_forked _ (by decide)), ← evaluation_fst forked forkedCache]
  decide +kernel

/-- In its cell it finds the page that was loaded for the other formula. -/
theorem evaluate_forkedBoth :
    ({ forked with sheet := forkedBeside } : Workbook).evaluate[(⟨0, 1⟩ : Address)]? = some (.text "x") := by
  rw [← evaluateWith_fst _ forkedCache]
  decide +kernel

/-- A formula of the root reads an answer of the resolver. -/
theorem reads_forkedBeside {a : Address} {u : Site Page}
    (reads : (forked.revised forkedBeside).atlas.Reads ⟨(forked.revised forkedBeside).rootPage, a⟩ u) :
    ∃ i, u.page = ⟨"p", forkedAnswer i⟩ := by
  obtain ⟨e, parsed, r, member, target⟩ := reads
  have entry := forkedBeside_expr?_iff.1 parsed
  have isAnswer (i : String) (other : i ≠ "main") (isTree : e = .across i "P" ⟨0, 1⟩) :
      ∃ i, u.page = ⟨"p", forkedAnswer i⟩ := by
    subst isTree
    cases List.mem_singleton.1 member
    have found : (forked.revised forkedBeside).atlas.find ⟨i, "P"⟩ = .ok ⟨"p", forkedAnswer i⟩ :=
      find_rooted_of_ok (w := { forked with sheet := forkedBeside }) other rfl
    rw [Atlas.targets, Atlas.sight_external found] at target
    exact ⟨i, congrArg Site.page (List.mem_singleton.1 target)⟩
  simp only [List.mem_cons, Prod.mk.injEq, List.not_mem_nil, or_false] at entry
  obtain ⟨-, isTree⟩ | ⟨-, isTree⟩ := entry <;> exact isAnswer _ (by decide) isTree

theorem forkedAnswer_expr? {i : String} {a : Address} : (forkedAnswer i).expr? a = none := by
  rw [forkedAnswer, Sheet.expr?_insert_of_literal (by split <;> decide)]
  split <;> rfl

/-- In reach only the formulas of the root read anything. -/
theorem reads_forked {s u : Site Page} (inReach : (forked.revised forkedBeside).InReach s)
    (reads : (forked.revised forkedBeside).atlas.Reads s u) :
    s.page = (forked.revised forkedBeside).rootPage ∧ u.page.id = "p" := by
  obtain ⟨a, path⟩ := inReach
  have onRoot (s : Site Page) (isRoot : s.page = (forked.revised forkedBeside).rootPage)
      (reads : (forked.revised forkedBeside).atlas.Reads s u) : u.page.id = "p" := by
    obtain ⟨page, a⟩ := s
    subst isRoot
    obtain ⟨i, isAnswer⟩ := reads_forkedBeside reads
    rw [isAnswer]
  -- From the root one comes to an answer, and an answer holds no formula.
  have place : s.page = (forked.revised forkedBeside).rootPage ∨ ∃ i, s.page = ⟨"p", forkedAnswer i⟩ := by
    clear reads onRoot
    induction path with
    | refl => exact .inl rfl
    | @tail s u _ reads ih =>
      obtain ⟨page, a⟩ := s
      rcases ih with rfl | ⟨i, rfl⟩
      · exact .inr (reads_forkedBeside reads)
      · obtain ⟨e, parsed, -⟩ := reads
        cases forkedAnswer_expr?.symm.trans parsed
  rcases place with isRoot | ⟨i, isAnswer⟩
  · exact ⟨isRoot, onRoot s isRoot reads⟩
  · obtain ⟨page, a⟩ := s
    obtain rfl := isAnswer
    obtain ⟨e, parsed, -⟩ := reads
    cases forkedAnswer_expr?.symm.trans parsed

/-- With the formula in its cell every cycle of references stays inside its page, paths are short, and
nothing reads the cell. -/
theorem tame_forked : (forked.revised forkedBeside).CyclesInside ∧
    (forked.revised forkedBeside).PathsShallow ∧ (forked.revised forkedBeside).Unread ⟨0, 1⟩ := by
  refine ⟨?_, ?_, fun s inReach reads => absurd (reads_forked inReach reads).2 (by decide)⟩
  · intro a s u path across back
    have away := (reads_forked ⟨a, path⟩ across.reads).2
    rcases back.cases_head with same | ⟨_, reads, -⟩
    · rw [same, (reads_forked ⟨a, path⟩ across.reads).1] at away
      exact absurd away (by decide)
    · rw [(reads_forked (inReach_closed _ _ _ ⟨a, path⟩ across.reads) reads).1] at away
      exact absurd away (by decide)
  · intro a sites n _ path
    -- A path goes across once, from the root to a page that reads nothing.
    suffices n ≤ 1 ∧ (n = 0 ∨ ∀ s ∈ sites.head?, s.page.id = "p") from
      Nat.lt_of_le_of_lt this.1 (by decide)
    induction path with
    | start => exact ⟨Nat.zero_le 1, .inl rfl⟩
    | inside path step _ _ =>
      obtain ⟨onRoot, away⟩ := reads_forked ⟨a, path.reaches⟩ step.reads
      rw [step.1, onRoot] at away
      exact absurd away (by decide)
    | across path step _ ih =>
      obtain ⟨onRoot, away⟩ := reads_forked ⟨a, path.reaches⟩ step.reads
      obtain rfl : _ = 0 := ih.2.resolve_right fun elsewhere => by
        have elsewhere := elsewhere _ rfl
        rw [onRoot] at elsewhere
        exact absurd elsewhere (by decide)
      exact ⟨Nat.le_refl 1, .inr fun s isLast => Option.some.inj isLast ▸ away⟩

theorem answers_disagree : forked.sheet.get ⟨0, 1⟩ = "" ∧
    forked.sheet.set ⟨0, 1⟩ "=@[P](p2):B1" = .ok forkedBeside ∧
    (forked.revised forkedBeside).CyclesInside ∧ (forked.revised forkedBeside).PathsShallow ∧
    (forked.revised forkedBeside).Unread ⟨0, 1⟩ ∧
    (forked.evaluateFormula "=@[P](p2):B1").1 = .text "y" ∧
    ({ forked with sheet := forkedBeside } : Workbook).evaluate[(⟨0, 1⟩ : Address)]? = some (.text "x") :=
  ⟨by decide +kernel, rfl, tame_forked.1, tame_forked.2.1, tame_forked.2.2, evaluateFormula_forked,
    evaluate_forkedBoth⟩

end Workbook
end PageCalc

import PageCalc.Proofs.Evaluation.Edits
import PageCalc.Proofs.Graph.Report
import PageCalc.Proofs.Grid.Area
import PageCalc.Proofs.Value.Finished

/-!
# Workbooks with other formulas

Two workbooks that are the same but for some formulas, in whose places the second one has others. If each of
these refers to the same cells of the grid as the formula that it stands for, the evaluations of both go
through the same states: the same cells lie on cycles inside a page, and a formula waits for the same cells.
-/

namespace PageCalc

open Collection PageCalc.Graph

variable {E : Expr → Expr → Prop}

/-! ## Sheets -/

/-- What is typed into two cells is the same, or two formulas with related trees. -/
inductive Input.Rewritten (E : Expr → Expr → Prop) : Input → Input → Prop where
  | same {input : Input} : Rewritten E input input
  | formula {source source' : String} {e e' : Expr} (parsed : Expr.ofFormula source = .ok e)
      (parsed' : Expr.ofFormula source' = .ok e') (related : E e e') :
      Rewritten E (.formula source) (.formula source')

/-- Two sheets of one size, with the same inputs but for formulas that are related. -/
structure Sheet.Rewritten (E : Expr → Expr → Prop) (s t : Sheet) : Prop where
  rows : t.rows = s.rows
  columns : t.columns = s.columns
  inputs : ∀ a, (s.input a).Rewritten E (t.input a)

/-- The expression refers to a cell of its own sheet. -/
def Expr.RefersTo (sheet : Sheet) (e : Expr) (b : Address) : Prop := ∃ r ∈ e.references, b ∈ r.localCells sheet

/-- Related expressions refer to the same cells of any grid. -/
def SameTargets (E : Expr → Expr → Prop) : Prop :=
  ∀ e e', E e e' → ∀ (sheet : Sheet) (b : Address), sheet.holds b → (e.RefersTo sheet b ↔ e'.RefersTo sheet b)

namespace Sheet

variable {s t : Sheet} {a b : Address}

theorem Rewritten.refl (s : Sheet) : s.Rewritten E s := ⟨rfl, rfl, fun _ => .same⟩

theorem holds_of_isFormula (formula : s.isFormula b) : s.holds b := holds_of_mem (mem_inputs_of_isFormula formula)

theorem reads_iff_refersTo {source : String} {e : Expr} (typed : s.input a = .formula source)
    (parsed : Expr.ofFormula source = .ok e) : s.Reads a b ↔ e.RefersTo s b := by
  rw [Reads, references_of_formula typed parsed, Expr.RefersTo]

namespace Rewritten

variable (rewritten : s.Rewritten E t)

include rewritten

theorem isFormula : t.isFormula a = s.isFormula a := by
  unfold Sheet.isFormula
  generalize s.input a = i, t.input a = j, rewritten.inputs a = inputs
  cases inputs <;> rfl

theorem cellsIn (area : Range) : t.cellsIn area = s.cellsIn area :=
  cellsIn_congr rewritten.rows rewritten.columns area

theorem reads_iff (targets : SameTargets E) (inside : s.holds b) : s.Reads a b ↔ t.Reads a b := by
  have sameCells (r : Reference) := localCells_congr rewritten.rows rewritten.columns r
  generalize typed : s.input a = i, typed' : t.input a = j, rewritten.inputs a = inputs
  cases inputs with
  | same =>
    have sameReferences : t.references a = s.references a := by
      simp only [references, expr?, typed, typed']
    simp only [Reads, sameReferences, sameCells]
  | @formula source source' e e' parsed parsed' related =>
    rw [reads_iff_refersTo typed parsed, reads_iff_refersTo typed' parsed', targets e e' related s b inside]
    simp only [Expr.RefersTo, sameCells]

theorem swap : t.Rewritten (fun e e' => E e' e) s where
  rows := rewritten.rows.symm
  columns := rewritten.columns.symm
  inputs a := by
    generalize s.input a = i, t.input a = j, rewritten.inputs a = inputs
    cases inputs with
    | same => exact .same
    | formula parsed parsed' related => exact .formula parsed' parsed related

theorem onCycle (targets : SameTargets E) (onCycle : s.OnCycle a) : t.OnCycle a := by
  obtain ⟨b, first, -⟩ := Relation.TransGen.head'_iff.1 onCycle
  -- Whatever is read on the way is a formula, and lies in the grid.
  have along {c : Address} (path : Relation.TransGen s.Reads c a) : Relation.TransGen t.Reads c a := by
    induction path using Relation.TransGen.head_induction_on with
    | single reads => exact .single ((rewritten.reads_iff targets (holds_of_isFormula first.isFormula)).1 reads)
    | head reads path ih =>
      obtain ⟨d, next, -⟩ := Relation.TransGen.head'_iff.1 path
      exact .head ((rewritten.reads_iff targets (holds_of_isFormula next.isFormula)).1 reads) ih
  exact along onCycle

theorem onCycle_iff (targets : SameTargets E) : t.OnCycle a ↔ s.OnCycle a := by
  have targets' : SameTargets fun e e' => E e' e := fun e e' related sheet b inside =>
    (targets e' e related sheet b inside).symm
  exact ⟨rewritten.swap.onCycle targets', rewritten.onCycle targets⟩

/-! ## Dependencies -/

variable {cache cache' : ParseCache}

/-- The same cells are filled. -/
theorem keys : t.inputs.keys = s.inputs.keys := by
  refine eq_of_pairwise_lt Std.ExtTreeMap.ordered_keys Std.ExtTreeMap.ordered_keys fun a => ?_
  rw [Std.ExtTreeMap.mem_keys, Std.ExtTreeMap.mem_keys, mem_inputs_iff, mem_inputs_iff]
  generalize s.input a = i, t.input a = j, rewritten.inputs a = inputs
  cases inputs with
  | same => exact Iff.rfl
  | formula => exact iff_of_true nofun nofun

theorem formulas : (Dependencies.ofSheet t cache').1.formulas = (Dependencies.ofSheet s cache).1.formulas := by
  refine Std.ExtTreeSet.ext_mem fun a => ?_
  rw [Dependencies.mem_formulas_ofSheet, Dependencies.mem_formulas_ofSheet, rewritten.isFormula]

theorem members (targets : SameTargets E) :
    (Dependencies.ofSheet t cache').1.cycles.members = (Dependencies.ofSheet s cache).1.cycles.members := by
  refine Std.ExtTreeSet.ext_mem fun a => ?_
  rw [Dependencies.mem_cycles_ofSheet, Dependencies.mem_cycles_ofSheet, rewritten.onCycle_iff targets]

/-- Among the cells that a formula reads, those that hold formulas are the same and in the same order. -/
theorem filter_precedentsOf (targets : SameTargets E) {wanted : Address → Bool}
    (formula : ∀ b, wanted b → s.isFormula b) (a : Address) :
    ((Dependencies.ofSheet t cache').1.precedentsOf a).filter wanted =
      ((Dependencies.ofSheet s cache).1.precedentsOf a).filter wanted := by
  have rising (g : Dependencies) : ((g.precedentsOf a).filter wanted).Pairwise (compare · · = .lt) :=
    .filter _ Std.ExtTreeSet.ordered_toList
  refine eq_of_pairwise_lt (rising _) (rising _) fun b => ?_
  rw [List.mem_filter, List.mem_filter, Dependencies.mem_precedentsOf_ofSheet,
    Dependencies.mem_precedentsOf_ofSheet]
  refine and_congr_left fun isWanted => ?_
  exact (rewritten.reads_iff targets (holds_of_isFormula (formula b isWanted))).symm

end Rewritten

end Sheet

/-! ## Workbooks -/

/-- Two answers of resolvers are the same failure, or pages with one identifier and related sheets. -/
inductive ResolvedPage.Rewritten (E : Expr → Expr → Prop) :
    Except ResolveError ResolvedPage → Except ResolveError ResolvedPage → Prop where
  | missing {failure : ResolveError} : Rewritten E (.error failure) (.error failure)
  | found {page page' : ResolvedPage} (id : page'.id = page.id) (sheet : page.sheet.Rewritten E page'.sheet) :
      Rewritten E (.ok page) (.ok page')

/-- Two workbooks whose sheets, those of other pages as well, are the same but for formulas that are related. -/
structure Workbook.Rewritten (E : Expr → Expr → Prop) (w w' : Workbook) : Prop where
  sheet : w.sheet.Rewritten E w'.sheet
  pageId : w'.pageId = w.pageId
  resolver : ∀ page, ResolvedPage.Rewritten E (w.resolver page) (w'.resolver page)
  library : w'.library = w.library
  options : w'.options = w.options

theorem Workbook.Rewritten.refl (w : Workbook) : w.Rewritten E w where
  sheet := .refl w.sheet
  pageId := rfl
  resolver page := by
    cases w.resolver page with
    | error failure => exact .missing
    | ok page => exact .found rfl (.refl _)
  library := rfl
  options := rfl

/-! ## States -/

namespace Progress

/-- The dependencies of a page are those of its sheet. -/
def Gathered (p : Progress) : Prop :=
  ∀ place, p.dependencies place = (Dependencies.ofSheet (p.sheet place) .empty).1

/-- What holds of every state of an evaluation: only formulas are under evaluation or finished, and what leads
to a page leads to one that is loaded. -/
structure Sane (p : Progress) : Prop where
  gathered : p.Gathered
  finished : ∀ (key : CellKey) (v : Value), p.memo[key]? = some v → p.IsFormula key ∧ v.Finished
  entered : ∀ key ∈ p.stack, p.IsFormula key
  resolved : ∀ (identifier : String) (place : Nat), p.resolutions[identifier]? = some (.ok place) →
    place < p.pages.size

/-- From one state to another, the same formulas are under evaluation, and what was found out about pages stays. -/
structure Onward (p q : Progress) : Prop where
  stack : q.stack = p.stack
  size : p.pages.size ≤ q.pages.size
  pages : ∀ place < p.pages.size, q.pages[place]? = p.pages[place]?
  resolutions : ∀ (identifier : String) (outcome : Except ResolveError Nat),
    p.resolutions[identifier]? = some outcome → q.resolutions[identifier]? = some outcome

/-- Two states that differ in the formulas of their pages only, and these are related. -/
structure Twin (E : Expr → Expr → Prop) (p p' : Progress) : Prop where
  sane : p.Sane
  gathered : p'.Gathered
  ids : p'.pages.map (·.id) = p.pages.map (·.id)
  sheets : ∀ place, (p.sheet place).Rewritten E (p'.sheet place)
  resolutions : p'.resolutions = p.resolutions
  memo : p'.memo = p.memo
  stack : p'.stack = p.stack
  circular : p'.circular = p.circular
  calls : p'.calls = p.calls

variable {p q r p' : Progress} {key : CellKey} {place : Nat} {id : String} {s t : Sheet}

/-! ## Later states -/

namespace Onward

theorem of_same (stack : q.stack = p.stack) (pages : q.pages = p.pages)
    (resolutions : q.resolutions = p.resolutions) : p.Onward q where
  stack := stack
  size := Nat.le_of_eq (congrArg Array.size pages.symm)
  pages place _ := by rw [pages]
  resolutions _ _ known := resolutions ▸ known

theorem refl (p : Progress) : p.Onward p := .of_same rfl rfl rfl

theorem trans (first : p.Onward q) (second : q.Onward r) : p.Onward r where
  stack := second.stack.trans first.stack
  size := Nat.le_trans first.size second.size
  pages place loaded := (second.pages place (Nat.lt_of_lt_of_le loaded first.size)).trans (first.pages place loaded)
  resolutions _ _ known := second.resolutions _ _ (first.resolutions _ _ known)

theorem sheet (onward : p.Onward q) (loaded : place < p.pages.size) : q.sheet place = p.sheet place := by
  rw [Progress.sheet, onward.pages place loaded, Progress.sheet]

theorem isFormula (onward : p.Onward q) (formula : p.IsFormula key) : q.IsFormula key := by
  rw [IsFormula, onward.sheet formula.loaded]
  exact formula

theorem load : p.Onward (p.load id s).2 where
  stack := rfl
  size := by rw [load_pages, Array.size_push]; exact Nat.le_succ _
  pages place loaded := by rw [load_pages, Array.getElem?_push_lt loaded, Array.getElem?_eq_getElem]
  resolutions _ _ known := known

theorem accept (answer : Except ResolveError ResolvedPage) : p.Onward (p.accept answer).2 := by
  unfold Progress.accept
  split
  · exact .refl p
  · split
    · exact .refl p
    · exact .load

theorem resolve {w : Workbook} {page : PageRef} : p.Onward (p.resolve w page).2 := by
  unfold Progress.resolve
  split
  · exact .refl p
  · split
    · exact .refl p
    · next unknown =>
      have called : p.Onward { p with calls := page :: p.calls } := .of_same rfl rfl rfl
      have accepted := called.trans (accept (w.resolver page))
      refine ⟨accepted.stack, accepted.size, accepted.pages, fun identifier outcome known => ?_⟩
      -- The identifier that was asked for had no outcome before.
      rw [fetch, Std.ExtTreeMap.getElem?_insert, if_neg, accepted.resolutions _ _ known]
      intro same
      rw [Std.LawfulEqCmp.compare_eq_iff_eq.1 same, known] at unknown
      cases unknown

/-- The formula that was entered is left again. -/
theorem leave {v : Value} (onward : (p.enter key).Onward q) : p.Onward (q.leave key v).2 where
  stack := congrArg List.tail onward.stack
  size := onward.size
  pages := onward.pages
  resolutions := onward.resolutions

end Onward

/-! ## Invariants -/

theorem leave_finished {v : Value} (finished : v.Finished) : (p.leave key v).1.Finished := by
  rcases Pass.leave_value p key v with same | same <;> rw [same]
  · exact .error
  · exact finished

theorem load_dependencies : (p.load id s).2.dependencies place =
    if place = p.pages.size then (Dependencies.ofSheet s p.cache).1 else p.dependencies place := by
  unfold Progress.dependencies
  rw [load_pages, Array.getElem?_push]
  split <;> rfl

theorem Gathered.load (gathered : p.Gathered) : (p.load id s).2.Gathered := by
  intro place
  rw [load_dependencies, load_sheet]
  split
  · rw [Dependencies.ofSheet_fst, Dependencies.ofSheet_fst]
  · exact gathered place

theorem accept_place_lt {answer : Except ResolveError ResolvedPage} (accepted : (p.accept answer).1 = .ok place) :
    place < (p.accept answer).2.pages.size := by
  unfold accept at *
  split at accepted
  · cases accepted
  · split at accepted
    · next found =>
      cases accepted
      exact (Array.findIdx?_eq_some_iff_getElem.1 found).1
    · cases accepted
      rw [load_pages, Array.size_push]
      exact Nat.lt_succ_self _

theorem sane_start (cache : ParseCache) : (start cache).Sane where
  gathered place := by
    have noFormulas : Sheet.empty.formulas = [] := by
      simp [Sheet.formulas, Sheet.entries, Sheet.empty, Sheet.withSize]
    rw [Dependencies.ofSheet_fst, show (start cache).sheet place = .empty from rfl, noFormulas]
    rfl
  finished key v known := by simp [start] at known
  entered key entered := absurd entered List.not_mem_nil
  resolved identifier place known := by simp [start] at known

namespace Sane

variable (sane : p.Sane)

include sane

theorem of_same (pages : q.pages = p.pages) (resolutions : q.resolutions = p.resolutions) (memo : q.memo = p.memo)
    (stack : q.stack = p.stack) : q.Sane := by
  have sameSheet (place : Nat) : q.sheet place = p.sheet place := by rw [Progress.sheet, pages, Progress.sheet]
  have sameFormula (key : CellKey) : q.IsFormula key ↔ p.IsFormula key := by rw [IsFormula, sameSheet, IsFormula]
  refine ⟨fun place => ?_, ?_, ?_, ?_⟩
  · rw [sameSheet, ← sane.gathered place, dependencies, pages, dependencies]
  · simpa only [memo, sameFormula] using sane.finished
  · simpa only [stack, sameFormula] using sane.entered
  · simpa only [resolutions, pages] using sane.resolved

theorem load : (p.load id s).2.Sane where
  gathered := sane.gathered.load
  finished key v known := by
    rcases memo_of_load known with before | ⟨rfl, onCycle⟩
    · exact (sane.finished key v before).imp_left Onward.load.isFormula
    · exact ⟨isFormula_of_onCycle onCycle, .error⟩
  entered key entered := Onward.load.isFormula (sane.entered key entered)
  resolved identifier place known := Nat.lt_of_lt_of_le (sane.resolved identifier place known) Onward.load.size

theorem accept {answer : Except ResolveError ResolvedPage} : (p.accept answer).2.Sane := by
  unfold Progress.accept
  split
  · exact sane
  · split
    · exact sane
    · exact sane.load

theorem settleReference {page : PageRef} {outcome : Except ResolveError Nat}
    (leads : ∀ place, outcome = .ok place → place < p.pages.size) : (p.settleReference page outcome).Sane where
  gathered := sane.gathered
  finished := sane.finished
  entered := sane.entered
  resolved identifier place known := by
    rw [Progress.settleReference, Std.ExtTreeMap.getElem?_insert] at known
    split at known
    · cases known
      exact leads place rfl
    · exact sane.resolved identifier place known

/-- A reference leads to a page that is loaded. -/
theorem resolve_place_lt {w : Workbook} {page : PageRef} (loaded : 0 < p.pages.size) :
    (p.resolve w page).1 = .ok place → place < (p.resolve w page).2.pages.size := by
  unfold Progress.resolve
  split
  · rintro ⟨⟩
    exact loaded
  · split
    · next known => exact fun leads => sane.resolved _ _ (known.trans (congrArg some leads))
    · exact accept_place_lt

theorem resolve {w : Workbook} {page : PageRef} : (p.resolve w page).2.Sane := by
  have called : { p with calls := page :: p.calls }.Sane := sane.of_same rfl rfl rfl rfl
  unfold Progress.resolve
  split
  · exact sane
  · split
    · exact sane
    · exact called.accept.settleReference fun place => accept_place_lt

theorem enter (formula : p.IsFormula key) : (p.enter key).Sane where
  gathered := sane.gathered
  finished := sane.finished
  entered := List.forall_mem_cons.2 ⟨formula, sane.entered⟩
  resolved := sane.resolved

theorem leave {v : Value} (formula : p.IsFormula key) (finished : v.Finished) : (p.leave key v).2.Sane where
  gathered := sane.gathered
  finished other u known := by
    rcases Pass.memo_of_leave known with before | ⟨rfl, ⟨-, rfl⟩ | ⟨-, rfl⟩⟩
    · exact sane.finished other u before
    · exact ⟨formula, .error⟩
    · exact ⟨formula, finished⟩
  entered other entered := sane.entered other (List.mem_of_mem_tail entered)
  resolved := sane.resolved

end Sane

/-! ## Twin states -/

theorem Sane.twin (sane : p.Sane) : p.Twin E p where
  sane := sane
  gathered := sane.gathered
  ids := rfl
  sheets _ := .refl _
  resolutions := rfl
  memo := rfl
  stack := rfl
  circular := rfl
  calls := rfl

namespace Twin

variable (twin : p.Twin E p')

include twin

theorem size : p'.pages.size = p.pages.size := by
  have same := congrArg Array.size twin.ids
  rwa [Array.size_map, Array.size_map] at same

theorem isFormula : p'.IsFormula key ↔ p.IsFormula key := by
  rw [IsFormula, IsFormula, (twin.sheets key.page).isFormula]

theorem input (key : CellKey) : (p.input key).Rewritten E (p'.input key) :=
  (twin.sheets key.page).inputs key.address

theorem right : p'.Sane where
  gathered := twin.gathered
  finished key v known := by
    rw [twin.memo] at known
    exact (twin.sane.finished key v known).imp_left twin.isFormula.2
  entered key entered := by
    rw [twin.stack] at entered
    exact twin.isFormula.2 (twin.sane.entered key entered)
  resolved identifier place known := by
    rw [twin.resolutions] at known
    exact twin.size ▸ twin.sane.resolved identifier place known

theorem isPending : p'.isPending = p.isPending := by
  funext key
  rw [Progress.isPending, Progress.isPending, (twin.sheets key.page).isFormula, twin.memo, twin.stack]

theorem withCaches (cache cache' : ParseCache) : { p with cache }.Twin E { p' with cache := cache' } :=
  { twin with
    sane := twin.sane.of_same rfl rfl rfl rfl
    gathered := twin.gathered }

theorem closeCycle : (p.closeCycle key).Twin E (p'.closeCycle key) :=
  { twin with
    sane := twin.sane.of_same rfl rfl rfl rfl
    gathered := twin.gathered
    circular := by rw [Progress.closeCycle, twin.stack, twin.circular, Progress.closeCycle] }

theorem enter (formula : p.IsFormula key) : (p.enter key).Twin E (p'.enter key) :=
  { twin with
    sane := twin.sane.enter formula
    gathered := twin.gathered
    stack := congrArg (key :: ·) twin.stack }

theorem leave {v : Value} (formula : p.IsFormula key) (finished : v.Finished) :
    (p'.leave key v).1 = (p.leave key v).1 ∧ (p.leave key v).2.Twin E (p'.leave key v).2 := by
  have sameValue : (p'.leave key v).1 = (p.leave key v).1 := by
    rw [Progress.leave, twin.circular, Progress.leave]
  exact ⟨sameValue, { twin with
    sane := twin.sane.leave formula finished
    gathered := twin.gathered
    memo := by simp only [Progress.leave, twin.circular, twin.memo]
    stack := congrArg List.tail twin.stack
    circular := congrArg (·.erase key) twin.circular }⟩

variable (targets : SameTargets E)

include targets

theorem pendingReads (a : Address) : p'.pendingReads place a = p.pendingReads place a := by
  have formula (b : Address) (pending : p.isPending ⟨place, b⟩) : (p.sheet place).isFormula b :=
    (isPending_iff.1 pending).1
  rw [Progress.pendingReads, Progress.pendingReads, twin.isPending, twin.gathered, twin.sane.gathered,
    (twin.sheets place).filter_precedentsOf targets formula]

theorem pendingPrecedents : p'.pendingPrecedents key = p.pendingPrecedents key := by
  have sameReads : p'.pendingReads key.page = p.pendingReads key.page := funext (twin.pendingReads targets)
  have sameFormulas : (p'.dependencies key.page).formulas = (p.dependencies key.page).formulas := by
    rw [twin.gathered, twin.sane.gathered, (twin.sheets key.page).formulas]
  simp only [Progress.pendingPrecedents, sameReads, sameFormulas]

theorem load (sheets : s.Rewritten E t) : (p.load id s).2.Twin E (p'.load id t).2 where
  sane := twin.sane.load
  gathered := twin.gathered.load
  ids := by rw [load_pages, load_pages, Array.map_push, Array.map_push, twin.ids]
  sheets place := by
    rw [load_sheet, load_sheet, twin.size]
    split
    · exact sheets
    · exact twin.sheets place
  resolutions := twin.resolutions
  memo := by
    have sameMembers : (Dependencies.ofSheet t p'.cache).1.cycles.members =
        (Dependencies.ofSheet s p.cache).1.cycles.members := sheets.members targets
    simp only [Progress.load, twin.memo, twin.size, sameMembers]
  stack := twin.stack
  circular := twin.circular
  calls := twin.calls

theorem accept {answer answer' : Except ResolveError ResolvedPage}
    (answers : ResolvedPage.Rewritten E answer answer') :
    (p'.accept answer').1 = (p.accept answer).1 ∧ (p.accept answer).2.Twin E (p'.accept answer').2 := by
  cases answers with
  | missing => exact ⟨rfl, twin⟩
  | @found page page' id sheet =>
    have sameSearch : p'.pages.findIdx? (·.id = page'.id) = p.pages.findIdx? (·.id = page.id) := by
      have same := congrArg (Array.findIdx? fun known => decide (known = page.id)) twin.ids
      rw [Array.findIdx?_map, Array.findIdx?_map] at same
      rw [id]
      exact same
    unfold Progress.accept
    simp only [sameSearch]
    cases p.pages.findIdx? (·.id = page.id) with
    | some place => exact ⟨rfl, twin⟩
    | none =>
      rw [id]
      exact ⟨congrArg Except.ok twin.size, twin.load targets sheet⟩

theorem resolve {w w' : Workbook} (books : w.Rewritten E w') (page : PageRef) :
    (p'.resolve w' page).1 = (p.resolve w page).1 ∧ (p.resolve w page).2.Twin E (p'.resolve w' page).2 := by
  have called : { p with calls := page :: p.calls }.Twin E { p' with calls := page :: p'.calls } :=
    { twin with
      sane := twin.sane.of_same rfl rfl rfl rfl
      gathered := twin.gathered
      calls := congrArg (page :: ·) twin.calls }
  obtain ⟨sameOutcome, accepted⟩ := called.accept targets (books.resolver page)
  have sane : (p.resolve w page).2.Sane := twin.sane.resolve
  unfold Progress.resolve at sane ⊢
  rw [books.pageId, twin.resolutions]
  split
  · exact ⟨rfl, twin⟩
  · split
    · exact ⟨rfl, twin⟩
    · next other _ unknown =>
      simp only [if_neg other, unknown] at sane
      refine ⟨sameOutcome, sane, accepted.gathered, accepted.ids, accepted.sheets, ?_, accepted.memo,
        accepted.stack, accepted.circular, accepted.calls⟩
      simp only [Progress.fetch, accepted.resolutions, sameOutcome]

end Twin

/-- The evaluations of the two workbooks begin in twin states. -/
theorem twin_begin {w w' : Workbook} (books : w.Rewritten E w') (targets : SameTargets E)
    (cache cache' : ParseCache) : (w.begin cache).Twin E (w'.begin cache') := by
  have twin := ((sane_start cache).twin (E := E)).withCaches cache cache'
  rw [Workbook.begin, Workbook.begin, books.pageId]
  exact twin.load targets books.sheet

theorem root_lt_begin (w : Workbook) (cache : ParseCache) : root < (w.begin cache).pages.size := by
  rw [Workbook.begin, load_pages, Array.size_push]
  exact Nat.succ_pos _

end Progress

namespace Pass

variable {pass : Pass} {p q : Progress}

theorem Step.sane (step : pass.Step p q) (valid : pass.Valid p) (sane : p.Sane) : q.Sane := by
  cases step with
  | parse | close => exact sane.of_same rfl rfl rfl rfl
  | resolve => exact sane.resolve
  | enter pending => exact sane.enter (Progress.isPending_iff.1 pending).1
  | leave innermost computed =>
    refine sane.leave (valid.entered _ (List.mem_of_head? innermost)).1 ?_
    cases computed with
    | fault => exact .error
    | value => exact Value.finish_finished _

/-- Every state that an evaluation reaches is of this kind. -/
theorem Steps.sane {cache : ParseCache} (steps : pass.Steps (pass.book.begin cache) p) : p.Sane := by
  have valid := pass.valid_begin cache
  induction steps with
  | refl => exact (Progress.sane_start cache).load
  | tail steps step ih => exact step.sane (Steps.valid valid steps) ih

end Pass
end PageCalc

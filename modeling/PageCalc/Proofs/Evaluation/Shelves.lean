import PageCalc.Page.Shelf
import PageCalc.Proofs.Evaluation.DepthLimit
import PageCalc.Proofs.Evaluation.FormulaSheets
import PageCalc.Proofs.Evaluation.Pages

/-!
# Workbooks with a shelf of pages

A shelf finds each page by its identifier, under which the page calls itself as well. So whoever refers to
a page of a shelf means the same. There are finitely many pages on it, so that an evaluation never reaches
a limit on the depth that is not below the number of their formulas.
-/

namespace PageCalc

open Collection

/-! ## What is on a shelf -/

/-- The pages of a shelf that may be read. -/
def Shelf.pages (shelf : Shelf) : List Page :=
  shelf.entries.toList.filterMap fun (id, entry) => match entry with
    | .page _ sheet => some ⟨id, sheet⟩
    | .denied _ _ => none

namespace Workbook

variable {w : Workbook} {shelf : Shelf} {r : PageRef} {page : Page}

/-- The pages that a workbook with a shelf is about. -/
def shelved (w : Workbook) (shelf : Shelf) : List Page := w.rootPage :: shelf.pages

/-- The root is found under its own identifier, and any other page as the shelf has it. -/
theorem find_cases (isShelf : w.resolver = shelf.resolve) (found : w.find r = .ok page) :
    page.id = r.identifier ∧ (page = w.rootPage ∨ ∃ title,
      shelf.entries[r.identifier]? = some (.page title page.sheet)) := by
  unfold find at found
  split at found
  · next own =>
    cases found
    exact ⟨own.symm, .inl rfl⟩
  · rw [isShelf, Shelf.resolve] at found
    cases entry : shelf.entries[r.identifier]? with
    | none => rw [entry] at found; cases found
    | some known =>
      rw [entry] at found
      cases known with
      | denied title message => cases found
      | page title sheet =>
        cases found
        exact ⟨rfl, .inr ⟨title, rfl⟩⟩

theorem find_congr {r' : PageRef} (isShelf : w.resolver = shelf.resolve) (same : r.identifier = r'.identifier) :
    w.find r = w.find r' := by
  unfold find
  rw [isShelf, Shelf.resolve, Shelf.resolve, same]
  split
  · rfl
  · cases shelf.entries[r'.identifier]? with
    | none => rfl
    | some entry => cases entry <;> rfl

theorem coherent_of_shelf (isShelf : w.resolver = shelf.resolve) : w.Coherent where
  find r r' same := find_congr isShelf same
  sheet r r' page page' found found' same := by
    have identifiers : r.identifier = r'.identifier :=
      (find_cases isShelf found).1.symm.trans (same.trans (find_cases isShelf found').1)
    cases found.symm.trans ((find_congr isShelf identifiers).trans found')
    rfl

theorem mem_shelved (isShelf : w.resolver = shelf.resolve) (found : w.find r = .ok page) :
    page ∈ w.shelved shelf := by
  obtain ⟨isId, own | ⟨title, entry⟩⟩ := find_cases isShelf found
  · exact own ▸ List.mem_cons_self
  · refine List.mem_cons_of_mem _ (List.mem_filterMap.2 ⟨(r.identifier, .page title page.sheet), ?_, ?_⟩)
    · exact Std.ExtTreeMap.mem_toList_iff_getElem?_eq_some.2 entry
    · rw [← isId]

end Workbook

/-! ## How many formulas there are -/

/-- The sites of all formulas on some pages. -/
def formulaSites (pages : List Page) : List (Site Page) :=
  pages.flatMap fun page => page.sheet.formulas.map fun entry => ⟨page, entry.1⟩

theorem mem_formulaSites {pages : List Page} {page : Page} {a : Address} (member : page ∈ pages)
    (formula : page.sheet.isFormula a) : (⟨page, a⟩ : Site Page) ∈ formulaSites pages := by
  obtain ⟨source, typed⟩ := Sheet.isFormula_iff.1 formula
  refine List.mem_flatMap.2 ⟨page, member, List.mem_map.2 ⟨(a, source), ?_, rfl⟩⟩
  exact Sheet.input_eq_formula_iff.1 typed

/-- There is room for formulas if there are not too many of them on all the pages that can be found. -/
theorem Pass.Valid.roomy_of_pages {pass : Pass} {p : Progress} {pages : List Page} (valid : pass.Valid p)
    (faithful : p.Faithful pass.book) (all : ∀ r page, pass.book.find r = .ok page → page ∈ pages)
    (room : ∀ limit ∈ pass.limit?, (formulaSites pages).length ≤ limit) : pass.Roomy p := by
  intro key formula outside _ limit isLimit
  have formulas : ∀ other ∈ key :: p.stack, p.IsFormula other :=
    List.forall_mem_cons.2 ⟨formula, fun other entered => (valid.entered other entered).1⟩
  -- With the new one, the formulas under evaluation stand at different sites of these pages.
  have distinct : ((key :: p.stack).map p.site).Nodup := by
    refine (List.nodup_cons.2 ⟨outside, valid.distinct⟩).map_on fun a isA b isB same => ?_
    exact valid.toKept.site_injective (formulas a isA).loaded (formulas b isB).loaded same
  have within : (key :: p.stack).map p.site ⊆ formulaSites pages := by
    intro s member
    obtain ⟨other, isOther, rfl⟩ := List.mem_map.1 member
    obtain ⟨page, isPage, loaded⟩ := Progress.exists_page (formulas other isOther).loaded
    obtain ⟨r, found⟩ := faithful.pages page loaded
    have isSite : p.site other = ⟨⟨page.id, page.sheet⟩, other.address⟩ := by
      rw [Progress.site, Progress.pageAt_of_page isPage]
    rw [isSite]
    refine mem_formulaSites (all r _ found) ?_
    have isFormula := formulas other isOther
    rw [Progress.IsFormula, Progress.sheet_of_page isPage] at isFormula
    exact isFormula
  have fewer := (List.subperm_of_subset distinct within).length_le
  have enough := room limit isLimit
  rw [List.length_map, List.length_cons] at fewer
  omega

namespace Workbook

variable {w : Workbook} {shelf : Shelf}

/-- The depth is not limited by a limit that no number of formulas can exceed. -/
theorem depthUnused_of_shelf (isShelf : w.resolver = shelf.resolve)
    (room : (formulaSites (w.shelved shelf)).length ≤ w.options.maxDepth) :
    (∀ cache, w.DepthUnused cache) ∧ ∀ e, w.DepthUnusedBy e := by
  have roomy (entry : CellKey → Prop) (cache : ParseCache) (q : Progress)
      (steps : Pass.Steps ⟨w, entry, some w.options.maxDepth⟩ (w.begin cache) q) :
      Pass.Roomy ⟨w, entry, some w.options.maxDepth⟩ q := by
    have start := Pass.valid_begin ⟨w, entry, some w.options.maxDepth⟩ cache
    have faithful := Pass.Steps.faithful (coherent_of_shelf isShelf) start steps (Progress.begin_faithful w cache)
    refine (Pass.Steps.valid start steps).roomy_of_pages faithful (fun _ _ => mem_shelved isShelf) ?_
    exact fun limit isLimit => by cases isLimit; exact room
  exact ⟨fun cache => depthUnused_of_roomy (roomy _ cache), fun e => depthUnusedBy_of_roomy (roomy _ .empty)⟩

end Workbook

/-! ## Workbooks of two pages -/

namespace Workbook

variable {sheet other : Sheet} {r : PageRef} {page : Page}

/-- The workbook with a sheet and one more page. -/
def ofTwo (sheet other : Sheet) : Workbook where
  sheet
  pageId := "main"
  resolver := (Shelf.empty.insert "q" "Q" other).resolve

theorem coherent_ofTwo (sheet other : Sheet) : (ofTwo sheet other).Coherent := coherent_of_shelf rfl

theorem find_ofTwo (found : (ofTwo sheet other).find r = .ok page) :
    page = (ofTwo sheet other).rootPage ∨ page = ⟨"q", other⟩ := by
  obtain ⟨isId, own | ⟨title, entry⟩⟩ := find_cases (w := ofTwo sheet other) rfl found
  · exact .inl own
  · right
    rw [Shelf.insert, Shelf.empty, Std.ExtTreeMap.getElem?_insert] at entry
    split at entry
    · next same =>
      have isQ : page.id = "q" := isId.trans (Std.LawfulEqOrd.eq_of_compare same).symm
      cases entry
      rw [← isQ]
    · simp at entry

end Workbook

/-- Three cells that refer to each other in a row, the last one to another page. -/
def Sheet.leaving : Sheet :=
  .ofInputs [(⟨0, 0⟩, "=B1"), (⟨0, 1⟩, "=C1"), (⟨0, 2⟩, "=@[Q](q):A1")]

def Sheet.returning : Sheet := .ofInputs [(⟨0, 0⟩, "=@[Main](main):A1")]

/-- A cycle of references that leaves the page of the root and comes back to it. -/
def Workbook.cycleAcross : Workbook := .ofTwo .leaving .returning

/-- A cell that reads one of another page, beside one that reads itself. -/
def Sheet.asking : Sheet := .ofInputs [(⟨0, 0⟩, "=@[Q](q):A1"), (⟨0, 1⟩, "=B1")]

def Sheet.answering : Sheet := .ofInputs [(⟨0, 0⟩, "x")]

/-- A cycle inside a page, and a read across pages. -/
def Workbook.cycleBeside : Workbook := .ofTwo .asking .answering

namespace Sheet

variable {a : Address} {e : Expr}

theorem leaving_expr?_iff : leaving.expr? a = some e ↔ (a, e) ∈ ([(⟨0, 0⟩, .reference (.cell ⟨0, 1⟩)),
    (⟨0, 1⟩, .reference (.cell ⟨0, 2⟩)), (⟨0, 2⟩, .across "q" "Q" ⟨0, 0⟩)] : List (Address × Expr)) := by
  refine expr?_eq_some_iff (by decide +kernel) ?_
  simp only [List.forall_mem_cons]
  exact ⟨Expr.ofFormula_cell (by decide), Expr.ofFormula_cell (by decide),
    Expr.ofFormula_across (by decide) (by decide) (by decide) (by decide), List.forall_mem_nil _⟩

/-- Each of the cells refers to the next one, so that none lies on a cycle of the sheet. -/
theorem not_onCycle_leaving : ¬ leaving.OnCycle a := by
  have onward {b c : Address} (reads : leaving.Reads b c) : b.column < c.column := by
    obtain ⟨e, parsed, r, member, target⟩ := reads_iff_expr?.1 reads
    have entry := leaving_expr?_iff.1 parsed
    simp only [List.mem_cons, Prod.mk.injEq, List.not_mem_nil, or_false] at entry
    obtain ⟨rfl, rfl⟩ | ⟨rfl, rfl⟩ | ⟨rfl, rfl⟩ := entry <;> cases List.mem_singleton.1 member
    · cases List.mem_singleton.1 target
      decide
    · cases List.mem_singleton.1 target
      decide
    · cases target
  intro onCycle
  have less : ∀ {c}, Relation.TransGen leaving.Reads a c → a.column < c.column := fun path => by
    induction path with
    | single reads => exact onward reads
    | tail _ reads ih => exact ih.trans (onward reads)
  exact absurd (less onCycle) (Nat.lt_irrefl _)

theorem returning_expr?_iff : returning.expr? a = some e ↔
    (a, e) ∈ ([(⟨0, 0⟩, .across "main" "Main" ⟨0, 0⟩)] : List (Address × Expr)) := by
  refine expr?_eq_some_iff (by decide +kernel) ?_
  simp only [List.forall_mem_cons]
  exact ⟨Expr.ofFormula_across (by decide) (by decide) (by decide) (by decide), List.forall_mem_nil _⟩

theorem asking_expr?_iff : asking.expr? a = some e ↔ (a, e) ∈ ([(⟨0, 0⟩, .across "q" "Q" ⟨0, 0⟩),
    (⟨0, 1⟩, .reference (.cell ⟨0, 1⟩))] : List (Address × Expr)) := by
  refine expr?_eq_some_iff (by decide +kernel) ?_
  simp only [List.forall_mem_cons]
  exact ⟨Expr.ofFormula_across (by decide) (by decide) (by decide) (by decide),
    Expr.ofFormula_cell (by decide), List.forall_mem_nil _⟩

theorem answering_expr? : answering.expr? a = none := by
  cases parsed : answering.expr? a with
  | none => rfl
  | some e =>
    have noFormulas : answering.formulas = ([] : List (Address × Expr)).map fun entry => (entry.1, entry.2.formula) := by
      decide +kernel
    cases (expr?_eq_some_iff noFormulas (by simp)).1 parsed

end Sheet

/-- The cache of the formulas of both pages. -/
def Workbook.cycleCache : ParseCache :=
  .ofExprs [.reference (.cell ⟨0, 1⟩), .reference (.cell ⟨0, 2⟩), .across "q" "Q" ⟨0, 0⟩,
    .across "main" "Main" ⟨0, 0⟩] <| by
      simp only [List.forall_mem_cons]
      exact ⟨Expr.ofFormula_cell (by decide), Expr.ofFormula_cell (by decide),
        Expr.ofFormula_across (by decide) (by decide) (by decide) (by decide),
        Expr.ofFormula_across (by decide) (by decide) (by decide) (by decide), List.forall_mem_nil _⟩

end PageCalc

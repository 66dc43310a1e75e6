import PageCalc.Evaluation.Workbook
import PageCalc.Graph.Dependency
import PageCalc.Page.Site
import PageCalc.Value.Basic

/-!
# The progress of an evaluation

What an evaluation knows at a point in time: the pages loaded so far, the values of finished
formulas, and the formulas that are under evaluation, each of which waits for the next one.
A page is asked for once, and loaded once even if it goes by several identifiers.
-/

namespace PageCalc

/-- A cell of one of the loaded pages. -/
abbrev CellKey := Site Nat

namespace CellKey

instance : Ord CellKey where
  compare := compareLex (compareOn Site.page) (compareOn Site.address)

instance : Std.TransOrd CellKey :=
  inferInstanceAs (Std.TransCmp (compareLex (compareOn Site.page) (compareOn Site.address)))

instance : Std.LawfulEqOrd CellKey where
  eq_of_compare {a b} h := by
    have h : (compare a.page b.page).then (compare a.address b.address) = .eq := h
    rw [Ordering.then_eq_eq] at h
    cases a; cases b
    simp only [Site.mk.injEq]
    exact ⟨Std.LawfulEqOrd.eq_of_compare h.1, Std.LawfulEqOrd.eq_of_compare h.2⟩

end CellKey

/-- A page that takes part in an evaluation. -/
structure LoadedPage where
  id : String
  sheet : Sheet
  dependencies : Dependencies

/-- The state of an evaluation. -/
structure Progress where
  /-- The loaded pages; a page is known by its place. The root is the first one. -/
  pages : Array LoadedPage
  /-- What came of the identifiers that were asked for. -/
  resolutions : Std.ExtTreeMap String (Except ResolveError Nat)
  /-- The values of finished formulas. -/
  memo : Std.ExtTreeMap CellKey Value
  /-- The formulas under evaluation, the innermost one first. -/
  stack : List CellKey
  /-- Those of them that were found to lie on a cycle. -/
  circular : Std.ExtTreeSet CellKey
  cache : ParseCache
  /-- The references that the resolver was asked about, the last one first. -/
  calls : List PageRef

namespace Progress

def start (cache : ParseCache) : Progress :=
  { pages := #[], resolutions := ∅, memo := ∅, stack := [], circular := ∅, cache,
    calls := [] }

/-- The place of the page that an evaluation starts from. -/
def root : Nat := 0

/-! ## Cells -/

def sheet (p : Progress) (page : Nat) : Sheet :=
  (p.pages[page]?).elim .empty (·.sheet)

def dependencies (p : Progress) (page : Nat) : Dependencies :=
  (p.pages[page]?).elim .empty (·.dependencies)

def input (p : Progress) (key : CellKey) : Input := (p.sheet key.page).input key.address

/-- Whether a cell holds a formula that is neither finished nor under evaluation. -/
def isPending (p : Progress) (key : CellKey) : Bool :=
  (p.sheet key.page).isFormula key.address && !p.memo.contains key && !p.stack.contains key

/-- The pending cells of a page that the formula of its cell `a` reads, the last one first. -/
def pendingReads (p : Progress) (page : Nat) (a : Address) : List Address :=
  (((p.dependencies page).precedentsOf a).filter fun b => p.isPending ⟨page, b⟩).reverse

/-- The pending cells of its page that the formula of a cell needs, at once or by way of other
pending cells; each comes after those that it needs itself. -/
def pendingPrecedents (p : Progress) (key : CellKey) : List Address :=
  let others := (p.dependencies key.page).formulas.erase key.address
  (Graph.finishOrder (p.pendingReads key.page) others
    (p.pendingReads key.page key.address)).reverse

/-! ## Formulas under evaluation -/

def enter (p : Progress) (key : CellKey) : Progress := { p with stack := key :: p.stack }

/-- Notes that `key`, which is under evaluation, was read again: it and all formulas that were
entered since then lie on a cycle. -/
def closeCycle (p : Progress) (key : CellKey) : Progress :=
  { p with circular :=
      p.circular.insertMany (key :: p.stack.takeWhile fun entered => entered ≠ key) }

/-- Notes that the innermost formula is finished and has a value. On a cycle the value does not
matter. -/
def leave (p : Progress) (key : CellKey) (value : Value) : Value × Progress :=
  let value := if p.circular.contains key then .error .circular else value
  (value, { p with
    stack := p.stack.tail
    circular := p.circular.erase key
    memo := p.memo.insert key value })

/-! ## Pages -/

/-- Loads a page, and gives its place. The cells on cycles inside the page have their values at
once. -/
def load (p : Progress) (id : String) (sheet : Sheet) : Nat × Progress :=
  let place := p.pages.size
  let (dependencies, cache) := Dependencies.ofSheet sheet p.cache
  let members := dependencies.cycles.members.toList
  (place, { p with
    pages := p.pages.push ⟨id, sheet, dependencies⟩
    memo := p.memo.insertMany (members.map fun a => (⟨place, a⟩, .error .circular))
    cache })

/-- Takes in an answer of the resolver. A page that is loaded already keeps its place. -/
def accept (p : Progress) (answer : Except ResolveError ResolvedPage) :
    Except ResolveError Nat × Progress :=
  match answer with
  | .error failure => (.error failure, p)
  | .ok page =>
    match p.pages.findIdx? (·.id = page.id) with
    | some place => (.ok place, p)
    | none =>
      let (place, p) := p.load page.id page.sheet
      (.ok place, p)

/-- Asks the resolver about a reference, and keeps the outcome for its identifier. -/
def fetch (p : Progress) (resolver : Resolver) (page : PageRef) :
    Except ResolveError Nat × Progress :=
  let (outcome, p) := { p with calls := page :: p.calls }.accept (resolver page)
  (outcome, { p with resolutions := p.resolutions.insert page.identifier outcome })

/-- Finds the place of the page of a reference. The identifier of the root means the root. -/
def resolve (p : Progress) (w : Workbook) (page : PageRef) :
    Except ResolveError Nat × Progress :=
  if page.identifier = w.pageId then (.ok root, p)
  else match p.resolutions[page.identifier]? with
    | some outcome => (outcome, p)
    | none => p.fetch w.resolver page

end Progress
end PageCalc

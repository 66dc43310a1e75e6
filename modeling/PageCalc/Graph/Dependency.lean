import PageCalc.Formula.Cache
import PageCalc.Graph.Cycle
import PageCalc.Graph.Search
import PageCalc.Grid.Sheet

/-!
# Dependencies

Which cells of a sheet the formulas of the sheet read, and which other pages. References to other
pages are noted, not followed. From this the cells on cycles are found, and the order in which
cells are evaluated again after a change.
-/

namespace PageCalc

/-- The references between the cells of a sheet, and those to other pages. -/
structure Dependencies where
  dependents : AddressMap AddressSet
  precedents : AddressMap AddressSet
  /-- The references of a cell to other pages, without repetition and in order. -/
  externals : AddressMap (List ExternalReference)
  /-- The cells that hold formulas, whether or not these can be parsed. -/
  formulas : AddressSet

namespace Dependencies

def empty : Dependencies := ⟨∅, ∅, ∅, ∅⟩

instance : Inhabited Dependencies := ⟨empty⟩

/-! ## Single references -/

def relate (sets : AddressMap AddressSet) (a b : Address) : AddressMap AddressSet :=
  sets.alter a fun known => some ((known.getD ∅).insert b)

def addDependency (g : Dependencies) (precedent dependent : Address) : Dependencies :=
  { g with
    dependents := relate g.dependents precedent dependent
    precedents := relate g.precedents dependent precedent }

def addExternal (g : Dependencies) (cell : Address) (external : ExternalReference) :
    Dependencies :=
  { g with
    externals := g.externals.alter cell fun known =>
      let known := known.getD []
      some (if external ∈ known then known else known ++ [external]) }

def addFormula (g : Dependencies) (cell : Address) : Dependencies :=
  { g with formulas := g.formulas.insert cell }

/-! ## The references of a sheet -/

/-- Notes a reference in the formula of `cell`. Of a range only the part in the grid counts. -/
def addReference (sheet : Sheet) (cell : Address) (g : Dependencies) :
    Reference → Dependencies
  | .cell a => g.addDependency a cell
  | .range range => (sheet.cellsIn range).foldl (fun g a => g.addDependency a cell) g
  | .external external => g.addExternal cell external

/-- Notes a formula of `cell` and its references; one that cannot be parsed has none. -/
def addOutcome (sheet : Sheet) (g : Dependencies) (cell : Address) (outcome : ParseOutcome) :
    Dependencies :=
  let g := g.addFormula cell
  match outcome with
  | .ok e => e.references.foldl (addReference sheet cell) g
  | .error _ => g

def ofSheet (sheet : Sheet) (cache : ParseCache) : Dependencies × ParseCache :=
  sheet.formulas.foldl (fun (g, cache) (cell, source) =>
    let (outcome, cache) := cache.parse source
    (addOutcome sheet g cell outcome, cache)) (empty, cache)

/-! ## Questions -/

def dependentsOf (g : Dependencies) (a : Address) : List Address :=
  ((g.dependents[a]?).getD ∅).toList

def precedentsOf (g : Dependencies) (a : Address) : List Address :=
  ((g.precedents[a]?).getD ∅).toList

def externalsOf (g : Dependencies) (a : Address) : List ExternalReference :=
  (g.externals[a]?).getD []

def formulaCells (g : Dependencies) : List Address := g.formulas.toList

/-- The identifiers of all pages referred to, in order. -/
def referencedPages (g : Dependencies) : List String :=
  (Std.ExtTreeSet.ofList (g.externals.toList.flatMap fun entry =>
    entry.2.map (·.page.identifier))).toList

/-- The cells to evaluate again after changes, each after those that it reads. A changed cell is
one of them only if it reads a changed one. -/
def refreshOrder (g : Dependencies) (changed : List Address) : List Address :=
  Graph.finishOrder g.dependentsOf (Std.ExtTreeSet.ofList g.precedents.keys)
    (changed.flatMap g.dependentsOf)

/-- The graph that leads from each cell to those that it reads. -/
def digraph (g : Dependencies) : Graph.Digraph Address :=
  ⟨g.precedents.map fun _ cells => cells.toList⟩

def cycles (g : Dependencies) : Graph.CycleReport Address := g.digraph.cycles g.formulaCells

/-- Whether a cell reads itself, at once or by way of others. -/
def isCircular (g : Dependencies) (a : Address) : Bool := g.cycles.contains a

end Dependencies
end PageCalc

import PageCalc.Proofs.Graph.Dependency

/-!
# Graphs with a history

The dependencies of cells are gathered from a sheet, but single ones may be added as well. What a graph
holds after any changes is told by the last sheet that it was gathered from and by what was added since.
Cycles are searched from the formulas of that sheet on: a cycle that only added dependencies lead to is
not reported.
-/

namespace PageCalc

open Collection PageCalc.Graph

namespace Dependencies

variable {g : Dependencies} {a b : Address}

/-! ## Cycles of any graph -/

/-- The cell depends on the other one directly. -/
def Needs (g : Dependencies) (a b : Address) : Prop := b ∈ g.precedentsOf a

/-- The cell is reported as circular if it depends on itself and some formula leads to it. -/
theorem mem_cycles_iff : a ∈ g.cycles.members ↔
    Relation.TransGen g.Needs a a ∧ ∃ f ∈ g.formulas, Relation.ReflTransGen g.Needs f a := by
  have sameEdges : (fun a b => b ∈ g.digraph.next a) = g.Needs := by
    funext a b
    exact propext mem_next_digraph
  rw [cycles, Digraph.mem_cycles_members, Digraph.OnCycle, Digraph.Path, sameEdges, and_comm]
  simp only [formulaCells, Std.ExtTreeSet.mem_toList]

theorem isCircular_iff_mem : g.isCircular a ↔ a ∈ g.cycles.members := by
  rw [isCircular, CycleReport.contains, Std.ExtTreeSet.contains_iff_mem]

/-! ## Changes -/

/-- A change of a graph. -/
inductive Change where
  /-- The graph is gathered anew from a sheet. -/
  | gather (sheet : Sheet) (cache : ParseCache)
  | addDependency (precedent dependent : Address)
  | addExternal (cell : Address) (external : ExternalReference)
  | clear

def change (g : Dependencies) : Change → Dependencies
  | .gather sheet cache => (ofSheet sheet cache).1
  | .addDependency precedent dependent => g.addDependency precedent dependent
  | .addExternal cell external => g.addExternal cell external
  | .clear => empty

/-- The graph after changes of the empty graph, the last change first. -/
def after : List Change → Dependencies
  | [] => empty
  | last :: earlier => (after earlier).change last

/-- What changes, the last one first, let a cell depend on: what the last sheet reads there, and what
was added since. -/
def Noted : List Change → Address → Address → Prop
  | [], _, _ => False
  | .gather sheet _ :: _, a, b => sheet.Reads a b
  | .addDependency precedent dependent :: earlier, a, b =>
    Noted earlier a b ∨ a = dependent ∧ b = precedent
  | .addExternal _ _ :: earlier, a, b => Noted earlier a b
  | .clear :: _, _, _ => False

/-- Whether the last sheet that the graph was gathered from holds a formula in a cell. -/
def Gathered : List Change → Address → Prop
  | [], _ => False
  | .gather sheet _ :: _, a => sheet.isFormula a
  | .addDependency _ _ :: earlier, a => Gathered earlier a
  | .addExternal _ _ :: earlier, a => Gathered earlier a
  | .clear :: _, _ => False

theorem needs_after (changes : List Change) : (after changes).Needs = Noted changes := by
  funext a b
  refine propext ?_
  induction changes with
  | nil => simp [after, Needs, Noted, empty, precedentsOf]
  | cons last earlier ih =>
    cases last with
    | gather sheet cache => exact mem_precedentsOf_ofSheet
    | addDependency precedent dependent =>
      exact mem_precedentsOf_addDependency.trans (or_congr_left ih)
    | addExternal cell external => exact ih
    | clear => simp [after, change, Needs, Noted, empty, precedentsOf]

theorem mem_formulas_after (changes : List Change) : a ∈ (after changes).formulas ↔ Gathered changes a := by
  induction changes with
  | nil => simp [after, Gathered, empty]
  | cons last earlier ih =>
    cases last with
    | gather sheet cache => exact mem_formulas_ofSheet
    | addDependency _ _ | addExternal _ _ => exact ih
    | clear => simp [after, change, Gathered, empty]

/-- After any changes, a cell is said to be circular exactly if it depends on itself and a formula of the
last sheet depends on it or is its own. The report of cycles holds these cells and no others. -/
theorem isCircular_after_iff (changes : List Change) (a : Address) :
    (∀ b, b ∈ (after changes).precedentsOf a ↔ Noted changes a b) ∧
    ((after changes).isCircular a ↔ Relation.TransGen (Noted changes) a a ∧
      ∃ f, Gathered changes f ∧ Relation.ReflTransGen (Noted changes) f a) ∧
    (a ∈ (after changes).cycles.members ↔ (after changes).isCircular a) := by
  have needs := needs_after changes
  refine ⟨fun b => iff_of_eq (congrFun (congrFun needs a) b), ?_, isCircular_iff_mem.symm⟩
  rw [isCircular_iff_mem, mem_cycles_iff, needs]
  simp only [mem_formulas_after]

theorem not_gathered_of_added {changes : List Change} (added : ∀ sheet cache, .gather sheet cache ∉ changes) :
    ¬ Gathered changes a := by
  induction changes with
  | nil => exact id
  | cons last earlier ih =>
    have earlierAdded := ih fun sheet cache gathers => added sheet cache (.tail _ gathers)
    cases last with
    | gather sheet cache => exact absurd (.head _) (added sheet cache)
    | addDependency _ _ | addExternal _ _ => exact earlierAdded
    | clear => exact id

/-- Without a sheet there is nothing to search from: dependencies that were only added are never found
to form a cycle. -/
theorem not_isCircular_of_added {changes : List Change} (added : ∀ sheet cache, .gather sheet cache ∉ changes) :
    ¬ (after changes).isCircular a := by
  rw [isCircular_iff_mem, mem_cycles_iff]
  rintro ⟨-, f, isFormula, -⟩
  exact not_gathered_of_added added (mem_formulas_after changes |>.mp isFormula)

end Dependencies
end PageCalc

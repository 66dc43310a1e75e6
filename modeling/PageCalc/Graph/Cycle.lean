import PageCalc.Graph.Search

/-!
# Cycles

The cyclic parts of a finite graph: the sets of nodes that all lead to each other, if there is
more than one node or the node leads to itself. One depth-first search finds them. It numbers the
nodes as it enters them and notes for each the least number among the nodes of unfinished parts
that it is known to lead to; a node that leads to none before itself is the first one entered of
its part. The search keeps its own stacks, so that long paths do no harm.
-/

set_option linter.unusedSectionVars false

namespace PageCalc.Graph

variable {α : Type} [Ord α] [Std.TransOrd α] [Std.LawfulEqOrd α]

/-- A finite graph, by the successors of each node that has any. -/
structure Digraph (α : Type) [Ord α] where
  successors : Std.ExtTreeMap α (List α)

namespace Digraph

def empty : Digraph α := ⟨∅⟩

def next (g : Digraph α) (a : α) : List α := (g.successors[a]?).getD []

/-- The graph with one more edge, after those from the same node. -/
def insert (g : Digraph α) (a b : α) : Digraph α :=
  ⟨g.successors.alter a fun bs => some (bs.getD [] ++ [b])⟩

def ofEdges (edges : List (α × α)) : Digraph α :=
  edges.foldl (fun g edge => g.insert edge.1 edge.2) empty

/-- The ends of all edges. -/
def targets (g : Digraph α) : List α := g.successors.toList.flatMap (·.2)

theorem mem_targets {g : Digraph α} {a b : α} (edge : b ∈ g.next a) : b ∈ g.targets := by
  unfold next at edge
  cases known : g.successors[a]? with
  | none => simp [known] at edge
  | some bs =>
    rw [known] at edge
    exact List.mem_flatMap.2 ⟨(a, bs), Std.ExtTreeMap.mem_toList_iff_getElem?_eq_some.2 known, edge⟩

end Digraph

/-- The cyclic parts of a graph, each in order, and their nodes. -/
structure CycleReport (α : Type) [Ord α] where
  cycles : List (List α)
  members : Std.ExtTreeSet α

namespace CycleReport

def empty : CycleReport α := ⟨[], ∅⟩

def contains (report : CycleReport α) (a : α) : Bool := report.members.contains a

def isEmpty (report : CycleReport α) : Bool := report.cycles.isEmpty

/-- The report with one more cyclic part, whose nodes are put in order. -/
def add (report : CycleReport α) (component : List α) : CycleReport α where
  cycles := component.mergeSort (fun a b => (compare a b).isLE) :: report.cycles
  members := report.members.insertMany component

/-- The report with its parts in order. -/
def sorted (report : CycleReport α) : CycleReport α :=
  { report with cycles := report.cycles.mergeSort fun c d => (List.compareLex compare c d).isLE }

end CycleReport

/-! ## The search -/

/-- How far the search has come with a node that it has entered. -/
inductive Colour where
  /-- The part of the node is not finished. The node was entered as number `index`, and it leads to
  the node of an unfinished part that was entered as number `low`. -/
  | gray (index low : Nat)
  /-- The part of the node is finished. -/
  | black
deriving DecidableEq

/-- How far a search has come with the nodes that it has entered. -/
abbrev Colours (α : Type) [Ord α] := Std.ExtTreeMap α Colour

namespace Colours

/-- Notes that a node leads to the one with the number `value`. -/
def lower (colours : Colours α) (a : α) (value : Nat) : Colours α :=
  match colours[a]? with
  | some (.gray index low) => colours.insert a (.gray index (min low value))
  | _ => colours

/-- Notes that the part of some nodes is finished. -/
def blacken (colours : Colours α) (component : List α) : Colours α :=
  component.foldl (fun colours a => colours.insert a .black) colours

end Colours

/-- A node on the way from a root to where the search is, and its successors that are still to be
looked at. -/
structure Visit (α : Type) where
  node : α
  successors : List α

/-- The state of a search for cycles. -/
structure CycleSearch (α : Type) [Ord α] where
  /-- The roots that are still to be tried. -/
  roots : List α
  colours : Colours α
  /-- The nodes that were found to lead to themselves by one edge. -/
  loops : Std.ExtTreeSet α
  /-- The nodes of unfinished parts, the last one entered first. -/
  stack : List α
  /-- The way to where the search is, from its end. -/
  visits : List (Visit α)
  /-- The number of the next node to be entered. -/
  count : Nat
  report : CycleReport α

/-- The nodes of a stack down to `a`, and those below. -/
def popTo (a : α) : List α → List α × List α
  | [] => ([], [])
  | b :: stack =>
    if compare b a = .eq then ([b], stack)
    else ((b :: (popTo a stack).1), (popTo a stack).2)

namespace CycleSearch

def start (roots : List α) : CycleSearch α :=
  { roots, colours := ∅, loops := ∅, stack := [], visits := [], count := 0, report := .empty }

def enter (g : Digraph α) (a : α) (s : CycleSearch α) : CycleSearch α :=
  { s with
    colours := s.colours.insert a (.gray s.count s.count)
    stack := a :: s.stack
    visits := ⟨a, g.next a⟩ :: s.visits
    count := s.count + 1 }

/-- Notes an edge to a node of an unfinished part, which was entered as number `index`. -/
def noteBack (a b : α) (index : Nat) (s : CycleSearch α) : CycleSearch α :=
  { s with
    loops := if compare b a = .eq then s.loops.insert a else s.loops
    colours := s.colours.lower a index }

/-- Looks at an edge, which the visit of `a` holds no longer. -/
def look (g : Digraph α) (a b : α) (s : CycleSearch α) : CycleSearch α :=
  match s.colours[b]? with
  | none => s.enter g b
  | some (.gray index _) => s.noteBack a b index
  | some .black => s

/-- What is known of a finished node is known of the node that it was entered from. -/
def passOn (low : Nat) (s : CycleSearch α) : CycleSearch α :=
  { s with colours := match s.visits with
      | [] => s.colours
      | parent :: _ => s.colours.lower parent.node low }

/-- Finishes the part of which `a` was entered first: what lies on the stack from `a` on. -/
def closePart (a : α) (s : CycleSearch α) : CycleSearch α :=
  let component := (popTo a s.stack).1
  { s with
    stack := (popTo a s.stack).2
    colours := s.colours.blacken component
    report := if 1 < component.length ∨ a ∈ s.loops then s.report.add component else s.report }

/-- Finishes a node whose visit has ended. -/
def finish (a : α) (s : CycleSearch α) : CycleSearch α :=
  match s.colours[a]? with
  | some (.gray index low) =>
    if low = index then (s.passOn low).closePart a else s.passOn low
  | _ => s

/-- The next step of a search, if there is one. -/
def step? (g : Digraph α) (s : CycleSearch α) : Option (CycleSearch α) :=
  match s.visits, s.roots with
  | [], [] => none
  | [], root :: roots =>
    if root ∈ s.colours then some { s with roots }
    else some ({ s with roots }.enter g root)
  | ⟨a, b :: successors⟩ :: visits, _ => some ({ s with visits := ⟨a, successors⟩ :: visits }.look g a b)
  | ⟨a, []⟩ :: visits, _ => some ({ s with visits }.finish a)

/-! ## Steps -/

section Steps

variable {g : Digraph α} {nodes : List α} {s t : CycleSearch α} {a b c : α}

/-- What a step does: a root that was entered before is dropped, another one is entered, an edge of
the last visit is looked at, or this visit ends. -/
inductive Step (g : Digraph α) (s : CycleSearch α) : CycleSearch α → Prop where
  | drop {root : α} {roots : List α} (noVisit : s.visits = []) (isNext : s.roots = root :: roots)
      (seen : root ∈ s.colours) : Step g s { s with roots }
  | start {root : α} {roots : List α} (noVisit : s.visits = []) (isNext : s.roots = root :: roots)
      (unseen : root ∉ s.colours) : Step g s ({ s with roots }.enter g root)
  | enter {a b : α} {successors : List α} {visits : List (Visit α)}
      (last : s.visits = ⟨a, b :: successors⟩ :: visits) (unseen : b ∉ s.colours) :
      Step g s ({ s with visits := ⟨a, successors⟩ :: visits }.enter g b)
  | back {a b : α} {successors : List α} {visits : List (Visit α)} {index low : Nat}
      (last : s.visits = ⟨a, b :: successors⟩ :: visits)
      (unfinished : s.colours[b]? = some (.gray index low)) :
      Step g s ({ s with visits := ⟨a, successors⟩ :: visits }.noteBack a b index)
  | cross {a b : α} {successors : List α} {visits : List (Visit α)}
      (last : s.visits = ⟨a, b :: successors⟩ :: visits) (finished : s.colours[b]? = some .black) :
      Step g s { s with visits := ⟨a, successors⟩ :: visits }
  | leave {a : α} {visits : List (Visit α)} {index low : Nat} (last : s.visits = ⟨a, []⟩ :: visits)
      (unfinished : s.colours[a]? = some (.gray index low)) (inner : low ≠ index) :
      Step g s ({ s with visits }.passOn low)
  | close {a : α} {visits : List (Visit α)} {index : Nat} (last : s.visits = ⟨a, []⟩ :: visits)
      (unfinished : s.colours[a]? = some (.gray index index)) :
      Step g s (({ s with visits }.passOn index).closePart a)
  | stray {a : α} {visits : List (Visit α)} (last : s.visits = ⟨a, []⟩ :: visits)
      (known : ∀ index low, s.colours[a]? ≠ some (.gray index low)) : Step g s { s with visits }

theorem step_of_step? (taken : s.step? g = some t) : Step g s t := by
  unfold step? at taken
  split at taken
  case h_1 => cases taken
  case h_2 root roots noVisit isNext =>
    split at taken <;> cases taken
    · next seen => exact .drop noVisit isNext seen
    · next unseen => exact .start noVisit isNext unseen
  case h_3 a b successors visits roots last =>
    cases taken
    unfold look
    split
    · next unknown =>
      refine .enter last ?_
      rw [Std.ExtTreeMap.mem_iff_isSome_getElem?, unknown]
      simp
    · next index low unfinished => exact .back last unfinished
    · next finished => exact .cross last finished
  case h_4 a visits roots last =>
    cases taken
    unfold finish
    split
    · next index low unfinished =>
      by_cases isFirst : low = index
      · subst isFirst
        rw [if_pos rfl]
        exact .close last unfinished
      · rw [if_neg isFirst]
        exact .leave last unfinished isFirst
    · next known => exact .stray last known

/-- The search ends when the last root has been tried. -/
theorem done_of_step? (noStep : s.step? g = none) : s.visits = [] ∧ s.roots = [] := by
  unfold step? at noStep
  split at noStep
  · next noVisit noRoot => exact ⟨noVisit, noRoot⟩
  · split at noStep <;> cases noStep
  · cases noStep
  · cases noStep

theorem mem_lower {colours : Colours α} {value : Nat} :
    b ∈ colours.lower a value ↔ b ∈ colours := by
  unfold Colours.lower
  split
  · next index low known =>
    rw [Std.ExtTreeMap.mem_insert, or_iff_right_iff_imp, Std.LawfulEqCmp.compare_eq_iff_eq]
    rintro rfl
    rw [Std.ExtTreeMap.mem_iff_isSome_getElem?, known]
    rfl
  · exact Iff.rfl

theorem mem_colours_enter : c ∈ (s.enter g a).colours ↔ c = a ∨ c ∈ s.colours := by
  rw [enter, Std.ExtTreeMap.mem_insert, Std.LawfulEqCmp.compare_eq_iff_eq, eq_comm]

theorem mem_colours_passOn {low : Nat} : c ∈ (s.passOn low).colours ↔ c ∈ s.colours := by
  unfold passOn
  dsimp only
  split
  · exact Iff.rfl
  · exact mem_lower

/-- What was entered stays entered. -/
theorem Step.mem_colours (taken : Step g s t) (seen : c ∈ s.colours) : c ∈ t.colours := by
  cases taken with
  | drop | cross | stray => exact seen
  | start | enter => exact mem_colours_enter.2 (.inr seen)
  | back => exact mem_lower.2 seen
  | leave => exact mem_colours_passOn.2 seen
  | close =>
    exact List.foldlRecOn (motive := (c ∈ ·)) _ _ (mem_colours_passOn.2 seen) fun _ known _ _ =>
      Std.ExtTreeMap.mem_insert.2 (.inr known)

end Steps

/-! ## The whole search -/

section Run

variable {g : Digraph α} {nodes : List α} {s t : CycleSearch α} {a b : α}

/-- All nodes that a search may still enter are in a list. -/
structure Within (g : Digraph α) (nodes : List α) (s : CycleSearch α) : Prop where
  next : ∀ a, ∀ b ∈ g.next a, b ∈ nodes
  roots : ∀ root ∈ s.roots, root ∈ nodes
  visits : ∀ visit ∈ s.visits, ∀ b ∈ visit.successors, b ∈ nodes

theorem within_start (g : Digraph α) (roots : List α) : (start roots).Within g (roots ++ g.targets) where
  next _ _ edge := List.mem_append_right _ (Digraph.mem_targets edge)
  roots _ isRoot := List.mem_append_left _ isRoot
  visits _ member := by cases member

theorem Within.step (within : s.Within g nodes) (taken : Step g s t) : t.Within g nodes := by
  obtain ⟨next, roots, visits⟩ := within
  cases taken with
  | drop _ isNext _ =>
    rw [isNext, List.forall_mem_cons] at roots
    exact ⟨next, roots.2, visits⟩
  | start _ isNext _ =>
    rw [isNext, List.forall_mem_cons] at roots
    exact ⟨next, roots.2, List.forall_mem_cons.2 ⟨next _, visits⟩⟩
  | enter last _ =>
    rw [last, List.forall_mem_cons, List.forall_mem_cons] at visits
    exact ⟨next, roots, List.forall_mem_cons.2 ⟨next _, List.forall_mem_cons.2 ⟨visits.1.2, visits.2⟩⟩⟩
  | back last _ | cross last _ =>
    rw [last, List.forall_mem_cons, List.forall_mem_cons] at visits
    exact ⟨next, roots, List.forall_mem_cons.2 ⟨visits.1.2, visits.2⟩⟩
  | leave last _ _ | close last _ | stray last _ =>
    rw [last, List.forall_mem_cons] at visits
    exact ⟨next, roots, visits.2⟩

/-- What is left to be looked at for a node, if it will be entered. -/
def unseenWork (g : Digraph α) (s : CycleSearch α) (a : α) : Nat :=
  if a ∈ s.colours then 0 else (g.next a).length + 1

/-- What is left to be looked at, if each of the nodes that were not yet entered will be. -/
def work (g : Digraph α) (nodes : List α) (s : CycleSearch α) : Nat :=
  total (s.unseenWork g) nodes + s.roots.length +
    total (fun visit : Visit α => visit.successors.length + 1) s.visits

theorem unseenWork_le (seen : ∀ b ∈ s.colours, b ∈ t.colours) (a : α) : t.unseenWork g a ≤ s.unseenWork g a := by
  unfold unseenWork
  by_cases known : a ∈ s.colours
  · simp [known, seen a known]
  · rw [if_neg known]
    split <;> omega

theorem total_unseenWork_enter (member : a ∈ nodes) (unseen : a ∉ s.colours) :
    total ((s.enter g a).unseenWork g) nodes + ((g.next a).length + 1) ≤ total (s.unseenWork g) nodes := by
  obtain ⟨before, after, rfl⟩ := List.append_of_mem member
  have less := unseenWork_le (g := g) (s := s) (t := s.enter g a) fun b known => mem_colours_enter.2 (.inr known)
  have lessBefore := total_le_total (l := before) less
  have lessAfter := total_le_total (l := after) less
  have here : (s.enter g a).unseenWork g a = 0 := if_pos (mem_colours_enter.2 (.inl rfl))
  have there : s.unseenWork g a = (g.next a).length + 1 := if_neg unseen
  simp only [total_append, total_cons, here, there]
  omega

theorem Step.work_lt (within : s.Within g nodes) (taken : Step g s t) : t.work g nodes < s.work g nodes := by
  have less := total_le_total (l := nodes) (unseenWork_le (g := g) fun a => taken.mem_colours)
  unfold work
  cases taken with
  | @start root roots _ isNext unseen =>
    have entered := total_unseenWork_enter (g := g) (s := { s with roots })
      (within.roots root (isNext ▸ List.mem_cons_self)) unseen
    have same : ({ s with roots } : CycleSearch α).unseenWork g = s.unseenWork g := rfl
    simp only [same, CycleSearch.enter, isNext, total_cons, List.length_cons] at entered ⊢
    omega
  | @enter a b successors visits last unseen =>
    have entered := total_unseenWork_enter (g := g) (s := { s with visits := ⟨a, successors⟩ :: visits })
      (within.visits _ (last ▸ List.mem_cons_self) b List.mem_cons_self) unseen
    have same : ({ s with visits := ⟨a, successors⟩ :: visits } : CycleSearch α).unseenWork g = s.unseenWork g := rfl
    simp only [same, CycleSearch.enter, last, total_cons, List.length_cons] at entered ⊢
    omega
  | drop _ isNext _ =>
    simp only [isNext, List.length_cons] at less ⊢
    omega
  | back last _ | cross last _ =>
    simp only [noteBack, last, total_cons, List.length_cons] at less ⊢
    omega
  | leave last _ _ | close last _ | stray last _ =>
    simp only [passOn, closePart, last, total_cons] at less ⊢
    omega

/-- Goes on with a search to its end. -/
def run (g : Digraph α) {nodes : List α} (s : CycleSearch α) (within : s.Within g nodes) : CycleSearch α :=
  match taken : s.step? g with
  | none => s
  | some t => run g t (within.step (step_of_step? taken))
termination_by s.work g nodes
decreasing_by exact (step_of_step? taken).work_lt within

end Run

end CycleSearch

/-- The cyclic parts of a graph that can be reached from `roots`, in order. -/
def Digraph.cycles (g : Digraph α) (roots : List α) : CycleReport α :=
  (CycleSearch.run g (.start roots) (CycleSearch.within_start g roots)).report.sorted

end PageCalc.Graph

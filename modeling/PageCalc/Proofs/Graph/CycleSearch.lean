import PageCalc.Proofs.Graph.LowLink

/-!
# The search for cycles

What holds all along a search, with one case for each kind of step. The report names the cycles whose
nodes are all finished, so at the end it names each cycle that the roots lead to.
-/

set_option linter.unusedSectionVars false

namespace PageCalc.Graph

open PageCalc.Graph.Digraph Collection

variable {α : Type} [Ord α] [Std.TransOrd α] [Std.LawfulEqOrd α]
variable {g : Digraph α} {roots : List α}

/-! ## Edges that are explored -/

section Explored

variable {colours colours' : Colours α} {visits : List (Visit α)} {successors : List α} {a b c d : α}

/-- An edge from a node that was entered, which no visit of this node holds any more. -/
def Explored (g : Digraph α) (colours : Colours α) (visits : List (Visit α)) (a b : α) : Prop :=
  a ∈ colours ∧ b ∈ g.next a ∧ ∀ visit ∈ visits, visit.node = a → b ∉ visit.successors

theorem Explored.of_mem (edge : Explored g colours' visits a b) (same : ∀ a, a ∈ colours' → a ∈ colours) :
    Explored g colours visits a b := ⟨same a edge.1, edge.2⟩

theorem Explored.of_drop (edge : Explored g colours (⟨a, successors⟩ :: visits) c d) :
    Explored g colours (⟨a, b :: successors⟩ :: visits) c d ∨ c = a ∧ d = b := by
  obtain ⟨member, isEdge, gone⟩ := edge
  rw [List.forall_mem_cons] at gone
  by_cases taken : c = a ∧ d = b
  · exact .inr taken
  · refine .inl ⟨member, isEdge, List.forall_mem_cons.2 ⟨fun isNode waiting => ?_, gone.2⟩⟩
    rcases List.mem_cons.1 waiting with same | waiting
    · exact taken ⟨isNode.symm, same⟩
    · exact gone.1 isNode waiting

theorem Explored.of_end (edge : Explored g colours visits c d) :
    Explored g colours (⟨a, []⟩ :: visits) c d := by
  obtain ⟨member, isEdge, gone⟩ := edge
  exact ⟨member, isEdge, List.forall_mem_cons.2 ⟨fun _ => List.not_mem_nil, gone⟩⟩

theorem Explored.of_enter {colour : Colour}
    (edge : Explored g (colours.insert a colour) (⟨a, g.next a⟩ :: visits) c d) :
    c ≠ a ∧ Explored g colours visits c d := by
  obtain ⟨member, isEdge, gone⟩ := edge
  rw [List.forall_mem_cons] at gone
  have other : c ≠ a := by
    rintro rfl
    exact gone.1 rfl isEdge
  refine ⟨other, ?_, isEdge, gone.2⟩
  rw [Std.ExtTreeMap.mem_insert, Std.LawfulEqCmp.compare_eq_iff_eq] at member
  exact member.resolve_left other.symm

end Explored

/-! ## Reports -/

/-- What a report holds while some parts are finished. -/
structure Reported (g : Digraph α) (roots : List α) (colours : Colours α) (report : CycleReport α) : Prop where
  mem_cycles : ∀ component, component ∈ report.cycles ↔
    g.IsCycle roots component ∧ ∀ a ∈ component, colours.Finished a
  covered : ∀ a, colours.Finished a → g.OnCycle a → ∃ component ∈ report.cycles, a ∈ component
  distinct : report.cycles.Nodup
  mem_members : ∀ a, a ∈ report.members ↔ ∃ component ∈ report.cycles, a ∈ component

namespace Reported

theorem start (g : Digraph α) (roots : List α) : Reported g roots ∅ .empty where
  mem_cycles component := by
    refine iff_of_false List.not_mem_nil fun ⟨isCycle, finished⟩ => ?_
    obtain ⟨a, -, class_iff⟩ := isCycle.class_iff
    simpa [Colours.Finished] using finished a ((class_iff a).2 (Mutual.refl a))
  covered a finished := by simp [Colours.Finished] at finished
  distinct := List.nodup_nil
  mem_members a := by simp [CycleReport.empty]

variable {colours colours' : Colours α} {report : CycleReport α} {component : List α} {a : α}

theorem of_finished (reported : Reported g roots colours report)
    (same : ∀ a, colours'.Finished a ↔ colours.Finished a) : Reported g roots colours' report where
  mem_cycles component := by simpa only [same] using reported.mem_cycles component
  covered a := by simpa only [same] using reported.covered a
  distinct := reported.distinct
  mem_members := reported.mem_members

section Finish

variable (reported : Reported g roots colours report) (distinct : component.Nodup)
variable (class_iff : ∀ b, b ∈ component ↔ g.Mutual a b)
variable (unfinished : ∀ b ∈ component, ¬ colours.Finished b)

include reported class_iff

/-- Once a class is finished, a cycle is finished if it was before or it is that class. -/
theorem mem_cycles_blacken {cycle : List α} (isCycle : g.IsCycle roots cycle) :
    (∀ b ∈ cycle, (colours.blacken component).Finished b) ↔ a ∈ cycle ∨ cycle ∈ report.cycles := by
  simp only [Colours.finished_blacken, reported.mem_cycles, isCycle, true_and]
  constructor
  · intro finished
    by_cases here : a ∈ cycle
    · exact .inl here
    · refine .inr fun b member => (finished b member).resolve_left fun inClass => here ?_
      exact (isCycle.mem_iff member).2 ((class_iff b).1 inClass).symm
  · rintro (here | finished) b member
    · exact .inl ((class_iff b).2 (isCycle.mutual_of_mem here member))
    · exact .inr (finished b member)

include distinct unfinished

theorem add (reached : ∃ root ∈ roots, g.Path root a) (cyclic : 1 < component.length ∨ a ∈ g.next a) :
    Reported g roots (colours.blacken component) (report.add component) := by
  have isCycle := isCycle_mergeSort distinct class_iff reached cyclic
  have member : a ∈ component := (class_iff a).2 (Mutual.refl a)
  have sortedMember : a ∈ component.mergeSort fun a b => (compare a b).isLE := List.mem_mergeSort.2 member
  refine ⟨fun cycle => ?_, fun b finished onCycle => ?_, ?_, fun b => ?_⟩
  · rw [CycleReport.add, List.mem_cons]
    constructor
    · rintro (rfl | before)
      · exact ⟨isCycle, (reported.mem_cycles_blacken class_iff isCycle).2 (.inl sortedMember)⟩
      · have isCycleToo := ((reported.mem_cycles cycle).1 before).1
        exact ⟨isCycleToo, (reported.mem_cycles_blacken class_iff isCycleToo).2 (.inr before)⟩
    · rintro ⟨isCycleToo, finished⟩
      exact ((reported.mem_cycles_blacken class_iff isCycleToo).1 finished).imp_left fun here =>
        isCycleToo.eq_of_mem isCycle here sortedMember
  · rcases Colours.finished_blacken.1 finished with inClass | before
    · exact ⟨_, List.mem_cons_self, List.mem_mergeSort.2 inClass⟩
    · obtain ⟨cycle, known, inCycle⟩ := reported.covered b before onCycle
      exact ⟨cycle, List.mem_cons_of_mem _ known, inCycle⟩
  · refine List.nodup_cons.2 ⟨fun before => unfinished a member ?_, reported.distinct⟩
    exact ((reported.mem_cycles _).1 before).2 a sortedMember
  · simp only [CycleReport.add, mem_insertMany, reported.mem_members, List.mem_cons, exists_eq_or_imp,
      List.mem_mergeSort]
    exact or_comm

omit unfinished in
theorem skip (acyclic : ¬ (1 < component.length ∨ a ∈ g.next a)) :
    Reported g roots (colours.blacken component) report := by
  have away {b : α} (mutually : g.Mutual a b) : ¬ g.OnCycle b := fun onCycle =>
    acyclic ((cyclic_iff_onCycle distinct class_iff).2 (mutually.onCycle onCycle))
  refine ⟨fun cycle => ?_, fun b finished onCycle => ?_, reported.distinct, reported.mem_members⟩
  · constructor
    · intro before
      have isCycle := ((reported.mem_cycles cycle).1 before).1
      exact ⟨isCycle, (reported.mem_cycles_blacken class_iff isCycle).2 (.inr before)⟩
    · rintro ⟨isCycle, finished⟩
      refine ((reported.mem_cycles_blacken class_iff isCycle).1 finished).resolve_left fun here => ?_
      exact away (Mutual.refl a) (isCycle.onCycle here)
  · refine reported.covered b ((Colours.finished_blacken.1 finished).resolve_left fun inClass => ?_) onCycle
    exact away ((class_iff b).1 inClass) onCycle

end Finish

end Reported

/-! ## The state of a search -/

theorem popTo_eq {above below : List α} {a : α} (fresh : a ∉ above) :
    popTo a (above ++ a :: below) = (above ++ [a], below) := by
  induction above with
  | nil => simp [popTo, Std.ReflCmp.compare_self]
  | cons b above ih =>
    rw [List.mem_cons, not_or] at fresh
    have other : compare b a ≠ .eq := fun same => fresh.1 (Std.LawfulEqOrd.eq_of_compare same).symm
    simp [popTo, other, ih fresh.2]

namespace CycleSearch

variable {s t : CycleSearch α} {a b : α} {visits : List (Visit α)} {successors : List α} {index low : Nat}

/-- The nodes that are being visited, the last one entered first. -/
def way (s : CycleSearch α) : List α := s.visits.map (·.node)

/-- What holds all along a search. -/
structure Searching (g : Digraph α) (roots : List α) (s : CycleSearch α) : Prop where
  linked : Linked g (Explored g s.colours s.visits) s.colours s.stack s.way
  counted : ∀ a ∈ s.stack, s.colours.index a < s.count
  sources : ∀ visit ∈ s.visits, ∀ b ∈ visit.successors, b ∈ g.next visit.node
  tried : ∀ root, root ∈ roots → root ∈ s.roots ∨ root ∈ s.colours
  untried : ∀ root ∈ s.roots, root ∈ roots
  reached : ∀ a ∈ s.colours, ∃ root ∈ roots, g.Path root a
  loops : ∀ a ∈ s.loops, a ∈ g.next a
  looped : ∀ a, Explored g s.colours s.visits a a → a ∈ s.loops
  reported : Reported g roots s.colours s.report

theorem mem_loops_noteBack {c : α} :
    c ∈ (s.noteBack a b index).loops ↔ c ∈ s.loops ∨ c = a ∧ b = a := by
  unfold noteBack
  dsimp only
  split
  · next same => rw [mem_insert, and_iff_left (Std.LawfulEqOrd.eq_of_compare same), or_comm]
  · next other =>
    refine (or_iff_left ?_).symm
    rintro ⟨-, rfl⟩
    exact other Std.ReflCmp.compare_self

namespace Searching

theorem start (g : Digraph α) (roots : List α) : Searching g roots (.start roots) where
  linked := .start fun _ _ edge => Std.ExtTreeMap.not_mem_empty edge.1
  counted _ member := by cases member
  sources _ member := by cases member
  tried _ isRoot := .inl isRoot
  untried _ isRoot := isRoot
  reached _ member := absurd member Std.ExtTreeMap.not_mem_empty
  loops _ member := absurd member Std.ExtTreeSet.not_mem_empty
  looped _ edge := absurd edge.1 Std.ExtTreeMap.not_mem_empty
  reported := .start g roots

variable (searching : Searching g roots s)

include searching

/-! ### Roots -/

theorem drop {root : α} {rest : List α} (isNext : s.roots = root :: rest) (seen : root ∈ s.colours) :
    Searching g roots { s with roots := rest } where
  linked := searching.linked
  counted := searching.counted
  sources := searching.sources
  reached := searching.reached
  loops := searching.loops
  looped := searching.looped
  reported := searching.reported
  tried a isRoot := by
    rcases searching.tried a isRoot with waiting | entered
    · rcases List.mem_cons.1 (isNext ▸ waiting) with rfl | waiting
      · exact .inr seen
      · exact .inl waiting
    · exact .inr entered
  untried a waiting := searching.untried a (isNext ▸ List.mem_cons_of_mem _ waiting)

/-- A node is entered that all nodes on the way lead to. It was the next root or is looked at. -/
theorem enter {rest : List α} (unseen : b ∉ s.colours) (tried : ∀ root ∈ s.roots, root ∈ rest ∨ root = b)
    (untried : ∀ root ∈ rest, root ∈ s.roots) (sameWay : visits.map (·.node) = s.way)
    (sources : ∀ visit ∈ visits, ∀ c ∈ visit.successors, c ∈ g.next visit.node)
    (more : ∀ c d, Explored g s.colours visits c d → Explored g s.colours s.visits c d ∨ d = b)
    (leads : ∀ a ∈ s.way, g.Path a b) (reached : ∃ root ∈ roots, g.Path root b) :
    Searching g roots ({ s with roots := rest, visits }.enter g b) where
  linked := by
    have linked : Linked g (Explored g (s.colours.insert b (.gray s.count s.count)) (⟨b, g.next b⟩ :: visits))
        (s.colours.insert b (.gray s.count s.count)) (b :: s.stack) (b :: s.way) :=
      searching.linked.enter unseen searching.counted leads fun c d edge => edge.of_enter.imp_right (more c d)
    rwa [← sameWay] at linked
  counted a member := by
    show Colours.index (s.colours.insert b _) a < s.count + 1
    rw [Colours.index_insert]
    rcases List.mem_cons.1 member with rfl | known
    · rw [if_pos rfl]
      exact Nat.lt_succ_self _
    · split
      · exact Nat.lt_succ_self _
      · exact Nat.lt_succ_of_lt (searching.counted a known)
  sources := List.forall_mem_cons.2 ⟨fun _ edge => edge, sources⟩
  tried root isRoot := by
    rw [mem_colours_enter]
    rcases searching.tried root isRoot with waiting | entered
    · exact (tried root waiting).imp_right .inl
    · exact .inr (.inr entered)
  untried root waiting := searching.untried root (untried root waiting)
  reached a member := by
    rcases mem_colours_enter.1 member with rfl | member
    · exact reached
    · exact searching.reached a member
  loops := searching.loops
  looped a edge := by
    obtain ⟨other, edge⟩ := Explored.of_enter edge
    exact searching.looped a ((more a a edge).resolve_right other)
  reported := searching.reported.of_finished fun a => by
    refine Colours.finished_insert.trans (and_iff_right_of_imp ?_)
    rintro finished rfl
    exact unseen finished.mem

/-! ### Edges -/

theorem enter_look (last : s.visits = ⟨a, b :: successors⟩ :: visits) (unseen : b ∉ s.colours) :
    Searching g roots ({ s with visits := ⟨a, successors⟩ :: visits }.enter g b) := by
  have onWay : a ∈ s.way := by simp [way, last]
  have sources := searching.sources
  rw [last, List.forall_mem_cons, List.forall_mem_cons] at sources
  have edge : b ∈ g.next a := sources.1.1
  refine searching.enter unseen (fun _ => .inl) (fun _ waiting => waiting) (by simp [way, last])
    (List.forall_mem_cons.2 ⟨sources.1.2, sources.2⟩) (fun c d edge => ?_) (fun c onWayC => ?_) ?_
  · rw [last]
    exact edge.of_drop.imp_right And.right
  · -- The last node entered is led to by all nodes on the way.
    have order : s.colours.index c ≤ s.colours.index a := by
      have isWay : s.way = a :: visits.map (·.node) := by simp [way, last]
      rcases List.mem_cons.1 (isWay ▸ onWayC) with rfl | earlier
      · exact le_rfl
      · exact (searching.linked.index_lt isWay earlier).le
    exact (searching.linked.ahead c onWayC a (searching.linked.onStack a onWay) order).tail edge
  · obtain ⟨root, isRoot, path⟩ := searching.reached a (searching.linked.unfinished onWay).mem
    exact ⟨root, isRoot, path.tail edge⟩

theorem back (last : s.visits = ⟨a, b :: successors⟩ :: visits)
    (unfinished : s.colours[b]? = some (.gray index low)) :
    Searching g roots ({ s with visits := ⟨a, successors⟩ :: visits }.noteBack a b index) := by
  have onWay : a ∈ s.way := by simp [way, last]
  have unfinishedA := searching.linked.unfinished onWay
  have onStack : b ∈ s.stack := (searching.linked.stacked b).2 (Colours.unfinished_of_known unfinished)
  have sources := searching.sources
  rw [last, List.forall_mem_cons, List.forall_mem_cons] at sources
  obtain rfl := Colours.index_of_known unfinished
  have sameSeen (c : α) : c ∈ s.colours.lower a (s.colours.index b) ↔ c ∈ s.colours := mem_lower
  have explored {c d : α} (edge : Explored g (s.colours.lower a (s.colours.index b)) (⟨a, successors⟩ :: visits) c d) :
      Explored g s.colours s.visits c d ∨ c = a ∧ d = b := by
    rw [last]
    exact (edge.of_mem fun c => (sameSeen c).1).of_drop
  constructor
  case linked =>
    have linked := searching.linked.lower onWay onStack (.single sources.1.1)
    have sameWay : s.way = a :: visits.map (·.node) := by simp [way, last]
    rw [sameWay] at linked
    refine linked.explore fun c d edge => ?_
    rcases explored edge with before | ⟨rfl, rfl⟩
    · exact .inl before
    · refine .inr (.inr ⟨onStack, List.mem_cons_self, ?_⟩)
      rw [Colours.low_lower unfinishedA, if_pos rfl, Colours.index_lower unfinishedA]
      exact Nat.min_le_right ..
  case counted =>
    intro c member
    exact (Colours.index_lower unfinishedA).symm ▸ searching.counted c member
  case sources => exact List.forall_mem_cons.2 ⟨sources.1.2, sources.2⟩
  case tried => exact fun root isRoot => (searching.tried root isRoot).imp_right (sameSeen root).2
  case untried => exact searching.untried
  case reached => exact fun c member => searching.reached c ((sameSeen c).1 member)
  case loops =>
    intro c member
    rcases mem_loops_noteBack.1 member with known | ⟨rfl, same⟩
    · exact searching.loops c known
    · exact same ▸ sources.1.1
  case looped =>
    intro c edge
    rw [mem_loops_noteBack]
    exact (explored edge).imp (searching.looped c) fun ⟨isA, isB⟩ => ⟨isA, isB.symm.trans isA⟩
  case reported => exact searching.reported.of_finished fun c => Colours.finished_lower unfinishedA

theorem cross (last : s.visits = ⟨a, b :: successors⟩ :: visits) (finished : s.colours.Finished b) :
    Searching g roots { s with visits := ⟨a, successors⟩ :: visits } := by
  have onWay : a ∈ s.way := by simp [way, last]
  have sources := searching.sources
  rw [last, List.forall_mem_cons, List.forall_mem_cons] at sources
  have explored {c d : α} (edge : Explored g s.colours (⟨a, successors⟩ :: visits) c d) :
      Explored g s.colours s.visits c d ∨ c = a ∧ d = b := last ▸ edge.of_drop
  constructor
  case linked =>
    have linked := searching.linked
    have sameWay : s.way = a :: visits.map (·.node) := by simp [way, last]
    rw [sameWay] at linked
    refine linked.explore fun c d edge => ?_
    rcases explored edge with before | ⟨-, rfl⟩
    · exact .inl before
    · exact .inr (.inl finished)
  case counted => exact searching.counted
  case sources => exact List.forall_mem_cons.2 ⟨sources.1.2, sources.2⟩
  case tried => exact searching.tried
  case untried => exact searching.untried
  case reached => exact searching.reached
  case loops => exact searching.loops
  case looped =>
    intro c edge
    rcases explored edge with before | ⟨rfl, rfl⟩
    · exact searching.looped c before
    · exact absurd finished (searching.linked.unfinished onWay).not_finished
  case reported => exact searching.reported

/-! ### Visits that end -/

theorem leave (last : s.visits = ⟨a, []⟩ :: visits) (unfinished : s.colours[a]? = some (.gray index low))
    (inner : low ≠ index) : Searching g roots ({ s with visits }.passOn low) := by
  have isWay : s.way = a :: visits.map (·.node) := by simp [way, last]
  have onWay : a ∈ s.way := isWay ▸ List.mem_cons_self
  have linked := searching.linked
  obtain rfl := Colours.index_of_known unfinished
  obtain rfl := Colours.low_of_known unfinished
  -- The node leads below itself, so there is a node on the way that it was entered from.
  obtain ⟨b, onStack, isLow, path⟩ := linked.low_reached a onWay
  obtain ⟨parent, visits, rfl⟩ : ∃ parent rest, visits = parent :: rest := by
    obtain ⟨c, onWayC, order, -⟩ := linked.home b onStack
    have less := linked.low_le a onWay
    rw [isWay] at onWayC
    cases visits with
    | nil =>
      cases List.mem_singleton.1 onWayC
      omega
    | cons parent rest => exact ⟨parent, rest, rfl⟩
  have onWayP : parent.node ∈ s.way := by simp [isWay]
  have unfinishedP := linked.unfinished onWayP
  have before : s.colours.index parent.node < s.colours.index a := linked.index_lt isWay (by simp)
  have other : a ≠ parent.node := by
    rintro same
    rw [← same] at before
    exact Nat.lt_irrefl _ before
  have sameSeen (c : α) : c ∈ s.colours.lower parent.node (s.colours.low a) ↔ c ∈ s.colours := mem_lower
  have explored {c d : α}
      (edge : Explored g (s.colours.lower parent.node (s.colours.low a)) (parent :: visits) c d) :
      Explored g s.colours s.visits c d := last ▸ (edge.of_mem fun c => (sameSeen c).1).of_end
  constructor
  case linked =>
    have there := (linked.ahead parent.node onWayP a (linked.onStack a onWay) before.le).trans path
    have lowered := linked.lower onWayP onStack there
    rw [isLow] at lowered
    refine (lowered.leave isWay ?_ fun c isHead => ?_).explore fun c d edge => .inl (explored edge)
    · rwa [Colours.low_lower unfinishedP, if_neg other, Colours.index_lower unfinishedP]
    · obtain rfl : parent.node = c := by simpa using isHead
      rw [Colours.low_lower unfinishedP, Colours.low_lower unfinishedP, if_pos rfl, if_neg other]
      exact Nat.min_le_right ..
  case counted =>
    intro c member
    exact (Colours.index_lower unfinishedP).symm ▸ searching.counted c member
  case sources => exact fun visit member => searching.sources visit (last ▸ List.mem_cons_of_mem _ member)
  case tried => exact fun root isRoot => (searching.tried root isRoot).imp_right (sameSeen root).2
  case untried => exact searching.untried
  case reached => exact fun c member => searching.reached c ((sameSeen c).1 member)
  case loops => exact searching.loops
  case looped => exact fun c edge => searching.looped c (explored edge)
  case reported => exact searching.reported.of_finished fun c => Colours.finished_lower unfinishedP

/-- What is passed on when a part is finished changes nothing. -/
theorem colours_passOn (last : s.visits = ⟨a, []⟩ :: visits) :
    (passOn (s.colours.index a) { s with visits }).colours = s.colours := by
  have isWay : s.way = a :: visits.map (·.node) := by simp [way, last]
  cases visits with
  | nil => rfl
  | cons parent visits =>
    have onWayP : parent.node ∈ s.way := by simp [isWay]
    refine Colours.lower_of_le (searching.linked.unfinished onWayP) ?_
    have before := searching.linked.index_lt isWay (b := parent.node) (by simp)
    exact (searching.linked.low_le _ onWayP).trans before.le

theorem close (last : s.visits = ⟨a, []⟩ :: visits) (unfinished : s.colours[a]? = some (.gray index index)) :
    Searching g roots (({ s with visits }.passOn index).closePart a) := by
  have isWay : s.way = a :: visits.map (·.node) := by simp [way, last]
  have onWay : a ∈ s.way := isWay ▸ List.mem_cons_self
  have linked := searching.linked
  have isFirst : s.colours.low a = s.colours.index a :=
    (Colours.low_of_known unfinished).trans (Colours.index_of_known unfinished).symm
  obtain rfl := Colours.index_of_known unfinished
  have passed := searching.colours_passOn last
  obtain ⟨above, below, isStack⟩ := List.append_of_mem (linked.onStack a onWay)
  have distinct : (above ++ [a]).Nodup := by
    have nodup : s.stack.Nodup := linked.falling.imp fun {b c} order same => by simp [same] at order
    rw [isStack, List.append_cons] at nodup
    exact (List.nodup_append.1 nodup).1
  have popped : popTo a s.stack = (above ++ [a], below) := by
    rw [isStack]
    exact popTo_eq fun member => (List.nodup_append.1 distinct).2.2 a member a List.mem_cons_self rfl
  -- Nodes from `a` on are not visited any more, so all edges from them have been explored.
  have complete : ∀ b ∈ above ++ [a], ∀ c ∈ g.next b, Explored g s.colours s.visits b c := by
    intro b member c edge
    obtain ⟨onStack, order⟩ := (linked.mem_part_iff isStack).1 member
    refine ⟨((linked.stacked b).1 onStack).mem, edge, ?_⟩
    rw [last, List.forall_mem_cons]
    refine ⟨fun _ => List.not_mem_nil, fun visit earlier isNode => ?_⟩
    have := linked.index_lt isWay (b := visit.node) (List.mem_map_of_mem earlier)
    rw [isNode] at this
    exact absurd order (Nat.not_le.2 this)
  have class_iff (b : α) : b ∈ above ++ [a] ↔ g.Mutual a b :=
    linked.mem_part_iff_mutual isWay isStack isFirst complete
  have sameSeen (c : α) : c ∈ s.colours.blacken (above ++ [a]) ↔ c ∈ s.colours := by
    rw [Colours.mem_blacken, or_iff_right_iff_imp, linked.mem_part_iff isStack]
    exact fun member => ((linked.stacked c).1 member.1).mem
  have explored {c d : α} (edge : Explored g (s.colours.blacken (above ++ [a])) visits c d) :
      Explored g s.colours s.visits c d := last ▸ (edge.of_mem fun c => (sameSeen c).1).of_end
  have closed : (passOn (s.colours.index a) { s with visits }).closePart a =
      { s with
        visits
        stack := below
        colours := s.colours.blacken (above ++ [a])
        report := if 1 < (above ++ [a]).length ∨ a ∈ s.loops then s.report.add (above ++ [a]) else s.report } := by
    have sameStack : (passOn (s.colours.index a) { s with visits }).stack = s.stack := rfl
    rw [closePart, sameStack, popped, passed]
    rfl
  rw [closed]
  have linkedToo := linked.close isWay isStack isFirst complete
  constructor
  case linked => exact linkedToo.explore fun c d edge => .inl (explored edge)
  case counted =>
    intro c member
    have unfinished := Colours.unfinished_blacken.1 ((linkedToo.stacked c).1 member)
    rw [Colours.index_blacken unfinished.1]
    exact searching.counted c ((linked.stacked c).2 unfinished.2)
  case sources => exact fun visit member => searching.sources visit (last ▸ List.mem_cons_of_mem _ member)
  case tried => exact fun root isRoot => (searching.tried root isRoot).imp_right (sameSeen root).2
  case untried => exact searching.untried
  case reached => exact fun c member => searching.reached c ((sameSeen c).1 member)
  case loops => exact searching.loops
  case looped => exact fun c edge => searching.looped c (explored edge)
  case reported =>
    have loops_iff : a ∈ s.loops ↔ a ∈ g.next a := by
      refine ⟨searching.loops a, fun loop => searching.looped a ?_⟩
      exact complete a (List.mem_append_right _ List.mem_cons_self) a loop
    have reached := searching.reached a (linked.unfinished onWay).mem
    dsimp only
    split
    · next cyclic =>
      rw [loops_iff] at cyclic
      refine searching.reported.add distinct class_iff (fun b member => ?_) reached cyclic
      exact ((linked.stacked b).1 ((linked.mem_part_iff isStack).1 member).1).not_finished
    · next acyclic =>
      rw [loops_iff] at acyclic
      exact searching.reported.skip distinct class_iff acyclic

theorem step (taken : Step g s t) : Searching g roots t := by
  cases taken with
  | drop _ isNext seen => exact searching.drop isNext seen
  | @start root rest noVisit isNext unseen =>
    have noWay : s.way = [] := by rw [way, noVisit, List.map_nil]
    have isRoot := searching.untried root (isNext ▸ List.mem_cons_self)
    refine searching.enter unseen (fun other waiting => ?_) (fun other waiting => ?_) rfl searching.sources
      (fun _ _ => .inl) ?_ ⟨root, isRoot, .refl⟩
    · exact (List.mem_cons.1 (isNext ▸ waiting)).symm
    · exact isNext ▸ List.mem_cons_of_mem _ waiting
    · simp [noWay]
  | enter last unseen => exact searching.enter_look last unseen
  | back last unfinished => exact searching.back last unfinished
  | cross last finished => exact searching.cross last finished
  | leave last unfinished inner => exact searching.leave last unfinished inner
  | close last unfinished => exact searching.close last unfinished
  | @stray a visits last known =>
    have unfinished := searching.linked.unfinished (a := a) (by simp [way, last])
    exact absurd unfinished (known _ _)

end Searching

theorem Searching.run {nodes : List α} (searching : Searching g roots s) (within : s.Within g nodes) :
    Searching g roots (CycleSearch.run g s within) ∧ (CycleSearch.run g s within).visits = [] ∧
      (CycleSearch.run g s within).roots = [] := by
  fun_induction CycleSearch.run g s within with
  | case1 s within noStep => exact ⟨searching, done_of_step? noStep⟩
  | case2 s within t taken ih => exact ih (searching.step (step_of_step? taken))

/-- When no root is left, all nodes that the roots lead to are finished. -/
theorem Searching.finished (searching : Searching g roots s) (noVisit : s.visits = []) (noRoot : s.roots = [])
    (reached : ∃ root ∈ roots, g.Path root a) : s.colours.Finished a := by
  obtain ⟨root, isRoot, path⟩ := reached
  refine searching.linked.finished_of_path ?_ path
  have entered : root ∈ s.colours := by simpa [noRoot] using searching.tried root isRoot
  refine (Colours.unfinished_or_finished entered).resolve_left fun unfinished => ?_
  obtain ⟨b, onWay, -⟩ := searching.linked.home root ((searching.linked.stacked root).2 unfinished)
  simp [way, noVisit] at onWay

end CycleSearch

end PageCalc.Graph

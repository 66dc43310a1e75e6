import PageCalc.Proofs.Graph.CycleSearch

/-!
# Reports of cycles

A report names each class of nodes that lead to each other and hold a cycle just once, if the roots
lead there. The nodes of a class are in order, and so are the classes. There is only one such report:
neither the order of the roots nor that of the successors is seen in it, nor how often they are given.
-/

set_option linter.unusedSectionVars false

namespace PageCalc.Graph

open Collection

namespace Digraph

variable {α : Type} [Ord α] [Std.TransOrd α] [Std.LawfulEqOrd α]
variable {g : Digraph α} {roots : List α} {component : List α} {a b : α}

/-! ## What a report holds -/

/-- The cycles of a report are the classes that are cycles. -/
theorem mem_cycles_iff_isCycle : component ∈ (g.cycles roots).cycles ↔ g.IsCycle roots component := by
  obtain ⟨searching, noVisit, noRoot⟩ :=
    (CycleSearch.Searching.start g roots).run (CycleSearch.within_start g roots)
  rw [cycles, CycleReport.sorted, List.mem_mergeSort, searching.reported.mem_cycles]
  refine and_iff_left_of_imp fun isCycle a member => ?_
  exact searching.finished noVisit noRoot (isCycle.reached member)

theorem cycles_pairwise_lt (g : Digraph α) (roots : List α) :
    (g.cycles roots).cycles.Pairwise (compare · · = .lt) := by
  obtain ⟨searching, -⟩ := (CycleSearch.Searching.start g roots).run (CycleSearch.within_start g roots)
  exact @pairwise_mergeSort_lt (List α) (List.compareLex compare) _ _ _ searching.reported.distinct

theorem mem_members_iff : a ∈ (g.cycles roots).members ↔ ∃ c ∈ (g.cycles roots).cycles, a ∈ c := by
  obtain ⟨searching, -⟩ := (CycleSearch.Searching.start g roots).run (CycleSearch.within_start g roots)
  simp only [cycles, CycleReport.sorted, searching.reported.mem_members, List.mem_mergeSort]

/-- The nodes that are reported are those on cycles that the roots lead to. -/
theorem mem_cycles_members :
    a ∈ (g.cycles roots).members ↔ (∃ root ∈ roots, g.Path root a) ∧ g.OnCycle a := by
  rw [mem_members_iff]
  constructor
  · rintro ⟨component, isFound, member⟩
    have isCycle := mem_cycles_iff_isCycle.1 isFound
    exact ⟨isCycle.reached member, isCycle.onCycle member⟩
  · rintro ⟨reached, onCycle⟩
    obtain ⟨searching, noVisit, noRoot⟩ :=
      (CycleSearch.Searching.start g roots).run (CycleSearch.within_start g roots)
    obtain ⟨component, isFound, member⟩ :=
      searching.reported.covered a (searching.finished noVisit noRoot reached) onCycle
    exact ⟨component, List.mem_mergeSort.2 isFound, member⟩

/-! ## One report for each graph -/

theorem IsCycle.of_same {g' : Digraph α} {roots' : List α} (isCycle : g.IsCycle roots component)
    (edges : ∀ a b, b ∈ g'.next a ↔ b ∈ g.next a) (starts : ∀ a, a ∈ roots' ↔ a ∈ roots) :
    g'.IsCycle roots' component := by
  have path : g'.Path = g.Path :=
    congrArg Relation.ReflTransGen (funext fun a => funext fun b => propext (edges a b))
  obtain ⟨a, reached, class_iff⟩ := isCycle.class_iff
  refine ⟨isCycle.rising, ⟨a, ?_, fun b => ?_⟩, ?_⟩
  · simpa only [starts, path] using reached
  · simpa only [Mutual, path] using class_iff b
  · simpa only [edges] using isCycle.cyclic

/-- The cycles that are reported are the classes of nodes that lead to each other and to which the roots
lead, if there are several nodes in the class or its only one leads to itself. Each is reported once and
in order, all of them are in order, and the members of the report are their nodes. The report depends on
nothing but the edges and the set of roots. -/
theorem cycles_exact (g : Digraph α) (roots : List α) :
    (∀ component, component ∈ (g.cycles roots).cycles ↔ g.IsCycle roots component) ∧
    (g.cycles roots).cycles.Pairwise (compare · · = .lt) ∧
    (∀ a, a ∈ (g.cycles roots).members ↔ ∃ component ∈ (g.cycles roots).cycles, a ∈ component) ∧
    ∀ (g' : Digraph α) (roots' : List α), (∀ a b, b ∈ g'.next a ↔ b ∈ g.next a) →
      (∀ a, a ∈ roots' ↔ a ∈ roots) → g'.cycles roots' = g.cycles roots := by
  refine ⟨fun _ => mem_cycles_iff_isCycle, g.cycles_pairwise_lt roots, fun _ => mem_members_iff, ?_⟩
  intro g' roots' edges starts
  have cycles : (g'.cycles roots').cycles = (g.cycles roots).cycles := by
    refine eq_of_pairwise_lt (g'.cycles_pairwise_lt roots') (g.cycles_pairwise_lt roots) fun component => ?_
    rw [mem_cycles_iff_isCycle, mem_cycles_iff_isCycle]
    refine ⟨fun isCycle => isCycle.of_same (fun a b => (edges a b).symm) fun a => (starts a).symm, ?_⟩
    exact fun isCycle => isCycle.of_same edges starts
  have members : (g'.cycles roots').members = (g.cycles roots).members := by
    refine Std.ExtTreeSet.ext_mem fun a => ?_
    rw [mem_members_iff, mem_members_iff, cycles]
  exact congrArg₂ CycleReport.mk cycles members

/-- Two nodes that lead to each other, and a third one from which they are found. -/
theorem cycles_exact_pair :
    [1, 2] ∈ ((ofEdges [(1, 2), (2, 1), (3, 2)] : Digraph Nat).cycles [3]).cycles ∧
    (ofEdges [(3, 2), (2, 1), (1, 2), (2, 1)]).cycles [3, 3] =
      (ofEdges [(1, 2), (2, 1), (3, 2)] : Digraph Nat).cycles [3] := by
  obtain ⟨reported, -, -, unique⟩ := cycles_exact (ofEdges [(1, 2), (2, 1), (3, 2)] : Digraph Nat) [3]
  refine ⟨(reported [1, 2]).2 ⟨by decide, ⟨1, ⟨3, by simp, ?_⟩, fun b => ⟨?_, ?_⟩⟩, .inl (by decide)⟩, ?_⟩
  · exact .head (b := 2) (mem_next_ofEdges.2 (by decide)) (.single (mem_next_ofEdges.2 (by decide)))
  · intro member
    rcases List.mem_pair.1 member with rfl | rfl
    · exact Mutual.refl 1
    · exact ⟨.single (mem_next_ofEdges.2 (by decide)), .single (mem_next_ofEdges.2 (by decide))⟩
  · -- No edge leads from the two nodes to the third one.
    rintro ⟨path, -⟩
    induction path with
    | refl => decide
    | tail _ edge ih =>
      rw [mem_next_ofEdges] at edge
      simp only [List.mem_cons, Prod.mk.injEq, List.not_mem_nil, or_false] at ih edge ⊢
      omega
  · refine unique _ _ (fun a b => ?_) fun a => by simp
    simp only [mem_next_ofEdges, List.mem_cons, Prod.mk.injEq, List.not_mem_nil, or_false]
    omega

end Digraph

end PageCalc.Graph

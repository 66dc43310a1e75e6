import Mathlib.Data.List.Nodup
import Mathlib.Logic.Relation
import PageCalc.Graph.Cycle
import PageCalc.Proofs.Collection

/-!
# The cyclic parts of a graph

The classes of nodes that lead to each other, and what makes such a class a cycle: some node of it,
and then each, leads to itself by at least one edge.
-/

set_option linter.unusedSectionVars false

namespace PageCalc.Graph.Digraph

open Collection

variable {α : Type} [Ord α] [Std.TransOrd α] [Std.LawfulEqOrd α]
variable {g : Digraph α} {roots component : List α} {a b : α}

/-! ## Listed edges -/

theorem mem_next_insert {a' b' : α} : b ∈ (g.insert a' b').next a ↔ b ∈ g.next a ∨ a = a' ∧ b = b' := by
  simp only [insert, next, Std.ExtTreeMap.getElem?_alter, Std.LawfulEqCmp.compare_eq_iff_eq]
  by_cases same : a' = a
  · simp [same]
  · simp [same, Ne.symm same]

theorem mem_next_ofEdges {edges : List (α × α)} : b ∈ (ofEdges edges).next a ↔ (a, b) ∈ edges := by
  have each (g : Digraph α) (edge : α × α) :
      b ∈ (g.insert edge.1 edge.2).next a ↔ b ∈ g.next a ∨ a = edge.1 ∧ b = edge.2 := mem_next_insert
  refine (holds_foldl (fun g : Digraph α => b ∈ g.next a) each edges empty).trans ?_
  simp [empty, next]

/-! ## Classes -/

/-- A path along the edges of a graph. -/
abbrev Path (g : Digraph α) : α → α → Prop := Relation.ReflTransGen fun a b => b ∈ g.next a

/-- Two nodes that lead to each other. -/
def Mutual (g : Digraph α) (a b : α) : Prop := g.Path a b ∧ g.Path b a

theorem Mutual.refl (a : α) : g.Mutual a a := ⟨.refl, .refl⟩

theorem Mutual.symm (mutually : g.Mutual a b) : g.Mutual b a := ⟨mutually.2, mutually.1⟩

theorem Mutual.trans {c : α} (first : g.Mutual a b) (second : g.Mutual b c) : g.Mutual a c :=
  ⟨first.1.trans second.1, second.2.trans first.2⟩

/-- A node that leads to itself by at least one edge. -/
def OnCycle (g : Digraph α) (a : α) : Prop := Relation.TransGen (fun a b => b ∈ g.next a) a a

/-- The nodes, in order, of a class of nodes that lead to each other, if the roots lead to them and
there is more than one or the only one leads to itself. -/
structure IsCycle (g : Digraph α) (roots component : List α) : Prop where
  rising : component.Pairwise (compare · · = .lt)
  class_iff : ∃ a, (∃ root ∈ roots, g.Path root a) ∧ ∀ b, b ∈ component ↔ g.Mutual a b
  cyclic : 1 < component.length ∨ ∃ a ∈ component, a ∈ g.next a

namespace IsCycle

variable (isCycle : g.IsCycle roots component)

include isCycle

theorem mutual_of_mem (memberA : a ∈ component) (memberB : b ∈ component) : g.Mutual a b := by
  obtain ⟨center, -, class_iff⟩ := isCycle.class_iff
  exact ((class_iff a).1 memberA).symm.trans ((class_iff b).1 memberB)

theorem mem_iff (member : a ∈ component) : b ∈ component ↔ g.Mutual a b := by
  refine ⟨isCycle.mutual_of_mem member, fun mutually => ?_⟩
  obtain ⟨center, -, class_iff⟩ := isCycle.class_iff
  exact (class_iff b).2 (((class_iff a).1 member).trans mutually)

/-- A class is listed in one order only. -/
theorem eq_of_mem {other : List α} (isCycleToo : g.IsCycle roots other) (member : a ∈ component)
    (memberToo : a ∈ other) : component = other :=
  eq_of_pairwise_lt isCycle.rising isCycleToo.rising fun _ =>
    (isCycle.mem_iff member).trans (isCycleToo.mem_iff memberToo).symm

theorem reached (member : a ∈ component) : ∃ root ∈ roots, g.Path root a := by
  obtain ⟨center, ⟨root, isRoot, path⟩, class_iff⟩ := isCycle.class_iff
  exact ⟨root, isRoot, path.trans ((class_iff a).1 member).1⟩

end IsCycle

theorem Mutual.onCycle (mutually : g.Mutual a b) (cycle : g.OnCycle b) : g.OnCycle a :=
  (cycle.trans_right mutually.1).trans_left mutually.2

/-- The nodes of a class are on cycles if there are several, or if one leads to itself. -/
theorem cyclic_iff_onCycle (distinct : component.Nodup) (class_iff : ∀ b, b ∈ component ↔ g.Mutual a b) :
    1 < component.length ∨ a ∈ g.next a ↔ g.OnCycle a := by
  constructor
  · rintro (several | loop)
    -- A class without repetitions that has two members has one that is not `a`.
    · obtain ⟨b, member, different⟩ : ∃ b ∈ component, b ≠ a := by
        by_contra alone
        push Not at alone
        have same := List.eq_replicate_of_mem alone
        have short := List.nodup_replicate.1 (same ▸ distinct)
        omega
      obtain ⟨there, back⟩ := (class_iff b).1 member
      rcases Relation.reflTransGen_iff_eq_or_transGen.1 there with same | there
      · exact absurd same different
      · exact there.trans_left back
    · exact .single loop
  · intro cycle
    -- The first step of a cycle stays in the class: it is a loop, or there are two members.
    obtain ⟨b, edge, back⟩ := Relation.TransGen.head'_iff.1 cycle
    have memberA := (class_iff a).2 (Mutual.refl a)
    have memberB := (class_iff b).2 ⟨.single edge, back⟩
    by_cases same : b = a
    · exact .inr (same ▸ edge)
    · rcases component with _ | ⟨c, _ | ⟨d, rest⟩⟩
      · simp at memberA
      · simp only [List.mem_singleton] at memberA memberB
        exact absurd (memberB.trans memberA.symm) same
      · exact .inl (by simp)

theorem IsCycle.onCycle (isCycle : g.IsCycle roots component) (member : a ∈ component) : g.OnCycle a := by
  rcases isCycle.cyclic with several | ⟨b, memberB, loop⟩
  · exact (cyclic_iff_onCycle (nodup_of_pairwise_lt isCycle.rising) fun _ => isCycle.mem_iff member).1
      (.inl several)
  · exact (isCycle.mutual_of_mem member memberB).onCycle (.single loop)

/-- A class that is found in any order is a cycle if it has several nodes or its first one leads to
itself. -/
theorem isCycle_mergeSort (distinct : component.Nodup) (class_iff : ∀ b, b ∈ component ↔ g.Mutual a b)
    (reached : ∃ root ∈ roots, g.Path root a) (cyclic : 1 < component.length ∨ a ∈ g.next a) :
    g.IsCycle roots (component.mergeSort fun a b => (compare a b).isLE) := by
  refine ⟨pairwise_mergeSort_lt distinct, ⟨a, reached, fun b => ?_⟩, ?_⟩
  · rw [List.mem_mergeSort, class_iff]
  · simp only [List.length_mergeSort, List.mem_mergeSort]
    exact cyclic.imp_right fun loop => ⟨a, (class_iff a).2 (Mutual.refl a), loop⟩

end PageCalc.Graph.Digraph

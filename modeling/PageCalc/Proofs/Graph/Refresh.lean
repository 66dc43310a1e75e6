import PageCalc.Evaluation.Result
import PageCalc.Proofs.Graph.History
import PageCalc.Proofs.Graph.Walk

/-!
# Cells to evaluate again

The cells to evaluate again after changes are those that depend on a changed one: none of them is
missed, no other is among them, and each comes once. A cell comes after those that it depends on, unless
they depend on it as well.
-/

namespace PageCalc

open Collection PageCalc.Graph

namespace Dependencies

variable {sheet : Sheet} {cell a b : Address} {g : Dependencies} {cache : ParseCache}

theorem mem_dependentsOf_addDependency {precedent dependent : Address} :
    b ∈ (g.addDependency precedent dependent).dependentsOf a ↔
      b ∈ g.dependentsOf a ∨ a = precedent ∧ b = dependent := by
  simp only [dependentsOf, Std.ExtTreeSet.mem_toList]
  exact mem_relate

/-! ## Both directions -/

/-- The dependents of cells are noted where their precedents are. -/
def Paired (g : Dependencies) : Prop := ∀ a b, b ∈ g.dependentsOf a ↔ a ∈ g.precedentsOf b

theorem paired_empty : empty.Paired := by
  intro a b
  simp [empty, dependentsOf, precedentsOf]

theorem Paired.addDependency {precedent dependent : Address} (paired : g.Paired) :
    (g.addDependency precedent dependent).Paired := by
  intro a b
  rw [mem_dependentsOf_addDependency, mem_precedentsOf_addDependency, paired a b, and_comm]

theorem Paired.addReference {r : Reference} (paired : g.Paired) : (addReference sheet cell g r).Paired := by
  cases r with
  | cell c => exact paired.addDependency
  | range area => exact List.foldlRecOn _ _ paired fun _ holds _ _ => holds.addDependency
  | external external => exact paired

theorem Paired.addOutcome {outcome : ParseOutcome} (paired : g.Paired) :
    (addOutcome sheet g cell outcome).Paired := by
  have noted : (g.addFormula cell).Paired := paired
  cases outcome with
  | error _ => exact noted
  | ok e => exact List.foldlRecOn _ _ noted fun _ holds _ _ => holds.addReference

theorem paired_ofSheet : (ofSheet sheet cache).1.Paired := by
  rw [ofSheet_fst]
  exact List.foldlRecOn _ _ paired_empty fun _ holds _ _ => holds.addOutcome

theorem paired_after (changes : List Change) : (after changes).Paired := by
  induction changes with
  | nil => exact paired_empty
  | cons last earlier ih =>
    cases last with
    | gather sheet cache => exact paired_ofSheet
    | addDependency precedent dependent => exact ih.addDependency
    | addExternal cell external => exact ih
    | clear => exact paired_empty

/-! ## The walk -/

theorem mem_keys_of_needs (needs : g.Needs a b) : a ∈ g.precedents.keys := by
  rw [Std.ExtTreeMap.mem_keys]
  by_contra absent
  simp [Needs, precedentsOf, Std.ExtTreeMap.getElem?_eq_none absent] at needs

namespace Paired

variable (paired : g.Paired)

include paired

/-- The walk goes from a cell to those that depend on it. -/
theorem edge_iff : Edge g.dependentsOf (Std.ExtTreeSet.ofList g.precedents.keys) a b ↔ g.Needs b a := by
  rw [Edge, paired a b, mem_ofList]
  exact and_iff_left_of_imp mem_keys_of_needs

theorem leads_iff : Leads g.dependentsOf (Std.ExtTreeSet.ofList g.precedents.keys) a b ↔
    Relation.ReflTransGen g.Needs b a := by
  have edges : Edge g.dependentsOf (Std.ExtTreeSet.ofList g.precedents.keys) = Function.swap g.Needs := by
    funext a b
    exact propext paired.edge_iff
  rw [Leads, edges, Relation.reflTransGen_swap]

theorem mem_refreshOrder {changed : List Address} :
    b ∈ g.refreshOrder changed ↔ ∃ a ∈ changed, Relation.TransGen g.Needs b a := by
  rw [refreshOrder, mem_finishOrder]
  simp only [Reached, List.mem_flatMap, paired _ _, mem_ofList, paired.leads_iff]
  constructor
  · rintro ⟨root, ⟨a, isChanged, needs⟩, -, path⟩
    exact ⟨a, isChanged, .tail' path needs⟩
  · rintro ⟨a, isChanged, path⟩
    obtain ⟨root, before, needs⟩ := Relation.TransGen.tail'_iff.1 path
    exact ⟨root, ⟨a, isChanged, needs⟩, mem_keys_of_needs needs, before⟩

end Paired

/-- After any changes of a graph, the cells to evaluate again are those that depend on a changed one,
each of them once. Of two of them, where one depends on the other directly and the other not on it, the
one that is read comes first, whether or not there are cycles elsewhere. -/
theorem refreshOrder_after (changes : List Change) (changed : List Address) :
    (∀ b, b ∈ (after changes).refreshOrder changed ↔
      ∃ a ∈ changed, Relation.TransGen (after changes).Needs b a) ∧
    ((after changes).refreshOrder changed).Nodup ∧
    ∀ u ∈ (after changes).refreshOrder changed, ∀ v ∈ (after changes).refreshOrder changed,
      (after changes).Needs v u → ¬ Relation.ReflTransGen (after changes).Needs u v →
        [u, v].Sublist ((after changes).refreshOrder changed) := by
  have paired := paired_after changes
  refine ⟨fun b => paired.mem_refreshOrder, nodup_finishOrder .., fun u member v _ needs away => ?_⟩
  have ordered := finishOrder_isOrder (after changes).dependentsOf
    (Std.ExtTreeSet.ofList (after changes).precedents.keys) (changed.flatMap (after changes).dependentsOf)
  exact ordered.sublist_of_edge member (paired.edge_iff.2 needs) fun back => away (paired.leads_iff.1 back)

/-- Three cells of a row, each of which but the first reads the one before, and a fourth one on a cycle
with the third. -/
def rowChanges : List Change :=
  [.addDependency ⟨0, 2⟩ ⟨0, 3⟩, .addDependency ⟨0, 3⟩ ⟨0, 2⟩, .addDependency ⟨0, 1⟩ ⟨0, 2⟩,
    .addDependency ⟨0, 0⟩ ⟨0, 1⟩]

/-- When the first cell has changed, the second one comes before the third one. -/
theorem refreshOrder_after_rowChanges :
    [⟨0, 1⟩, ⟨0, 2⟩].Sublist ((after rowChanges).refreshOrder [⟨0, 0⟩, ⟨0, 0⟩]) := by
  obtain ⟨covers, -, ordered⟩ := refreshOrder_after rowChanges [⟨0, 0⟩, ⟨0, 0⟩]
  have second : (after rowChanges).Needs ⟨0, 1⟩ ⟨0, 0⟩ := by simp [needs_after, rowChanges, Noted]
  have third : (after rowChanges).Needs ⟨0, 2⟩ ⟨0, 1⟩ := by simp [needs_after, rowChanges, Noted]
  have stays {b : Address} (path : Relation.ReflTransGen (after rowChanges).Needs ⟨0, 1⟩ b) :
      b.column < 2 := by
    induction path with
    | refl => decide
    | tail _ needs ih =>
      simp only [needs_after, rowChanges, Noted] at needs
      grind
  refine ordered ⟨0, 1⟩ ((covers _).2 ⟨⟨0, 0⟩, by simp, .single second⟩) ⟨0, 2⟩ ?_ third fun path => ?_
  · exact (covers _).2 ⟨⟨0, 0⟩, by simp, .head third (.single second)⟩
  · exact absurd (stays path) (by decide)

end Dependencies

/-- The cells to evaluate again are those that depend on a changed one. -/
theorem Sheet.mem_refreshOrder {sheet : Sheet} {changed : List Address} {b : Address} :
    b ∈ sheet.refreshOrder changed ↔ ∃ a ∈ changed, Relation.TransGen sheet.Reads b a := by
  have needs : (Dependencies.ofSheet sheet .empty).1.Needs = sheet.Reads := by
    funext a b
    exact propext Dependencies.mem_precedentsOf_ofSheet
  rw [refreshOrder, Dependencies.paired_ofSheet.mem_refreshOrder, needs]

end PageCalc

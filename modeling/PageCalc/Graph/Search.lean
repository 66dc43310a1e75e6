import Std.Data.ExtTreeMap
import Std.Data.ExtTreeSet

/-!
# Depth-first search

Walks a finite graph along the successors of its nodes and notes the order in which nodes are
finished: a node is finished when all that can be reached from it by nodes not yet visited is.
The walk keeps its own stack, so that long paths do no harm.
-/

namespace PageCalc.Graph

variable {α : Type} [Ord α] [Std.TransOrd α]

/-- A node on the way from the start to where the walk is, and its successors that are still to
be looked at. The nodes to start from belong to no node. -/
structure Frame (α : Type) where
  node? : Option α
  successors : List α

/-! ## Work that is left -/

section Total

variable {β : Type} {size size' : β → Nat} {b : β} {l l' : List β}

/-- The sizes of the members of a list, added up. -/
def total (size : β → Nat) : List β → Nat
  | [] => 0
  | b :: l => size b + total size l

@[simp] theorem total_nil : total size [] = 0 := rfl

@[simp] theorem total_cons : total size (b :: l) = size b + total size l := rfl

theorem total_append : total size (l ++ l') = total size l + total size l' := by
  induction l with
  | nil => simp
  | cons b l ih => simp [ih, Nat.add_assoc]

theorem total_perm (perm : l.Perm l') : total size l = total size l' := by
  induction perm with
  | nil => rfl
  | cons b _ ih => simp [ih]
  | swap b c l => simp [Nat.add_left_comm]
  | trans _ _ first second => exact first.trans second

theorem total_le_total (le : ∀ b, size b ≤ size' b) : total size l ≤ total size' l := by
  induction l with
  | nil => exact Nat.le_refl _
  | cons b l ih => exact Nat.add_le_add (le b) ih

end Total

theorem perm_toList_erase [Std.LawfulEqOrd α] {s : Std.ExtTreeSet α} {a : α} (member : a ∈ s) :
    s.toList.Perm (a :: (s.erase a).toList) := by
  have distinct (s : Std.ExtTreeSet α) : s.toList.Nodup := Std.ExtTreeSet.distinct_toList.imp fun order same =>
    order (Std.LawfulEqCmp.compare_eq_iff_eq.2 same)
  have outside : a ∉ (s.erase a).toList := by simp
  refine (List.perm_ext_iff_of_nodup (distinct s) (List.nodup_cons.2 ⟨outside, distinct _⟩)).2 fun b => ?_
  by_cases same : b = a
  · simp [same, member]
  · simp [same, Ne.symm same]

/-- What a walk still has to look at, if it enters each of the unvisited nodes. -/
def pendingWork (next : α → List α) (unvisited : Std.ExtTreeSet α) (frames : List (Frame α)) : Nat :=
  total (fun a => (next a).length + 1) unvisited.toList +
    total (fun frame : Frame α => frame.successors.length + 1) frames

/-! ## The walk -/

/-- Goes on with a walk. Only unvisited nodes are entered; the result holds those that are left,
and the finished nodes, the last one first. -/
def walk [Std.LawfulEqOrd α] (next : α → List α) (unvisited : Std.ExtTreeSet α) (frames : List (Frame α))
    (finished : List α) : Std.ExtTreeSet α × List α :=
  match frames with
  | [] => (unvisited, finished)
  | ⟨node?, []⟩ :: frames => walk next unvisited frames (node?.toList ++ finished)
  | ⟨node?, child :: successors⟩ :: frames =>
    if child ∈ unvisited then
      walk next (unvisited.erase child)
        (⟨some child, next child⟩ :: ⟨node?, successors⟩ :: frames) finished
    else walk next unvisited (⟨node?, successors⟩ :: frames) finished
termination_by pendingWork next unvisited frames
decreasing_by
  · simp [pendingWork]
  · next entered =>
    simp only [pendingWork, total_cons, List.length_cons, total_perm (perm_toList_erase entered)]
    omega
  · simp [pendingWork]

variable [Std.LawfulEqOrd α]

/-- Visits all unvisited nodes that can be reached from `roots`, which are tried in order. -/
def walkFrom (next : α → List α) (unvisited : Std.ExtTreeSet α) (roots : List α) :
    Std.ExtTreeSet α × List α :=
  walk next unvisited [⟨none, roots⟩] []

/-- The nodes among `allowed` that can be reached from `roots`, the last finished one first: a
node comes before those that it leads to, unless they lead back to it. -/
def finishOrder (next : α → List α) (allowed : Std.ExtTreeSet α) (roots : List α) : List α :=
  (walkFrom next allowed roots).2

end PageCalc.Graph

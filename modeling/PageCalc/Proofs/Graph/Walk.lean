import Mathlib.Data.List.Nodup
import Mathlib.Logic.Relation
import PageCalc.Graph.Search
import PageCalc.Proofs.Collection

/-!
# What a walk finds

A walk visits exactly the allowed nodes that lead on from its roots through allowed nodes. In the
order of finishing, every end of the list is closed but for edges back to where the walk came from:
this is what the orders of precedents and of cells to evaluate again rest on.
-/

set_option linter.unusedSectionVars false

namespace PageCalc.Graph

variable {α : Type} [Ord α] [Std.TransOrd α] [Std.LawfulEqOrd α]
variable {next : α → List α} {allowed unvisited rest : Std.ExtTreeSet α} {roots : List α}
variable {frames : List (Frame α)} {finished order : List α}

/-- An edge to an allowed node. -/
def Edge (next : α → List α) (allowed : Std.ExtTreeSet α) (a b : α) : Prop :=
  b ∈ next a ∧ b ∈ allowed

/-- A path whose nodes after the first are allowed. -/
abbrev Leads (next : α → List α) (allowed : Std.ExtTreeSet α) : α → α → Prop :=
  Relation.ReflTransGen (Edge next allowed)

def Reached (next : α → List α) (allowed : Std.ExtTreeSet α) (roots : List α) (a : α) : Prop :=
  ∃ root ∈ roots, root ∈ allowed ∧ Leads next allowed root a

/-- Every edge out of an end of the list stays in it or goes to a node that leads back to the head
of that end. -/
def FinishOrder (next : α → List α) (allowed : Std.ExtTreeSet α) : List α → Prop
  | [] => True
  | u :: older =>
    (∀ a ∈ u :: older, ∀ b, Edge next allowed a b → b ∈ u :: older ∨ Leads next allowed b u) ∧
      FinishOrder next allowed older

/-- The nodes that a walk has entered and not finished, the last one first. -/
def entered (frames : List (Frame α)) : List α := frames.filterMap (·.node?)

@[simp]
theorem entered_some (a : α) (successors : List α) :
    entered (⟨some a, successors⟩ :: frames) = a :: entered frames := rfl

theorem Reached.step {a b : α} (reached : Reached next allowed roots a)
    (edge : Edge next allowed a b) : Reached next allowed roots b := by
  obtain ⟨root, isRoot, rootAllowed, path⟩ := reached
  exact ⟨root, isRoot, rootAllowed, path.tail edge⟩

/-! ## The state of a walk -/

/-- What holds all along a walk. -/
structure Walking (next : α → List α) (allowed : Std.ExtTreeSet α) (roots : List α)
    (unvisited : Std.ExtTreeSet α) (frames : List (Frame α)) (finished : List α) : Prop where
  distinct : (finished ++ entered frames).Nodup
  visited : ∀ a, a ∈ finished ++ entered frames ↔ a ∈ allowed ∧ a ∉ unvisited
  within : ∀ a ∈ unvisited, a ∈ allowed
  reached : ∀ a ∈ finished ++ entered frames, Reached next allowed roots a
  rooted : ∀ root ∈ roots, root ∈ unvisited → ∃ frame ∈ frames, root ∈ frame.successors
  sources : ∀ frame ∈ frames, ∀ b ∈ frame.successors,
    frame.node?.elim (b ∈ roots) (b ∈ next ·)
  pending : ∀ frame ∈ frames, ∀ a, frame.node? = some a → ∀ b ∈ next a, b ∈ unvisited →
    b ∈ frame.successors
  /-- Each entered node leads to all that were entered after it. -/
  chain : frames.Pairwise fun above below => ∀ b, below.node? = some b →
    ∃ a, above.node? = some a ∧ Leads next allowed b a
  closed : ∀ a ∈ finished, ∀ b ∈ next a, b ∉ unvisited
  ordered : FinishOrder next allowed finished

namespace Walking

theorem start : Walking next allowed roots allowed [⟨none, roots⟩] [] where
  distinct := by simp [entered]
  visited a := by simp [entered]
  within a inside := inside
  reached a member := by simp [entered] at member
  rooted root isRoot _ := ⟨_, List.mem_singleton.2 rfl, isRoot⟩
  sources frame member b successor := by
    cases List.mem_singleton.1 member
    exact successor
  pending frame member a node := by
    cases List.mem_singleton.1 member
    cases node
  chain := List.pairwise_singleton ..
  closed a member := by simp at member
  ordered := trivial

section Child

variable {node? : Option α} {child : α} {successors : List α}

theorem entered_drop : entered (⟨node?, successors⟩ :: frames) =
    entered (⟨node?, child :: successors⟩ :: frames) := by cases node? <;> rfl

variable (walking : Walking next allowed roots unvisited (⟨node?, child :: successors⟩ :: frames)
  finished)

include walking

/-- Without the child, the frames still hold every other root that is not visited. -/
theorem rooted_drop {root : α} (isRoot : root ∈ roots) (unseen : root ∈ unvisited)
    (other : root ≠ child) : ∃ frame ∈ ⟨node?, successors⟩ :: frames, root ∈ frame.successors := by
  obtain ⟨frame, member, successor⟩ := walking.rooted root isRoot unseen
  rcases List.mem_cons.1 member with rfl | member
  · have later := (List.mem_cons.1 successor).resolve_left other
    exact ⟨_, List.mem_cons_self, later⟩
  · exact ⟨frame, List.mem_cons_of_mem _ member, successor⟩

theorem sources_drop : ∀ frame ∈ ⟨node?, successors⟩ :: frames, ∀ b ∈ frame.successors,
    frame.node?.elim (b ∈ roots) (b ∈ next ·) := by
  intro frame member b successor
  rcases List.mem_cons.1 member with rfl | member
  · exact walking.sources _ List.mem_cons_self b (List.mem_cons_of_mem _ successor)
  · exact walking.sources frame (List.mem_cons_of_mem _ member) b successor

/-- Without the child, each frame still holds every other successor that is not visited. -/
theorem pending_drop {frame : Frame α} {a b : α} (member : frame ∈ ⟨node?, successors⟩ :: frames)
    (node : frame.node? = some a) (edge : b ∈ next a) (unseen : b ∈ unvisited) (other : b ≠ child) :
    b ∈ frame.successors := by
  rcases List.mem_cons.1 member with rfl | member
  · have waiting := walking.pending _ List.mem_cons_self a node b edge unseen
    exact (List.mem_cons.1 waiting).resolve_left other
  · exact walking.pending frame (List.mem_cons_of_mem _ member) a node b edge unseen

theorem skip (visitedBefore : child ∉ unvisited) :
    Walking next allowed roots unvisited (⟨node?, successors⟩ :: frames) finished := by
  have sameNodes : entered (⟨node?, successors⟩ :: frames) =
      entered (⟨node?, child :: successors⟩ :: frames) := entered_drop
  have other {b : α} (unseen : b ∈ unvisited) : b ≠ child := by
    rintro rfl
    exact visitedBefore unseen
  refine ⟨?distinct, ?visited, walking.within, ?reached, ?rooted, walking.sources_drop, ?pending,
    ?chain, walking.closed, walking.ordered⟩
  case distinct => rw [sameNodes]; exact walking.distinct
  case visited => rw [sameNodes]; exact walking.visited
  case reached => rw [sameNodes]; exact walking.reached
  case rooted =>
    intro root isRoot unseen
    exact walking.rooted_drop isRoot unseen (other unseen)
  case pending =>
    intro frame member a node b edge unseen
    exact walking.pending_drop member node edge unseen (other unseen)
  case chain =>
    obtain ⟨head, tail⟩ := List.pairwise_cons.1 walking.chain
    exact List.pairwise_cons.2 ⟨head, tail⟩

theorem child_reached (unseen : child ∈ unvisited) : Reached next allowed roots child := by
  have source := walking.sources _ List.mem_cons_self child List.mem_cons_self
  have childAllowed := walking.within child unseen
  cases node? with
  | none => exact ⟨child, source, childAllowed, .refl⟩
  | some parent =>
    have parentReached := walking.reached parent (by simp)
    exact parentReached.step ⟨source, childAllowed⟩

theorem chain_enter (unseen : child ∈ unvisited) :
    (⟨some child, next child⟩ :: ⟨node?, successors⟩ :: frames).Pairwise fun above below =>
      ∀ b, below.node? = some b → ∃ a, above.node? = some a ∧ Leads next allowed b a := by
  obtain ⟨head, tail⟩ := List.pairwise_cons.1 walking.chain
  have source := walking.sources _ List.mem_cons_self child List.mem_cons_self
  have childAllowed := walking.within child unseen
  refine List.pairwise_cons.2 ⟨?_, List.pairwise_cons.2 ⟨head, tail⟩⟩
  -- The child is entered from the top of the stack, to which all below lead.
  intro below member b node
  refine ⟨child, rfl, ?_⟩
  rcases List.mem_cons.1 member with rfl | member
  · cases node
    exact .single ⟨source, childAllowed⟩
  · obtain ⟨parent, isParent, path⟩ := head below member b node
    cases isParent
    exact path.tail ⟨source, childAllowed⟩

theorem enter (unseen : child ∈ unvisited) :
    Walking next allowed roots (unvisited.erase child)
      (⟨some child, next child⟩ :: ⟨node?, successors⟩ :: frames) finished := by
  have sameNodes : entered (⟨node?, successors⟩ :: frames) =
      entered (⟨node?, child :: successors⟩ :: frames) := entered_drop
  have childAllowed := walking.within child unseen
  have fresh : child ∉ finished ++ entered (⟨node?, successors⟩ :: frames) := by
    rw [sameNodes, walking.visited]
    exact fun seen => seen.2 unseen
  have erased (b : α) : b ∈ unvisited.erase child ↔ b ≠ child ∧ b ∈ unvisited :=
    Collection.mem_erase
  refine ⟨?distinct, ?visited, ?within, ?reached, ?rooted, ?sources, ?pending,
    walking.chain_enter unseen, ?closed, walking.ordered⟩
  case distinct =>
    rw [entered_some]
    exact List.nodup_middle.2 (List.nodup_cons.2 ⟨fresh, sameNodes ▸ walking.distinct⟩)
  case visited =>
    intro a
    have before := walking.visited a
    rw [← sameNodes] at before
    simp only [entered_some, List.mem_append, List.mem_cons, erased] at before ⊢
    by_cases same : a = child
    · subst same; simp [childAllowed]
    · simp [same, before]
  case within =>
    intro a member
    exact walking.within a ((erased a).1 member).2
  case reached =>
    intro a member
    have before := walking.reached a
    rw [← sameNodes] at before
    simp only [entered_some, List.mem_append, List.mem_cons] at before member
    rcases member with member | rfl | member
    · exact before (.inl member)
    · exact walking.child_reached unseen
    · exact before (.inr member)
  case rooted =>
    -- No root is lost: the child itself is visited now, and any other one is still waiting somewhere.
    intro root isRoot member
    obtain ⟨different, before⟩ := (erased root).1 member
    obtain ⟨frame, inFrames, successor⟩ := walking.rooted_drop isRoot before different
    exact ⟨frame, List.mem_cons_of_mem _ inFrames, successor⟩
  case sources =>
    intro frame member b successor
    rcases List.mem_cons.1 member with rfl | member
    · exact successor
    · exact walking.sources_drop frame member b successor
  case pending =>
    intro frame member a node b edge stillUnseen
    obtain ⟨different, before⟩ := (erased b).1 stillUnseen
    rcases List.mem_cons.1 member with rfl | member
    · cases node; exact edge
    · exact walking.pending_drop member node edge before different
  case closed =>
    intro a member b edge stillUnseen
    exact walking.closed a member b edge ((erased b).1 stillUnseen).2

end Child

theorem finish {node? : Option α}
    (walking : Walking next allowed roots unvisited (⟨node?, []⟩ :: frames) finished) :
    Walking next allowed roots unvisited frames (node?.toList ++ finished) := by
  obtain ⟨head, tail⟩ := List.pairwise_cons.1 walking.chain
  have rooted : ∀ root ∈ roots, root ∈ unvisited → ∃ frame ∈ frames, root ∈ frame.successors := by
    intro root isRoot unseen
    obtain ⟨frame, member, successor⟩ := walking.rooted root isRoot unseen
    rcases List.mem_cons.1 member with rfl | member
    · simp at successor
    · exact ⟨frame, member, successor⟩
  have sources : ∀ frame ∈ frames, ∀ b ∈ frame.successors,
      frame.node?.elim (b ∈ roots) (b ∈ next ·) :=
    fun frame member => walking.sources frame (List.mem_cons_of_mem _ member)
  have pending : ∀ frame ∈ frames, ∀ a, frame.node? = some a → ∀ b ∈ next a, b ∈ unvisited →
      b ∈ frame.successors :=
    fun frame member => walking.pending frame (List.mem_cons_of_mem _ member)
  cases node? with
  | none =>
    exact ⟨walking.distinct, walking.visited, walking.within, walking.reached, rooted, sources,
      pending, tail, walking.closed, walking.ordered⟩
  | some u =>
    have sameNodes : (finished ++ entered (⟨some u, []⟩ :: frames)).Perm
        ([u] ++ finished ++ entered frames) := by
      simp
    -- A node is finished when none of its successors is left, so each of them has been visited.
    have closed : ∀ a ∈ u :: finished, ∀ b ∈ next a, b ∉ unvisited := by
      intro a member b edge unseen
      rcases List.mem_cons.1 member with rfl | member
      · simpa using walking.pending _ List.mem_cons_self a rfl b edge unseen
      · exact walking.closed a member b edge unseen
    refine ⟨sameNodes.nodup_iff.1 walking.distinct, fun a => ?_, walking.within, fun a member => ?_,
      rooted, sources, pending, tail, closed, ?_, walking.ordered⟩
    · exact sameNodes.mem_iff.symm.trans (walking.visited a)
    · exact walking.reached a (sameNodes.mem_iff.2 member)
    · intro a member b edge
      have visited := (walking.visited b).2 ⟨edge.2, closed a member b edge.1⟩
      simp only [entered_some, List.mem_append, List.mem_cons] at visited ⊢
      rcases visited with older | same | entered
      · exact .inl (.inr older)
      · exact .inl (.inl same)
      · -- What is still entered lies below `u` on the stack, so it leads to `u`.
        obtain ⟨frame, member, node⟩ := List.mem_filterMap.1 entered
        obtain ⟨_, same, path⟩ := head frame member b node
        cases same
        exact .inr path

theorem walk (walking : Walking next allowed roots unvisited frames finished) :
    Walking next allowed roots (walk next unvisited frames finished).1 []
      (Graph.walk next unvisited frames finished).2 := by
  fun_induction Graph.walk next unvisited frames finished with
  | case1 unvisited finished => exact walking
  | case2 unvisited finished node? frames ih => exact ih walking.finish
  | case3 unvisited finished node? child successors frames unseen ih => exact ih (walking.enter unseen)
  | case4 unvisited finished node? child successors frames seen ih => exact ih (walking.skip seen)

end Walking

theorem walkFrom_walking (next : α → List α) (allowed : Std.ExtTreeSet α) (roots : List α) :
    Walking next allowed roots (walkFrom next allowed roots).1 []
      (finishOrder next allowed roots) :=
  Walking.start.walk

/-! ## The order of finishing -/

theorem mem_finishOrder {a : α} :
    a ∈ finishOrder next allowed roots ↔ Reached next allowed roots a := by
  have walking := walkFrom_walking next allowed roots
  constructor
  · intro member
    exact walking.reached a (by simpa [entered] using member)
  · rintro ⟨root, isRoot, rootAllowed, path⟩
    have seen {b : α} (isAllowed : b ∈ allowed) (visited : b ∉ (walkFrom next allowed roots).1) :
        b ∈ finishOrder next allowed roots := by
      simpa [entered] using (walking.visited b).2 ⟨isAllowed, visited⟩
    -- The finished nodes are closed under edges, so a path from a root stays among them.
    induction path with
    | refl =>
      refine seen rootAllowed fun unseen => ?_
      obtain ⟨frame, member, -⟩ := walking.rooted root isRoot unseen
      simp at member
    | tail _ edge ih => exact seen edge.2 (walking.closed _ ih _ edge.1)

theorem nodup_finishOrder (next : α → List α) (allowed : Std.ExtTreeSet α) (roots : List α) :
    (finishOrder next allowed roots).Nodup := by
  simpa [entered] using (walkFrom_walking next allowed roots).distinct

theorem finishOrder_isOrder (next : α → List α) (allowed : Std.ExtTreeSet α) (roots : List α) :
    FinishOrder next allowed (finishOrder next allowed roots) :=
  (walkFrom_walking next allowed roots).ordered

namespace FinishOrder

theorem drop {newer : List α} (ordered : FinishOrder next allowed (newer ++ order)) :
    FinishOrder next allowed order := by
  induction newer with
  | nil => exact ordered
  | cons _ _ ih => exact ih ordered.2

/-- The end of an edge finished before its start, if it does not lead back there. -/
theorem sublist_of_edge (ordered : FinishOrder next allowed order) {u v : α} (member : u ∈ order)
    (edge : Edge next allowed u v) (away : ¬ Leads next allowed v u) : [u, v].Sublist order := by
  obtain ⟨newer, older, rfl⟩ := List.append_of_mem member
  have inEnd : v ∈ u :: older := (ordered.drop.1 u List.mem_cons_self v edge).resolve_right away
  have other : v ≠ u := by
    rintro rfl
    exact away .refl
  have before : v ∈ older := (List.mem_cons.1 inEnd).resolve_left other
  exact ((List.singleton_sublist.2 before).cons_cons u).trans (List.sublist_append_right newer _)

end FinishOrder

end PageCalc.Graph

import PageCalc.Graph.Search
import PageCalc.Proofs.Collection

/-!
# A search round by round

The nodes that can be reached from a node may also be found by a loop that remembers the nodes it has seen,
keeps with each node on its way the successors that are still to be followed, and takes them from the end.
It comes to an end, with what a walk finishes, in the order in which the walk finishes it.
-/

set_option linter.unusedSectionVars false

namespace PageCalc.Graph

open Collection

variable {α : Type} [Ord α] [Std.TransOrd α] [Std.LawfulEqOrd α] [DecidableEq α]

/-! ## The loop -/

/-- Where a search is. -/
structure Descent (α : Type) [Ord α] where
  /-- The nodes that are done, the first one first. -/
  order : List α
  seen : Std.ExtTreeSet α
  /-- The nodes on the way from the start, the last one first, with their successors that are left. -/
  work : List (α × List α)

namespace Descent

/-- The search for what a node leads to, before its first round. -/
def begin (next : α → List α) (start : α) : Descent α :=
  ⟨[], (∅ : Std.ExtTreeSet α).insert start, [(start, next start)]⟩

/-- One round, which follows one successor of the last node on the way or is done with that node. The start is
not among what is found. -/
def round (next : α → List α) (start : α) (d : Descent α) : Descent α :=
  match d.work with
  | [] => d
  | (a, successors) :: work =>
    match successors.getLast? with
    | some child =>
      let work := (a, successors.dropLast) :: work
      if child ∈ d.seen then { d with work }
      else { d with seen := d.seen.insert child, work := (child, next child) :: work }
    | none => { d with order := if a = start then d.order else d.order ++ [a], work }

/-- Goes on until no node is left on the way, and gives up where more than `rounds` rounds would be needed. -/
def search (next : α → List α) (start : α) : (rounds : Nat) → Descent α → Option (List α)
  | 0, _ => none
  | rounds + 1, d => if d.work.isEmpty then some d.order else search next start rounds (d.round next start)

/-! ## Walks -/

variable {next : α → List α} {start : α} {allowed unvisited : Std.ExtTreeSet α} {frames : List (Frame α)}
variable {finished : List α} {d : Descent α}

/-- What a walk keeps on its stack for a node on the way. A walk starts from no node. -/
def frame (start : α) (entry : α × List α) : Frame α :=
  ⟨if entry.1 = start then none else some entry.1, entry.2.reverse⟩

/-- A search is where a walk is. The walk has not visited what the search has not seen. -/
structure Follows (start : α) (allowed : Std.ExtTreeSet α) (d : Descent α) (unvisited : Std.ExtTreeSet α)
    (frames : List (Frame α)) (finished : List α) : Prop where
  order : d.order = finished.reverse
  frames : frames = d.work.map (frame start)
  unseen : ∀ b, b ∈ unvisited ↔ b ∈ allowed ∧ b ∉ d.seen
  started : start ∈ d.seen
  within : ∀ entry ∈ d.work, ∀ b ∈ entry.2, b ∈ allowed ∨ b = start

theorem follows_begin (within : ∀ a, ∀ b ∈ next a, b ∈ allowed ∨ b = start) :
    Follows start allowed (begin next start) (allowed.erase start) [⟨none, (next start).reverse⟩] [] where
  order := rfl
  frames := by simp [begin, frame]
  unseen b := by
    rw [mem_erase, begin, mem_insert, and_comm]
    refine and_congr_right fun _ => not_congr ?_
    exact (or_iff_left Std.ExtTreeSet.not_mem_empty).symm
  started := mem_insert.2 (.inl rfl)
  within := List.forall_mem_singleton.2 (within start)

section Round

variable {node? : Option α} {child : α} {successors : List α}

theorem Follows.exists_work
    (follows : Follows start allowed d unvisited (⟨node?, successors⟩ :: frames) finished) :
    ∃ a work, d.work = (a, successors.reverse) :: work ∧ node? = (if a = start then none else some a) ∧
      frames = work.map (frame start) := by
  obtain ⟨⟨a, left⟩, work, isWork, isFrame, isFrames⟩ := List.map_eq_cons_iff.1 follows.frames.symm
  obtain ⟨isNode, isLeft⟩ := Frame.mk.inj isFrame
  refine ⟨a, work, ?_, isNode.symm, isFrames.symm⟩
  rw [isWork, ← isLeft, List.reverse_reverse]

/-- A node that has no successor left is done. -/
theorem Follows.finish (follows : Follows start allowed d unvisited (⟨node?, []⟩ :: frames) finished) :
    Follows start allowed (d.round next start) unvisited frames (node?.toList ++ finished) := by
  obtain ⟨a, work, isWork, isNode, isFrames⟩ := follows.exists_work
  have isRound : d.round next start =
      { d with order := if a = start then d.order else d.order ++ [a], work := work } := by
    rw [round, isWork]
    rfl
  rw [isRound]
  refine ⟨?order, isFrames, follows.unseen, follows.started, fun entry member =>
    follows.within entry (isWork ▸ List.mem_cons_of_mem _ member)⟩
  case order =>
    rw [follows.order, isNode]
    by_cases isStart : a = start <;> simp [isStart]

variable (follows : Follows start allowed d unvisited (⟨node?, child :: successors⟩ :: frames) finished)

include follows

theorem Follows.child_within : child ∈ allowed ∨ child = start := by
  obtain ⟨a, work, isWork, -, -⟩ := follows.exists_work
  have inWork : (a, (child :: successors).reverse) ∈ d.work := isWork ▸ List.mem_cons_self
  exact follows.within _ inWork child (List.mem_reverse.2 List.mem_cons_self)

theorem Follows.mem_seen_iff : child ∈ d.seen ↔ child ∉ unvisited := by
  rw [follows.unseen, not_and, Decidable.not_not]
  refine ⟨fun seen _ => seen, fun onlySeen => ?_⟩
  rcases follows.child_within with isAllowed | rfl
  · exact onlySeen isAllowed
  · exact follows.started

/-- A successor is taken off the end of those that are left. -/
theorem Follows.exists_round (next : α → List α) :
    ∃ a work, d.work = (a, successors.reverse ++ [child]) :: work ∧
    (⟨node?, successors⟩ :: frames : List (Frame α)) = ((a, successors.reverse) :: work).map (frame start) ∧
    d.round next start = if child ∈ d.seen then { d with work := (a, successors.reverse) :: work }
      else { d with seen := d.seen.insert child,
                    work := (child, next child) :: (a, successors.reverse) :: work } := by
  obtain ⟨a, work, isWork, isNode, isFrames⟩ := follows.exists_work
  rw [List.reverse_cons] at isWork
  refine ⟨a, work, isWork, ?_, ?_⟩
  · rw [List.map_cons, frame, List.reverse_reverse, isNode, isFrames]
  · rw [round, isWork]
    simp

/-- What has been seen before is passed over. -/
theorem Follows.skip (passed : child ∉ unvisited) :
    Follows start allowed (d.round next start) unvisited (⟨node?, successors⟩ :: frames) finished := by
  obtain ⟨a, work, isWork, isFrames, isRound⟩ := follows.exists_round next
  rw [isRound, if_pos (follows.mem_seen_iff.2 passed)]
  refine ⟨follows.order, isFrames, follows.unseen, follows.started, List.forall_mem_cons.2 ⟨?_, ?_⟩⟩
  · have before := follows.within (a, successors.reverse ++ [child]) (isWork ▸ List.mem_cons_self)
    exact fun b member => before b (List.mem_append_left _ member)
  · exact fun entry member => follows.within entry (isWork ▸ List.mem_cons_of_mem _ member)

theorem Follows.enter (within : ∀ a, ∀ b ∈ next a, b ∈ allowed ∨ b = start) (entered : child ∈ unvisited) :
    Follows start allowed (d.round next start) (unvisited.erase child)
      (⟨some child, (next child).reverse⟩ :: ⟨node?, successors⟩ :: frames) finished := by
  obtain ⟨a, work, isWork, isFrames, isRound⟩ := follows.exists_round next
  have unseen : child ∉ d.seen := fun seen => follows.mem_seen_iff.1 seen entered
  have other : child ≠ start := fun same => unseen (same ▸ follows.started)
  rw [isRound, if_neg unseen]
  refine ⟨follows.order, ?frames, ?unseen, mem_insert.2 (.inr follows.started), ?within⟩
  case frames => rw [List.map_cons, ← isFrames, frame, if_neg other]
  case unseen =>
    intro b
    rw [mem_erase, mem_insert, follows.unseen, not_or]
    exact and_left_comm
  case within =>
    refine List.forall_mem_cons.2 ⟨within child, List.forall_mem_cons.2 ⟨?_, ?_⟩⟩
    · have before := follows.within (a, successors.reverse ++ [child]) (isWork ▸ List.mem_cons_self)
      exact fun b member => before b (List.mem_append_left _ member)
    · exact fun entry member => follows.within entry (isWork ▸ List.mem_cons_of_mem _ member)

end Round

/-- A search that comes to an end after a round has come to an end. -/
theorem search_of_round {order : List α} (busy : d.work ≠ [])
    (ends : ∃ rounds, ∀ spare, search next start (rounds + spare) (d.round next start) = some order) :
    ∃ rounds, ∀ spare, search next start (rounds + spare) d = some order := by
  obtain ⟨rounds, ends⟩ := ends
  refine ⟨rounds + 1, fun spare => ?_⟩
  rw [Nat.add_right_comm, search, List.isEmpty_eq_false_iff.2 busy]
  exact ends spare

theorem Follows.busy {frame : Frame α}
    (follows : Follows start allowed d unvisited (frame :: frames) finished) : d.work ≠ [] := by
  obtain ⟨a, work, isWork, -, -⟩ := follows.exists_work
  rw [isWork]
  exact List.cons_ne_nil _ _

/-- A search that is where a walk is comes to an end, with what the walk has finished then. -/
theorem search_of_follows (within : ∀ a, ∀ b ∈ next a, b ∈ allowed ∨ b = start)
    (follows : Follows start allowed d unvisited frames finished) :
    ∃ rounds, ∀ spare, search next start (rounds + spare) d =
      some (walk (fun a => (next a).reverse) unvisited frames finished).2.reverse := by
  induction unvisited, frames, finished using walk.induct (fun a => (next a).reverse) generalizing d with
  | case1 unvisited finished =>
    have idle : d.work = [] := List.map_eq_nil_iff.1 follows.frames.symm
    refine ⟨1, fun spare => ?_⟩
    rw [walk, Nat.add_comm, search, idle, ← follows.order]
    rfl
  | case2 unvisited finished node? frames ih =>
    rw [walk]
    exact search_of_round follows.busy (ih follows.finish)
  | case3 unvisited finished node? child successors frames entered ih =>
    rw [walk, if_pos entered]
    exact search_of_round follows.busy (ih (follows.enter within entered))
  | case4 unvisited finished node? child successors frames passed ih =>
    rw [walk, if_neg passed]
    exact search_of_round follows.busy (ih (follows.skip passed))

/-- The search finds what a walk from the successors of its start finishes without it, the first one first. -/
theorem search_begin (within : ∀ a, ∀ b ∈ next a, b ∈ allowed ∨ b = start) :
    ∃ rounds, ∀ spare, search next start (rounds + spare) (begin next start) =
      some (finishOrder (fun a => (next a).reverse) (allowed.erase start) (next start).reverse).reverse :=
  search_of_follows within (follows_begin within)

end Descent
end PageCalc.Graph

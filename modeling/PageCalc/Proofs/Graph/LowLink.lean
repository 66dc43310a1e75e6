import Mathlib.Data.List.Pairwise
import Mathlib.Order.Lattice
import PageCalc.Proofs.Graph.Component

/-!
# Low numbers

What the search for cycles knows of the nodes of unfinished parts. Each node on the way to where the
search is leads to all nodes entered after it, and each node of an unfinished part leads back to the
way. The low number of a node on the way bounds the numbers that edges lead to from there on, so a
node whose low number is its own is left by no edge to an earlier node: from it on, the stack holds
one class of nodes that lead to each other.
-/

set_option linter.unusedSectionVars false

open scoped Classical

namespace PageCalc.Graph

variable {α : Type} [Ord α] [Std.TransOrd α] [Std.LawfulEqOrd α]

/-! ## Colours -/

namespace Colours

variable {colours : Colours α} {a b : α} {value i l : Nat} {colour : Colour} {component : List α}

/-- The number as which a node of an unfinished part was entered. -/
def index (colours : Colours α) (a : α) : Nat :=
  match colours[a]? with
  | some (.gray index _) => index
  | _ => 0

/-- The least number that a node of an unfinished part is known to lead to. -/
def low (colours : Colours α) (a : α) : Nat :=
  match colours[a]? with
  | some (.gray _ low) => low
  | _ => 0

def Unfinished (colours : Colours α) (a : α) : Prop :=
  colours[a]? = some (.gray (colours.index a) (colours.low a))

def Finished (colours : Colours α) (a : α) : Prop := colours[a]? = some .black

theorem index_of_known (known : colours[a]? = some (.gray i l)) : colours.index a = i := by
  rw [index, known]

theorem low_of_known (known : colours[a]? = some (.gray i l)) : colours.low a = l := by
  rw [low, known]

theorem unfinished_of_known (known : colours[a]? = some (.gray i l)) : colours.Unfinished a := by
  rw [Unfinished, index_of_known known, low_of_known known, known]

theorem Unfinished.mem (unfinished : colours.Unfinished a) : a ∈ colours :=
  Collection.mem_of_known unfinished

theorem Finished.mem (finished : colours.Finished a) : a ∈ colours := Collection.mem_of_known finished

theorem unfinished_or_finished (member : a ∈ colours) : colours.Unfinished a ∨ colours.Finished a := by
  obtain ⟨colour, known⟩ := Collection.mem_iff_exists.1 member
  cases colour with
  | gray i l => exact .inl (unfinished_of_known known)
  | black => exact .inr known

theorem Unfinished.not_finished (unfinished : colours.Unfinished a) : ¬ colours.Finished a := by
  intro finished
  rw [Unfinished, finished] at unfinished
  cases unfinished

theorem getElem?_insert : (colours.insert a colour)[b]? = if b = a then some colour else colours[b]? := by
  simp only [Std.ExtTreeMap.getElem?_insert, Std.LawfulEqCmp.compare_eq_iff_eq, @eq_comm α a b]

/-! ### A node that is entered -/

theorem index_insert : index (colours.insert a (.gray i l)) b = if b = a then i else colours.index b := by
  unfold index
  rw [getElem?_insert]
  by_cases same : b = a
  · simp only [same, if_true]
  · simp only [same, if_false]

theorem low_insert : low (colours.insert a (.gray i l)) b = if b = a then l else colours.low b := by
  unfold low
  rw [getElem?_insert]
  by_cases same : b = a
  · simp only [same, if_true]
  · simp only [same, if_false]

theorem unfinished_insert :
    Unfinished (colours.insert a (.gray i l)) b ↔ b = a ∨ colours.Unfinished b := by
  unfold Unfinished
  rw [getElem?_insert, index_insert, low_insert]
  by_cases same : b = a
  · simp [same]
  · simp [same]

theorem finished_insert :
    Finished (colours.insert a (.gray i l)) b ↔ b ≠ a ∧ colours.Finished b := by
  unfold Finished
  rw [getElem?_insert]
  by_cases same : b = a
  · simp [same]
  · simp [same]

/-! ### A low number that is lowered -/

theorem lower_eq (unfinished : colours.Unfinished a) :
    colours.lower a value = colours.insert a (.gray (colours.index a) (min (colours.low a) value)) := by
  rw [lower, unfinished]

theorem index_lower (unfinished : colours.Unfinished a) :
    (colours.lower a value).index b = colours.index b := by
  rw [lower_eq unfinished, index_insert]
  split
  · next same => rw [same]
  · rfl

theorem low_lower (unfinished : colours.Unfinished a) :
    (colours.lower a value).low b = if b = a then min (colours.low a) value else colours.low b := by
  rw [lower_eq unfinished, low_insert]

theorem unfinished_lower (unfinished : colours.Unfinished a) :
    (colours.lower a value).Unfinished b ↔ colours.Unfinished b := by
  rw [lower_eq unfinished, unfinished_insert, or_iff_right_iff_imp]
  rintro rfl
  exact unfinished

theorem finished_lower (unfinished : colours.Unfinished a) :
    (colours.lower a value).Finished b ↔ colours.Finished b := by
  rw [lower_eq unfinished, finished_insert, and_iff_right_iff_imp]
  rintro finished rfl
  exact unfinished.not_finished finished

theorem lower_of_le (unfinished : colours.Unfinished a) (less : colours.low a ≤ value) :
    colours.lower a value = colours := by
  rw [lower_eq unfinished, Nat.min_eq_left less]
  refine Std.ExtTreeMap.ext_getElem? fun b => ?_
  rw [getElem?_insert]
  split
  · next same => rw [same, unfinished]
  · rfl

/-! ### A part that is finished -/

theorem getElem?_blacken :
    (colours.blacken component)[b]? = if b ∈ component then some .black else colours[b]? := by
  unfold blacken
  induction component generalizing colours with
  | nil => simp
  | cons a component ih =>
    rw [List.foldl_cons, ih, getElem?_insert]
    by_cases later : b ∈ component
    · simp [later]
    · by_cases same : b = a
      · simp [same]
      · simp [later, same]

theorem mem_blacken : b ∈ colours.blacken component ↔ b ∈ component ∨ b ∈ colours := by
  simp only [Std.ExtTreeMap.mem_iff_isSome_getElem?, getElem?_blacken]
  by_cases inside : b ∈ component
  · simp [inside]
  · simp [inside]

theorem index_blacken (outside : b ∉ component) : (colours.blacken component).index b = colours.index b := by
  rw [index, index, getElem?_blacken, if_neg outside]

theorem low_blacken (outside : b ∉ component) : (colours.blacken component).low b = colours.low b := by
  rw [low, low, getElem?_blacken, if_neg outside]

theorem finished_blacken : (colours.blacken component).Finished b ↔ b ∈ component ∨ colours.Finished b := by
  unfold Finished
  rw [getElem?_blacken]
  by_cases inside : b ∈ component
  · simp [inside]
  · simp [inside]

theorem unfinished_blacken :
    (colours.blacken component).Unfinished b ↔ b ∉ component ∧ colours.Unfinished b := by
  by_cases inside : b ∈ component
  · have finished : (colours.blacken component).Finished b := finished_blacken.2 (.inl inside)
    exact iff_of_false (fun unfinished => unfinished.not_finished finished) fun both => both.1 inside
  · unfold Unfinished
    rw [getElem?_blacken, if_neg inside, index_blacken inside, low_blacken inside]
    exact (and_iff_right inside).symm

end Colours

/-! ## The way and the stack -/

/-- What holds of the nodes of unfinished parts, which are on the stack, of those among them that are
on the way to where the search is, and of the edges that were explored. -/
structure Linked (g : Digraph α) (explored : α → α → Prop) (colours : Colours α) (stack way : List α) :
    Prop where
  stacked : ∀ a, a ∈ stack ↔ colours.Unfinished a
  falling : stack.Pairwise fun a b => colours.index b < colours.index a
  onStack : ∀ a ∈ way, a ∈ stack
  falling_way : way.Pairwise fun a b => colours.index b < colours.index a
  /-- A node on the way leads to all that were entered after it. -/
  ahead : ∀ a ∈ way, ∀ b ∈ stack, colours.index a ≤ colours.index b → g.Path a b
  /-- A node of an unfinished part leads back to the way. -/
  home : ∀ b ∈ stack, ∃ a ∈ way, colours.index a ≤ colours.index b ∧ g.Path b a
  low_le : ∀ a ∈ way, colours.low a ≤ colours.index a
  low_reached : ∀ a ∈ way, ∃ b ∈ stack, colours.index b = colours.low a ∧ g.Path a b
  /-- From a node of the way to the next one, no edge leads below the low number of the first. -/
  low_least : ∀ a ∈ way, ∀ b ∈ stack, colours.index a ≤ colours.index b →
    ∀ c ∈ stack, explored b c → colours.low a ≤ colours.index c ∨
      ∃ d ∈ way, colours.index a < colours.index d ∧ colours.index d ≤ colours.index b
  entered : ∀ a b, explored a b → b ∈ colours
  closed : ∀ a, colours.Finished a → ∀ b ∈ g.next a, colours.Finished b

namespace Linked

variable {g : Digraph α} {explored explored' : α → α → Prop} {colours : Colours α}
variable {stack way rest : List α} {a b c : α} {n : Nat}

theorem start (noEdge : ∀ a b, ¬ explored a b) : Linked g explored ∅ [] [] where
  stacked a := by simp [Colours.Unfinished]
  falling := .nil
  onStack a member := by cases member
  falling_way := .nil
  ahead a member := by cases member
  home a member := by cases member
  low_le a member := by cases member
  low_reached a member := by cases member
  low_least a member := by cases member
  entered a b edge := absurd edge (noEdge a b)
  closed a finished := by simp [Colours.Finished] at finished

section

variable (linked : Linked g explored colours stack way)

include linked

theorem unfinished (onWay : a ∈ way) : colours.Unfinished a :=
  (linked.stacked a).1 (linked.onStack a onWay)

/-- The numbers of two nodes of unfinished parts differ. -/
theorem eq_of_index (memberA : a ∈ stack) (memberB : b ∈ stack)
    (same : colours.index a = colours.index b) : a = b := by
  have apart : stack.Pairwise fun c d => colours.index c ≠ colours.index d :=
    linked.falling.imp fun below => Nat.ne_of_gt below
  by_contra different
  have : Std.Symm fun c d => colours.index c ≠ colours.index d := ⟨fun _ _ => Ne.symm⟩
  exact apart.forall memberA memberB different same

theorem finished_of_path (finished : colours.Finished a) (path : g.Path a b) : colours.Finished b := by
  induction path with
  | refl => exact finished
  | tail _ edge ih => exact linked.closed _ ih _ edge

/-- The end of the way was entered last. -/
theorem index_lt (isWay : way = a :: rest) (earlier : b ∈ rest) : colours.index b < colours.index a :=
  (List.pairwise_cons.1 (isWay ▸ linked.falling_way)).1 b earlier

/-! ### Edges that are explored -/

/-- More edges may be explored if they lead to finished nodes, or to nodes of unfinished parts that the
low numbers take account of. -/
theorem explore (more : ∀ b c, explored' b c → explored b c ∨ colours.Finished c ∨
      c ∈ stack ∧ b ∈ way ∧ colours.low b ≤ colours.index c) :
    Linked g explored' colours stack way where
  stacked := linked.stacked
  falling := linked.falling
  onStack := linked.onStack
  falling_way := linked.falling_way
  ahead := linked.ahead
  home := linked.home
  low_le := linked.low_le
  low_reached := linked.low_reached
  closed := linked.closed
  entered b c edge := by
    rcases more b c edge with before | finished | ⟨member, -, -⟩
    · exact linked.entered b c before
    · exact finished.mem
    · exact ((linked.stacked c).1 member).mem
  low_least a onWay b memberB order c memberC edge := by
    rcases more b c edge with before | finished | ⟨-, ownWay, least⟩
    · exact linked.low_least a onWay b memberB order c memberC before
    · exact absurd finished ((linked.stacked c).1 memberC).not_finished
    -- The edge starts on the way, either from `a` itself or further on.
    · by_cases same : a = b
      · exact .inl (same ▸ least)
      · refine .inr ⟨b, ownWay, ?_, le_rfl⟩
        have different := mt (linked.eq_of_index (linked.onStack _ onWay) memberB) same
        omega

/-- A low number may be lowered to that of a node which is led to. -/
theorem lower (onWay : a ∈ way) (memberB : b ∈ stack) (path : g.Path a b) :
    Linked g explored (colours.lower a (colours.index b)) stack way := by
  have unfinished := linked.unfinished onWay
  have below (c : α) : (colours.lower a (colours.index b)).low c ≤ colours.low c := by
    rw [Colours.low_lower unfinished]
    split
    · next same => exact same ▸ Nat.min_le_left ..
    · exact le_rfl
  constructor
  case stacked => simpa only [Colours.unfinished_lower unfinished] using linked.stacked
  case falling => simpa only [Colours.index_lower unfinished] using linked.falling
  case onStack => exact linked.onStack
  case falling_way => simpa only [Colours.index_lower unfinished] using linked.falling_way
  case ahead => simpa only [Colours.index_lower unfinished] using linked.ahead
  case home => simpa only [Colours.index_lower unfinished] using linked.home
  case closed => simpa only [Colours.finished_lower unfinished] using linked.closed
  case entered => exact fun b c edge => CycleSearch.mem_lower.2 (linked.entered b c edge)
  case low_le =>
    intro c member
    rw [Colours.index_lower unfinished]
    exact (below c).trans (linked.low_le c member)
  case low_reached =>
    intro c member
    simp only [Colours.index_lower unfinished, Colours.low_lower unfinished]
    by_cases same : c = a
    · subst same
      rw [if_pos rfl]
      rcases Nat.le_total (colours.low c) (colours.index b) with less | less
      · rw [Nat.min_eq_left less]
        exact linked.low_reached c member
      · rw [Nat.min_eq_right less]
        exact ⟨b, memberB, rfl, path⟩
    · rw [if_neg same]
      exact linked.low_reached c member
  case low_least =>
    simp only [Colours.index_lower unfinished]
    intro c ownWay d memberD order e memberE edge
    rcases linked.low_least c ownWay d memberD order e memberE edge with least | further
    · exact .inl ((below c).trans least)
    · exact .inr further

/-- A node is entered that all nodes on the way lead to. -/
theorem enter (fresh : a ∉ colours) (counted : ∀ b ∈ stack, colours.index b < n)
    (leads : ∀ b ∈ way, g.Path b a) (more : ∀ b c, explored' b c → b ≠ a ∧ (explored b c ∨ c = a)) :
    Linked g explored' (colours.insert a (.gray n n)) (a :: stack) (a :: way) := by
  have others {b : α} (member : b ∈ stack) : b ≠ a := by
    rintro rfl
    exact fresh ((linked.stacked b).1 member).mem
  have index_old {b : α} (member : b ∈ stack) : Colours.index (colours.insert a (.gray n n)) b = colours.index b := by
    rw [Colours.index_insert, if_neg (others member)]
  have low_old {b : α} (onWay : b ∈ way) : Colours.low (colours.insert a (.gray n n)) b = colours.low b := by
    rw [Colours.low_insert, if_neg (others (linked.onStack _ onWay))]
  have index_new : Colours.index (colours.insert a (.gray n n)) a = n := by rw [Colours.index_insert, if_pos rfl]
  have low_new : Colours.low (colours.insert a (.gray n n)) a = n := by rw [Colours.low_insert, if_pos rfl]
  constructor
  case stacked =>
    intro b
    rw [List.mem_cons, linked.stacked, Colours.unfinished_insert]
  case falling =>
    refine List.pairwise_cons.2 ⟨fun b member => ?_, linked.falling.imp_of_mem fun memberB memberC order => ?_⟩
    · rw [index_old member, index_new]
      exact counted b member
    · rwa [index_old memberB, index_old memberC]
  case onStack =>
    intro b onWay
    rcases List.mem_cons.1 onWay with rfl | earlier
    · exact List.mem_cons_self
    · exact List.mem_cons_of_mem _ (linked.onStack b earlier)
  case falling_way =>
    refine List.pairwise_cons.2 ⟨fun b onWay => ?_, linked.falling_way.imp_of_mem fun onWayB onWayC order => ?_⟩
    · rw [index_old (linked.onStack b onWay), index_new]
      exact counted b (linked.onStack b onWay)
    · rwa [index_old (linked.onStack _ onWayB), index_old (linked.onStack _ onWayC)]
  case ahead =>
    intro b onWay c member order
    rcases List.mem_cons.1 onWay with rfl | earlier
    · rcases List.mem_cons.1 member with rfl | known
      · exact .refl
      · rw [index_new, index_old known] at order
        exact absurd (counted c known) (Nat.not_lt.2 order)
    · rcases List.mem_cons.1 member with rfl | known
      · exact leads b earlier
      · rw [index_old (linked.onStack _ earlier), index_old known] at order
        exact linked.ahead b earlier c known order
  case home =>
    intro b member
    rcases List.mem_cons.1 member with rfl | member
    · exact ⟨b, List.mem_cons_self, le_rfl, .refl⟩
    · obtain ⟨c, onWay, order, path⟩ := linked.home b member
      refine ⟨c, List.mem_cons_of_mem _ onWay, ?_, path⟩
      rwa [index_old (linked.onStack _ onWay), index_old member]
  case low_le =>
    intro b onWay
    rcases List.mem_cons.1 onWay with rfl | onWay
    · rw [low_new, index_new]
    · rw [low_old onWay, index_old (linked.onStack _ onWay)]
      exact linked.low_le b onWay
  case low_reached =>
    intro b onWay
    rcases List.mem_cons.1 onWay with rfl | onWay
    · exact ⟨b, List.mem_cons_self, by rw [low_new, index_new], .refl⟩
    · obtain ⟨c, member, same, path⟩ := linked.low_reached b onWay
      exact ⟨c, List.mem_cons_of_mem _ member, by rw [low_old onWay, index_old member, same], path⟩
  case low_least =>
    intro b onWay c memberC order d memberD edge
    obtain ⟨other, edge⟩ := more c d edge
    have knownC := (List.mem_cons.1 memberC).resolve_left other
    rw [index_old knownC] at order ⊢
    rcases List.mem_cons.1 onWay with rfl | earlier
    · rw [index_new] at order
      exact absurd (counted c knownC) (Nat.not_lt.2 order)
    · have onStack := linked.onStack _ earlier
      rw [index_old onStack] at order ⊢
      rw [low_old earlier]
      rcases List.mem_cons.1 memberD with rfl | knownD
      -- No low number exceeds the number of the new node.
      · have := linked.low_le b earlier
        have := counted b onStack
        exact .inl (by omega)
      · have known := edge.resolve_right (others knownD)
        rcases linked.low_least b earlier c knownC order d knownD known with least | ⟨e, onWayE, after, before⟩
        · exact .inl (by rwa [index_old knownD])
        · have same := index_old (linked.onStack _ onWayE)
          exact .inr ⟨e, List.mem_cons_of_mem _ onWayE, same ▸ after, same ▸ before⟩
  case entered =>
    intro b c edge
    rw [Std.ExtTreeMap.mem_insert, Std.LawfulEqCmp.compare_eq_iff_eq, eq_comm]
    rcases (more b c edge).2 with known | same
    · exact .inr (linked.entered b c known)
    · exact .inl same
  case closed =>
    intro b finished c edge
    rw [Colours.finished_insert] at finished ⊢
    have finishedC := linked.closed b finished.2 c edge
    refine ⟨?_, finishedC⟩
    rintro rfl
    exact fresh finishedC.mem

/-- The way goes back by a node that leads below itself, if its low number has been passed on. -/
theorem leave (isWay : way = a :: rest) (inner : colours.low a ≠ colours.index a)
    (passed : ∀ b ∈ rest.head?, colours.low b ≤ colours.low a) : Linked g explored colours stack rest := by
  have kept {b : α} (later : b ∈ rest) : b ∈ way := isWay ▸ List.mem_cons_of_mem _ later
  have onWay : a ∈ way := isWay ▸ List.mem_cons_self
  have below : colours.low a < colours.index a := lt_of_le_of_ne (linked.low_le a onWay) inner
  constructor
  case stacked => exact linked.stacked
  case falling => exact linked.falling
  case onStack => exact fun b later => linked.onStack b (kept later)
  case falling_way => exact (List.pairwise_cons.1 (isWay ▸ linked.falling_way)).2
  case ahead => exact fun b later => linked.ahead b (kept later)
  case low_le => exact fun b later => linked.low_le b (kept later)
  case low_reached => exact fun b later => linked.low_reached b (kept later)
  case entered => exact linked.entered
  case closed => exact linked.closed
  case home =>
    intro b member
    obtain ⟨c, onWayC, order, path⟩ := linked.home b member
    rcases List.mem_cons.1 (isWay ▸ onWayC) with rfl | later
    -- From `c` on it goes below `c`, and from there back to an earlier node of the way.
    · obtain ⟨d, memberD, same, pathD⟩ := linked.low_reached c onWay
      obtain ⟨e, onWayE, orderE, pathE⟩ := linked.home d memberD
      refine ⟨e, ?_, by omega, path.trans (pathD.trans pathE)⟩
      refine (List.mem_cons.1 (isWay ▸ onWayE)).resolve_left ?_
      rintro rfl
      omega
    · exact ⟨c, later, order, path⟩
  case low_least =>
    intro b later c memberC order d memberD edge
    rcases linked.low_least b (kept later) c memberC order d memberD edge with least | ⟨e, onWayE, after, before⟩
    · exact .inl least
    · rcases List.mem_cons.1 (isWay ▸ onWayE) with rfl | laterE
      -- What belonged to the node that is left belongs to the one before it.
      · cases rest with
        | nil => cases later
        | cons parent rest =>
          have parentBefore := linked.index_lt isWay List.mem_cons_self
          rcases List.mem_cons.1 later with rfl | earlier
          · rcases linked.low_least e onWay c memberC before d memberD edge with least | ⟨f, onWayF, beyond, -⟩
            · exact .inl ((passed b rfl).trans least)
            · rcases List.mem_cons.1 (isWay ▸ onWayF) with rfl | laterF
              · omega
              · have := linked.index_lt isWay laterF
                omega
          · have falling := (List.pairwise_cons.1 (isWay ▸ linked.falling_way)).2
            have beforeParent := (List.pairwise_cons.1 falling).1 b earlier
            exact .inr ⟨parent, List.mem_cons_self, beforeParent, by omega⟩
      · exact .inr ⟨e, laterE, after, before⟩

end

/-! ### A part that is finished -/

section Part

variable {above below : List α} (linked : Linked g explored colours stack way)
variable (isWay : way = a :: rest) (isStack : stack = above ++ a :: below)

include linked isStack

theorem index_above (member : b ∈ above) : colours.index a < colours.index b :=
  (List.pairwise_append.1 (isStack ▸ linked.falling)).2.2 b member a List.mem_cons_self

theorem index_below (member : b ∈ below) : colours.index b < colours.index a :=
  (List.pairwise_cons.1 (List.pairwise_append.1 (isStack ▸ linked.falling)).2.1).1 b member

theorem mem_part_iff : b ∈ above ++ [a] ↔ b ∈ stack ∧ colours.index a ≤ colours.index b := by
  constructor
  · intro member
    rcases List.mem_append.1 member with inAbove | isA
    · exact ⟨isStack ▸ List.mem_append_left _ inAbove, (linked.index_above isStack inAbove).le⟩
    · obtain rfl := List.mem_singleton.1 isA
      exact ⟨isStack ▸ List.mem_append_right _ List.mem_cons_self, le_rfl⟩
  · rintro ⟨member, order⟩
    rw [isStack, List.mem_append, List.mem_cons] at member
    rcases member with inAbove | rfl | inBelow
    · exact List.mem_append_left _ inAbove
    · exact List.mem_append_right _ List.mem_cons_self
    · exact absurd (linked.index_below isStack inBelow) (Nat.not_lt.2 order)

include isWay

variable (isFirst : colours.low a = colours.index a)
variable (complete : ∀ b ∈ above ++ [a], ∀ c ∈ g.next b, explored b c)

include isFirst complete

/-- No path leaves the part but to finished nodes. -/
theorem part_or_finished (member : b ∈ above ++ [a]) (path : g.Path b c) :
    c ∈ above ++ [a] ∨ colours.Finished c := by
  induction path with
  | refl => exact .inl member
  | @tail d c path edge ih =>
    rcases ih with inPart | finished
    · have explored := complete d inPart c edge
      rcases Colours.unfinished_or_finished (linked.entered d c explored) with unfinished | finished
      · have memberC := (linked.stacked c).2 unfinished
        obtain ⟨memberD, order⟩ := (linked.mem_part_iff isStack).1 inPart
        refine .inl ((linked.mem_part_iff isStack).2 ⟨memberC, ?_⟩)
        -- The low number of `a` is its own, and nothing on the way comes after `a`.
        rcases linked.low_least a (isWay ▸ List.mem_cons_self) d memberD order c memberC explored with
          least | ⟨e, onWay, after, -⟩
        · exact isFirst ▸ least
        · rcases List.mem_cons.1 (isWay ▸ onWay) with rfl | earlier
          · omega
          · have := linked.index_lt isWay earlier
            omega
      · exact .inr finished
    · exact .inr (linked.closed d finished c edge)

/-- The part is the class of its first node. -/
theorem mem_part_iff_mutual : b ∈ above ++ [a] ↔ g.Mutual a b := by
  have onWay : a ∈ way := isWay ▸ List.mem_cons_self
  have self : a ∈ above ++ [a] := List.mem_append_right _ List.mem_cons_self
  constructor
  · intro member
    obtain ⟨onStack, order⟩ := (linked.mem_part_iff isStack).1 member
    refine ⟨linked.ahead a onWay b onStack order, ?_⟩
    -- The node leads back to the way, and no further than to `a`.
    obtain ⟨c, onWayC, -, path⟩ := linked.home b onStack
    rcases List.mem_cons.1 (isWay ▸ onWayC) with rfl | earlier
    · exact path
    · rcases linked.part_or_finished isWay isStack isFirst complete member path with inPart | finished
      · have := ((linked.mem_part_iff isStack).1 inPart).2
        have := linked.index_lt isWay earlier
        omega
      · exact absurd finished (linked.unfinished onWayC).not_finished
  · rintro ⟨there, back⟩
    rcases linked.part_or_finished isWay isStack isFirst complete self there with inPart | finished
    · exact inPart
    · exact absurd (linked.finished_of_path finished back) (linked.unfinished onWay).not_finished

theorem close : Linked g explored (colours.blacken (above ++ [a])) below rest := by
  have outside {b : α} (member : b ∈ below) : b ∉ above ++ [a] := by
    rw [linked.mem_part_iff isStack]
    exact fun inPart => Nat.not_lt.2 inPart.2 (linked.index_below isStack member)
  have kept {b : α} (member : b ∈ below) : b ∈ stack :=
    isStack ▸ List.mem_append_right _ (List.mem_cons_of_mem _ member)
  have below_of_lt {b : α} (member : b ∈ stack) (order : colours.index b < colours.index a) : b ∈ below := by
    rw [isStack, List.append_cons, List.mem_append] at member
    refine member.resolve_left fun inPart => ?_
    exact Nat.not_lt.2 ((linked.mem_part_iff isStack).1 inPart).2 order
  have earlier {b : α} (onWay : b ∈ rest) : b ∈ way := isWay ▸ List.mem_cons_of_mem _ onWay
  have onBelow {b : α} (onWay : b ∈ rest) : b ∈ below :=
    below_of_lt (linked.onStack _ (earlier onWay)) (linked.index_lt isWay onWay)
  have index_old {b : α} (member : b ∈ below) : (colours.blacken (above ++ [a])).index b = colours.index b :=
    Colours.index_blacken (outside member)
  have low_old {b : α} (onWay : b ∈ rest) : (colours.blacken (above ++ [a])).low b = colours.low b :=
    Colours.low_blacken (outside (onBelow onWay))
  constructor
  case stacked =>
    intro b
    rw [Colours.unfinished_blacken, ← linked.stacked]
    refine ⟨fun member => ⟨outside member, kept member⟩, fun ⟨notInPart, member⟩ => ?_⟩
    rw [isStack, List.append_cons, List.mem_append] at member
    exact member.resolve_left notInPart
  case falling =>
    have falling := (List.pairwise_cons.1 (List.pairwise_append.1 (isStack ▸ linked.falling)).2.1).2
    refine falling.imp_of_mem fun memberB memberC order => ?_
    rwa [index_old memberB, index_old memberC]
  case onStack => exact fun b => onBelow
  case falling_way =>
    have falling := (List.pairwise_cons.1 (isWay ▸ linked.falling_way)).2
    refine falling.imp_of_mem fun onWayB onWayC order => ?_
    rwa [index_old (onBelow onWayB), index_old (onBelow onWayC)]
  case ahead =>
    intro b onWay c member order
    rw [index_old (onBelow onWay), index_old member] at order
    exact linked.ahead b (earlier onWay) c (kept member) order
  case home =>
    intro b member
    obtain ⟨c, onWay, order, path⟩ := linked.home b (kept member)
    have onRest : c ∈ rest := by
      refine (List.mem_cons.1 (isWay ▸ onWay)).resolve_left ?_
      rintro rfl
      exact Nat.not_lt.2 order (linked.index_below isStack member)
    refine ⟨c, onRest, ?_, path⟩
    rwa [index_old (onBelow onRest), index_old member]
  case low_le =>
    intro b onWay
    rw [low_old onWay, index_old (onBelow onWay)]
    exact linked.low_le b (earlier onWay)
  case low_reached =>
    intro b onWay
    obtain ⟨c, member, same, path⟩ := linked.low_reached b (earlier onWay)
    have memberC : c ∈ below := by
      refine below_of_lt member ?_
      have := linked.low_le b (earlier onWay)
      have := linked.index_lt isWay onWay
      omega
    exact ⟨c, memberC, by rw [index_old memberC, low_old onWay, same], path⟩
  case low_least =>
    intro b onWay c memberC order d memberD edge
    rw [index_old (onBelow onWay), index_old memberC] at order
    rw [low_old onWay, index_old memberD, index_old memberC, index_old (onBelow onWay)]
    rcases linked.low_least b (earlier onWay) c (kept memberC) order d (kept memberD) edge with
      least | ⟨e, onWayE, after, before⟩
    · exact .inl least
    · have onRest : e ∈ rest := by
        refine (List.mem_cons.1 (isWay ▸ onWayE)).resolve_left ?_
        rintro rfl
        exact Nat.not_lt.2 before (linked.index_below isStack memberC)
      exact .inr ⟨e, onRest, by rwa [index_old (onBelow onRest)], by rwa [index_old (onBelow onRest)]⟩
  case entered => exact fun b c edge => Colours.mem_blacken.2 (.inr (linked.entered b c edge))
  case closed =>
    intro b finished c edge
    rw [Colours.finished_blacken] at finished ⊢
    rcases finished with inPart | finished
    · exact linked.part_or_finished isWay isStack isFirst complete inPart (.single edge)
    · exact .inr (linked.closed b finished c edge)

end Part

end Linked

end PageCalc.Graph

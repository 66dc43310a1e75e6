import Std.Data.ExtTreeMap.Lemmas
import Std.Data.ExtTreeSet.Lemmas

/-!
# Sets and maps with ordered keys

Membership in sets and entries of maps, for keys that are equal when they compare as equal. A list whose
members rise is known by them.
-/

namespace PageCalc

variable {α : Type} [Ord α] [Std.TransOrd α]

namespace Collection

section Sets

variable [Std.LawfulEqOrd α] {s : Std.ExtTreeSet α} {a b : α} {l : List α}

theorem mem_insert : b ∈ s.insert a ↔ b = a ∨ b ∈ s := by
  rw [Std.ExtTreeSet.mem_insert, Std.LawfulEqCmp.compare_eq_iff_eq, eq_comm]

theorem mem_erase : b ∈ s.erase a ↔ b ≠ a ∧ b ∈ s := by
  rw [Std.ExtTreeSet.mem_erase, ne_eq, Std.LawfulEqCmp.compare_eq_iff_eq, eq_comm]

theorem mem_insertMany : b ∈ s.insertMany l ↔ b ∈ s ∨ b ∈ l := by
  classical
  rw [Std.ExtTreeSet.mem_insertMany_list, List.contains_iff_mem]

theorem mem_ofList : b ∈ Std.ExtTreeSet.ofList l ↔ b ∈ l := by
  classical
  rw [Std.ExtTreeSet.mem_ofList, List.contains_iff_mem]

end Sets

section Maps

variable {β : Type} {m : Std.ExtTreeMap α β} {a : α} {v : β}

theorem mem_iff_exists : a ∈ m ↔ ∃ v, m[a]? = some v := by
  rw [Std.ExtTreeMap.mem_iff_isSome_getElem?, Option.isSome_iff_exists]

theorem mem_of_known (known : m[a]? = some v) : a ∈ m := mem_iff_exists.2 ⟨v, known⟩

theorem not_mem_of_unknown (unknown : m[a]? = none) : a ∉ m := by
  rw [Std.ExtTreeMap.mem_iff_isSome_getElem?, unknown]
  simp

end Maps

section Lists

variable {β : Type} {cmp : β → β → Ordering} [Std.TransCmp cmp] [Std.LawfulEqCmp cmp] {l l' : List β}

omit [Std.TransCmp cmp] in
theorem nodup_of_pairwise_lt (rising : l.Pairwise (cmp · · = .lt)) : l.Nodup := by
  refine rising.imp fun {a b} order same => ?_
  subst same
  cases order.symm.trans Std.ReflCmp.compare_self

/-- A list in order is known by its members. -/
theorem eq_of_pairwise_lt (rising : l.Pairwise (cmp · · = .lt)) (risingToo : l'.Pairwise (cmp · · = .lt))
    (same : ∀ a, a ∈ l ↔ a ∈ l') : l = l' := by
  have perm : l.Perm l' :=
    (List.perm_ext_iff_of_nodup (nodup_of_pairwise_lt rising) (nodup_of_pairwise_lt risingToo)).2 same
  refine perm.eq_of_pairwise (fun a b _ _ order orderToo => ?_) rising risingToo
  have swapped : cmp a b = (cmp b a).swap := Std.OrientedCmp.eq_swap
  rw [swapped, orderToo] at order
  cases order

/-- Sorting a list without repetitions leaves no two equal members. -/
theorem pairwise_mergeSort_lt (distinct : l.Nodup) :
    (l.mergeSort fun a b => (cmp a b).isLE).Pairwise (cmp · · = .lt) := by
  have sorted : (l.mergeSort fun a b => (cmp a b).isLE).Pairwise fun a b => (cmp a b).isLE := by
    apply List.pairwise_mergeSort
    · intro a b c
      exact Std.TransCmp.isLE_trans
    · intro a b
      have swapped : cmp b a = (cmp a b).swap := Std.OrientedCmp.eq_swap
      rw [swapped]
      cases cmp a b <;> rfl
  have distinct : (l.mergeSort fun a b => (cmp a b).isLE).Nodup :=
    (List.mergeSort_perm l _).nodup_iff.2 distinct
  refine (sorted.and distinct).imp fun {a b} both => ?_
  obtain ⟨le, different⟩ := both
  cases order : cmp a b with
  | lt => rfl
  | eq => exact absurd (Std.LawfulEqCmp.eq_of_compare order) different
  | gt => simp [order] at le

end Lists

/-- If each step of a fold adds something to what holds, the fold adds what all its steps do. -/
theorem holds_foldl {σ β : Type} (holds : σ → Prop) {step : σ → β → σ} {adds : β → Prop}
    (each : ∀ s b, holds (step s b) ↔ holds s ∨ adds b) (bs : List β) (s : σ) :
    holds (bs.foldl step s) ↔ holds s ∨ ∃ b ∈ bs, adds b := by
  induction bs generalizing s with
  | nil => simp
  | cons b bs ih =>
    rw [List.foldl_cons, ih, each, or_assoc]
    simp only [List.mem_cons, exists_eq_or_imp]

end Collection

/-- Of two members of a list without repetitions, the first comes before the other one or is it. -/
theorem mem_cons_takeWhile_iff {α : Type} [DecidableEq α] {above below : List α} {a b : α}
    (distinct : (above ++ a :: below).Nodup) (member : b ∈ above ++ a :: below) :
    a ∈ b :: (above ++ a :: below).takeWhile (· ≠ b) ↔ b ∈ a :: below := by
  induction above with
  | nil =>
    refine iff_of_true ?_ member
    by_cases same : a = b
    · exact same ▸ List.mem_cons_self
    · simp [same]
  | cons c above ih =>
    rw [List.cons_append, List.nodup_cons] at distinct
    have notLater : c ≠ a := fun same => distinct.1 (by simp [same])
    by_cases same : c = b
    · subst same
      have outside : c ∉ a :: below := fun later => distinct.1 (List.mem_append_right _ later)
      refine iff_of_false ?_ outside
      simp [notLater.symm]
    · have later := (List.mem_cons.1 member).resolve_left (Ne.symm same)
      rw [← ih distinct.2 later]
      simp [same, notLater.symm]

end PageCalc

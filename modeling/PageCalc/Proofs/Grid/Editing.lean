import PageCalc.Grid.RawSheet
import PageCalc.Proofs.Collection
import PageCalc.Proofs.Grid.Typing

/-!
# Changes step by step

A change to a sheet that is made step by step, and that could fail between two steps, comes to the same as the
change of the whole: either it is made in full, or it fails before anything has changed. What comes of it passes
the check of sheets.
-/

namespace PageCalc

namespace RawSheet

variable {ε α β : Type} {s t : Sheet} {a : Address} {m : Edit ε Unit}

/-! ## Steps -/

theorem run_bind (m : Edit ε α) (next : α → Edit ε β) (sheet : RawSheet) :
    (m >>= next).run.run sheet = match m.run.run sheet with
      | (.error fault, left) => (.error fault, left)
      | (.ok v, left) => (next v).run.run left := by
  simp only [bind, ExceptT.bind, ExceptT.run, ExceptT.mk, StateT.run, StateT.bind]
  rcases (m sheet : Except ε α × RawSheet) with ⟨_ | _, left⟩ <;> rfl

theorem run_adapt {ε' : Type} (f : ε → ε') (m : Edit ε α) (sheet : RawSheet) :
    (ExceptT.adapt f m).run.run sheet = ((m.run.run sheet).1.mapError f, (m.run.run sheet).2) := rfl

/-- A change makes of a sheet what it is meant to, and leaves the sheet as it was if it fails. -/
def Makes (m : Edit ε Unit) (s : Sheet) : Except ε Sheet → Prop
  | .ok t => m.run.run s.raw = (.ok (), t.raw)
  | .error fault => m.run.run s.raw = (.error fault, s.raw)

theorem Makes.run_ok (makes : Makes m s (.ok t)) : m.run.run s.raw = (.ok (), t.raw) := makes

theorem Makes.run_error {fault : ε} (makes : Makes m s (.error fault)) :
    m.run.run s.raw = (.error fault, s.raw) := makes

theorem Makes.adapt {ε' : Type} {outcome : Except ε Sheet} (makes : Makes m s outcome) (f : ε → ε') :
    Makes (ExceptT.adapt f m) s (outcome.mapError f) := by
  cases outcome with
  | ok t => exact (run_adapt f m s.raw).trans (by rw [makes.run_ok]; rfl)
  | error fault => exact (run_adapt f m s.raw).trans (by rw [makes.run_error]; rfl)

theorem makes_ensureSize (s : Sheet) (rows columns : Nat) :
    Makes (ε := ε) (ensureSize rows columns) s (.ok (s.ensureSize rows columns)) := rfl

theorem makes_clearAt (s : Sheet) (a : Address) : Makes (ε := ε) (clearAt a) s (.ok (s.clear a)) := rfl

theorem makes_setAt (s : Sheet) (a : Address) (raw : String) : Makes (setAt a raw) s (s.set a raw) := by
  unfold Sheet.set setAt checkPosition
  by_cases row : maxRows ≤ a.row
  · rw [dif_pos row, if_pos row]
    rfl
  rw [dif_neg row, if_neg row]
  by_cases column : maxColumns ≤ a.column
  · rw [dif_pos column, if_pos column]
    rfl
  rw [dif_neg column, if_neg column]
  by_cases blank : raw = ""
  · rw [dif_pos blank, if_pos blank]
    exact makes_clearAt s a
  · rw [dif_neg blank, if_neg blank]
    rfl

theorem makes_set (s : Sheet) (address raw : String) :
    Makes (set address raw) s (Address.ofText address >>= fun a => s.set a raw) := by
  unfold set
  cases Address.ofText address with
  | error fault => rfl
  | ok a => exact makes_setAt s a raw

theorem makes_clear (s : Sheet) (address : String) :
    Makes (clear address) s ((Address.ofText address).map s.clear) := by
  unfold clear
  cases Address.ofText address with
  | error fault => rfl
  | ok a => exact makes_clearAt s a

/-! ## The check -/

theorem row_le_of_isLE {a b : Address} (le : (compare a b).isLE) : a.row ≤ b.row := by
  have le : ((compare a.row b.row).then (compare a.column b.column)).isLE := le
  rw [Ordering.isLE_then_iff_and] at le
  exact Nat.isLE_compare.1 le.1

/-- The last address is in the last row that is used, so no other one needs to be looked at for its row. -/
theorem rows_hold_iff {inputs : AddressMap String} {rows : Nat} :
    (inputs.maxKey?.filter fun last => rows ≤ last.row) = none ↔ ∀ a ∈ inputs, a.row < rows := by
  rw [Option.filter_eq_none_iff]
  constructor
  · intro inside a typed
    cases found : inputs.maxKey? with
    | none =>
      rw [Std.ExtTreeMap.maxKey?_eq_none_iff.1 found] at typed
      exact absurd typed Std.ExtTreeMap.not_mem_empty
    | some last =>
      have lastInside := inside last found
      rw [decide_eq_true_iff, Nat.not_le] at lastInside
      have isLast := (Std.ExtTreeMap.maxKey?_eq_some_iff_mem_and_forall.1 found).2 a typed
      exact Nat.lt_of_le_of_lt (row_le_of_isLE isLast) lastInside
  · intro inside last found
    rw [decide_eq_true_iff, Nat.not_le]
    exact inside last (Std.ExtTreeMap.maxKey?_mem found)

theorem columns_hold_iff {inputs : AddressMap String} {columns : Nat} :
    ((inputs.keys.map Address.column).max?.filter fun column => columns ≤ column) = none ↔
      ∀ a ∈ inputs, a.column < columns := by
  rw [Option.filter_eq_none_iff]
  constructor
  · intro inside a typed
    have member : a.column ∈ inputs.keys.map Address.column :=
      List.mem_map_of_mem (Std.ExtTreeMap.mem_keys.2 typed)
    cases found : (inputs.keys.map Address.column).max? with
    | none =>
      rw [List.max?_eq_none_iff.1 found] at member
      exact absurd member List.not_mem_nil
    | some widest =>
      have widestInside := inside widest found
      rw [decide_eq_true_iff, Nat.not_le] at widestInside
      exact Nat.lt_of_le_of_lt ((List.max?_eq_some_iff.1 found).2 _ member) widestInside
  · intro inside widest found
    obtain ⟨a, typed, rfl⟩ := List.mem_map.1 (List.max?_eq_some_iff.1 found).1
    rw [decide_eq_true_iff, Nat.not_le]
    exact inside a (Std.ExtTreeMap.mem_keys.1 typed)

theorem validate_eq_ok_iff {sheet : RawSheet} : sheet.validate = .ok () ↔
    ∀ a ∈ sheet.inputs, a.row < sheet.rows ∧ a.column < sheet.columns := by
  simp only [forall_and, ← rows_hold_iff, ← columns_hold_iff]
  unfold validate
  split
  · next isOutside => simp [isOutside]
  · next rowsHold =>
    split
    · next isOutside => simp [isOutside]
    · next columnsHold => exact iff_of_true rfl ⟨rowsHold, columnsHold⟩

/-- The check approves of what keeps the invariants of sheets. -/
theorem validate_raw (s : Sheet) : s.raw.validate = .ok () := by
  refine validate_eq_ok_iff.2 fun a typed => ?_
  obtain ⟨raw, inputs⟩ := Collection.mem_iff_exists.1 typed
  exact s.inside a raw inputs

end RawSheet
end PageCalc

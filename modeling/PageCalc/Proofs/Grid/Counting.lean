import Mathlib.Data.List.Iterate
import Mathlib.Order.Interval.Set.UnorderedInterval
import Mathlib.Order.Lattice.Nat
import PageCalc.Grid.Range
import PageCalc.Proofs.Collection

/-!
# Counting off a range

The cells of a range are counted off from the first one on, row by row. This meets every address in the
range once, in the order of addresses. The part of a range in a grid has those of its cells that lie
there, in the same order.
-/

namespace PageCalc

open Collection

theorem Address.compare_eq_lt_iff {a b : Address} :
    compare a b = .lt ↔ a.row < b.row ∨ a.row = b.row ∧ a.column < b.column := by
  have lexicographic : compare a b = (compare a.row b.row).then (compare a.column b.column) := rfl
  rw [lexicographic, Ordering.then_eq_lt, Nat.compare_eq_lt, Nat.compare_eq_eq, Nat.compare_eq_lt]

namespace Range

variable {range inner : Range} {a b : Address} {rows columns place later : Nat}

/-! ## From one cell to the next -/

/-- The address counted after another one: the next one in its row, or after the last column the first
one of the next row. -/
def next (range : Range) (a : Address) : Address :=
  if a.column = range.last.column then ⟨a.row + 1, range.first.column⟩ else ⟨a.row, a.column + 1⟩

theorem lt_next (range : Range) (a : Address) : compare a (range.next a) = .lt := by
  rw [Address.compare_eq_lt_iff, next]
  split
  · exact .inl (Nat.lt_succ_self _)
  · exact .inr ⟨rfl, Nat.lt_succ_self _⟩

theorem columns_pos (range : Range) : 0 < range.columns := Nat.succ_pos _

theorem cell_zero (range : Range) : range.cell 0 = range.first := by simp [cell]

theorem cell_succ (range : Range) (place : Nat) : range.cell (place + 1) = range.next (range.cell place) := by
  have taken := Nat.div_add_mod place range.columns
  have inRow := Nat.mod_lt place range.columns_pos
  have isColumns : range.columns = range.last.column - range.first.column + 1 := rfl
  have := range.column_le
  rw [next]
  split
  · next isLast =>
    -- The place is the last one in its row.
    have isLast : place % range.columns + 1 = range.columns := by
      rw [cell] at isLast
      dsimp only at isLast
      omega
    have whole : place + 1 = range.columns * (place / range.columns + 1) := by
      rw [Nat.mul_succ]
      omega
    have row : (place + 1) / range.columns = place / range.columns + 1 := by
      rw [whole, Nat.mul_div_cancel_left _ range.columns_pos]
    have column : (place + 1) % range.columns = 0 := by rw [whole, Nat.mul_mod_right]
    rw [cell, row, column]
    rfl
  · next notLast =>
    have notLast : place % range.columns + 1 < range.columns := by
      rw [cell] at notLast
      dsimp only at notLast
      omega
    have row : (place + 1) / range.columns = place / range.columns := by
      rw [← taken, Nat.add_assoc, Nat.mul_add_div range.columns_pos, Nat.div_eq_of_lt notLast,
        Nat.mul_add_div range.columns_pos, Nat.div_eq_of_lt inRow]
    have column : (place + 1) % range.columns = place % range.columns + 1 := by
      conv => lhs; rw [← taken, Nat.add_assoc, Nat.mul_add_mod, Nat.mod_eq_of_lt notLast]
    rw [cell, row, column]
    rfl

theorem cell_eq_iterate (range : Range) (place : Nat) : range.cell place = range.next^[place] range.first := by
  induction place with
  | zero => exact range.cell_zero
  | succ place ih => rw [cell_succ, ih, Function.iterate_succ_apply']

/-! ## All cells -/

theorem cells_eq_map (range : Range) : range.cells = (List.range range.size).map range.cell := by
  rw [cells, firstCells, Nat.min_self]

/-- Counting on from the first cell gives the cells. -/
theorem cells_eq_iterate (range : Range) : range.cells = List.iterate range.next range.first range.size := by
  rw [cells_eq_map, ← List.range_map_iterate]
  exact List.map_congr_left fun place _ => range.cell_eq_iterate place

theorem length_cells (range : Range) : range.cells.length = range.size := by
  rw [cells_eq_map, List.length_map, List.length_range]

theorem cells_ne_nil (range : Range) : range.cells ≠ [] := by
  refine List.ne_nil_of_length_pos ?_
  rw [length_cells]
  exact Nat.mul_pos (Nat.succ_pos _) (Nat.succ_pos _)

theorem mem_cells : a ∈ range.cells ↔ range.contains a := by
  have := range.row_le
  have := range.column_le
  simp only [cells_eq_map, List.mem_map, List.mem_range, contains, Bool.and_eq_true, decide_eq_true_eq]
  -- A place is a row and a column, by division with remainder.
  constructor
  · rintro ⟨place, counted, rfl⟩
    have row : place / range.columns < range.rows := Nat.div_lt_of_lt_mul (by rwa [Nat.mul_comm])
    have column := Nat.mod_lt place range.columns_pos
    simp only [cell]
    generalize place / range.columns = i at row
    generalize place % range.columns = j at column
    rw [rows] at row
    rw [Range.columns] at column
    omega
  · rintro ⟨⟨⟨_, _⟩, _⟩, _⟩
    have row : a.row - range.first.row < range.rows := by
      rw [rows]
      omega
    have column : a.column - range.first.column < range.columns := by
      rw [Range.columns]
      omega
    refine ⟨range.columns * (a.row - range.first.row) + (a.column - range.first.column), ?_, ?_⟩
    · calc range.columns * (a.row - range.first.row) + (a.column - range.first.column)
          < range.columns * (a.row - range.first.row + 1) := by
            rw [Nat.mul_succ]
            exact Nat.add_lt_add_left column _
        _ ≤ range.columns * range.rows := Nat.mul_le_mul_left _ row
        _ = range.size := Nat.mul_comm ..
    · rw [cell, Nat.mul_add_div range.columns_pos, Nat.div_eq_of_lt column, Nat.mul_add_mod,
        Nat.mod_eq_of_lt column, Nat.add_zero, Nat.add_sub_cancel' (by omega), Nat.add_sub_cancel' (by omega)]

theorem cell_lt_cell (earlier : place < later) : compare (range.cell place) (range.cell later) = .lt := by
  induction earlier with
  | refl =>
    rw [cell_succ]
    exact range.lt_next _
  | step _ ih =>
    rw [cell_succ]
    exact Std.TransCmp.lt_trans ih (range.lt_next _)

/-- The cells are in the order of addresses. -/
theorem pairwise_cells (range : Range) : range.cells.Pairwise (compare · · = .lt) := by
  rw [cells_eq_map, List.pairwise_map]
  exact List.pairwise_lt_range.imp fun earlier => cell_lt_cell earlier

theorem count_cells (range : Range) (a : Address) :
    range.cells.count a = if range.contains a then 1 else 0 := by
  have distinct : range.cells.Nodup := nodup_of_pairwise_lt range.pairwise_cells
  rw [distinct.count]
  exact if_congr mem_cells rfl rfl

/-! ## Corners -/

theorem contains_spanning {c : Address} : (spanning a b).contains c ↔
    c.row ∈ Set.uIcc a.row b.row ∧ c.column ∈ Set.uIcc a.column b.column := by
  simp only [contains, Bool.and_eq_true, decide_eq_true_eq, and_assoc]
  exact and_assoc.symm

theorem cells_spanning_self (a : Address) : (spanning a a).cells = [a] := by
  simp [cells_eq_iterate, size, rows, columns, spanning]

theorem inBounds_of_contains_spanning {c : Address} (isA : a.InBounds) (isB : b.InBounds)
    (inside : (spanning a b).contains c) : c.InBounds := by
  obtain ⟨row, column⟩ := contains_spanning.1 inside
  exact ⟨Nat.lt_of_le_of_lt row.2 (Nat.max_lt.2 ⟨isA.1, isB.1⟩),
    Nat.lt_of_le_of_lt column.2 (Nat.max_lt.2 ⟨isA.2, isB.2⟩)⟩

theorem rows_spanning_le (isA : a.InBounds) (isB : b.InBounds) : (spanning a b).rows ≤ maxRows := by
  have last : max a.row b.row < maxRows := Nat.max_lt.2 ⟨isA.1, isB.1⟩
  rw [rows, spanning]
  dsimp only
  omega

theorem columns_spanning_le (isA : a.InBounds) (isB : b.InBounds) : (spanning a b).columns ≤ maxColumns := by
  have last : max a.column b.column < maxColumns := Nat.max_lt.2 ⟨isA.2, isB.2⟩
  rw [Range.columns, spanning]
  dsimp only
  omega

/-! ## Grids -/

theorem contains_clamp? (clamped : range.clamp? rows columns = some inner) :
    inner.contains a ↔ range.contains a ∧ a.row < rows ∧ a.column < columns := by
  unfold clamp? at clamped
  split at clamped
  · cases clamped
    simp only [contains, Bool.and_eq_true, decide_eq_true_eq]
    omega
  · cases clamped

theorem clamp?_eq_none_iff : range.clamp? rows columns = none ↔
    ∀ a, range.contains a → ¬ (a.row < rows ∧ a.column < columns) := by
  have := range.row_le
  have := range.column_le
  constructor
  · intro none a inside inGrid
    simp only [contains, Bool.and_eq_true, decide_eq_true_eq] at inside
    unfold clamp? at none
    split at none
    · cases none
    · omega
  · intro outside
    have notFirst := outside range.first (by simp [contains, *])
    rw [clamp?, dif_neg notFirst]

/-- The part of a range in a grid has those cells of it that lie there, in the same order. -/
theorem cells_of_clamp? (clamped : range.clamp? rows columns = some inner) :
    inner.cells = range.cells.filter fun a => a.row < rows && a.column < columns := by
  refine eq_of_pairwise_lt inner.pairwise_cells (range.pairwise_cells.filter _) fun a => ?_
  rw [mem_cells, contains_clamp? clamped, List.mem_filter, mem_cells, Bool.and_eq_true, decide_eq_true_eq,
    decide_eq_true_eq]

/-- The cells of the range between two corners are the addresses between these, each of them once and row by
row, as many as the range says; counting on from the first one gives them. They are in bounds if the
corners are, and so are the numbers of rows and columns. In a grid those cells are left that lie in it, and
if there are none, no range. -/
theorem cells_spanning_exact (a b : Address) :
    ((spanning a b).first.row ≤ (spanning a b).last.row ∧
      (spanning a b).first.column ≤ (spanning a b).last.column) ∧
    (∀ c, (spanning a b).contains c ↔
      c.row ∈ Set.uIcc a.row b.row ∧ c.column ∈ Set.uIcc a.column b.column) ∧
    (∀ c, (spanning a b).cells.count c = if (spanning a b).contains c then 1 else 0) ∧
    (spanning a b).cells.Pairwise (compare · · = .lt) ∧
    (spanning a b).cells.length = (spanning a b).size ∧
    (spanning a b).cells = List.iterate (spanning a b).next (spanning a b).first (spanning a b).size ∧
    (a.InBounds → b.InBounds → (spanning a b).rows ≤ maxRows ∧ (spanning a b).columns ≤ maxColumns ∧
      ∀ c ∈ (spanning a b).cells, c.InBounds) ∧
    ∀ rows columns,
      ((spanning a b).clamp? rows columns = none ↔
        ∀ c ∈ (spanning a b).cells, ¬ (c.row < rows ∧ c.column < columns)) ∧
      ∀ inner, (spanning a b).clamp? rows columns = some inner →
        inner.cells = (spanning a b).cells.filter fun c => c.row < rows && c.column < columns := by
  refine ⟨⟨(spanning a b).row_le, (spanning a b).column_le⟩, fun c => contains_spanning, count_cells _,
    pairwise_cells _, length_cells _, cells_eq_iterate _, fun isA isB => ?_,
    fun rows columns => ⟨?_, fun inner => cells_of_clamp?⟩⟩
  · refine ⟨rows_spanning_le isA isB, columns_spanning_le isA isB, fun c member => ?_⟩
    exact inBounds_of_contains_spanning isA isB (mem_cells.1 member)
  · rw [clamp?_eq_none_iff]
    simp only [mem_cells]

example : (spanning ⟨1, 0⟩ ⟨0, 1⟩).cells = [⟨0, 0⟩, ⟨0, 1⟩, ⟨1, 0⟩, ⟨1, 1⟩] := by decide

end Range
end PageCalc

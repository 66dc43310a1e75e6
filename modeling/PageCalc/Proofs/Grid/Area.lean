import PageCalc.Grid.Sheet
import PageCalc.Proofs.Grid.Counting

/-!
# Areas

The cells of a range that lie in a grid, row by row. In a larger grid the range has the same cells in the
same order, with others between them.
-/

namespace PageCalc

namespace Sheet

variable {s t : Sheet} {area : Range} {a : Address}

/-- Whether a cell lies in the grid. -/
def holds (sheet : Sheet) (a : Address) : Bool := a.row < sheet.rows && a.column < sheet.columns

/-- The part of a range that lies in the grid are its cells that do so, in the same order. -/
theorem filter_cells (s : Sheet) (area : Range) : area.cells.filter s.holds = s.cellsIn area := by
  unfold cellsIn clamp?
  cases clamped : area.clamp? s.rows s.columns with
  | some inner => exact (Range.cells_of_clamp? clamped).symm
  | none =>
    refine List.filter_eq_nil_iff.2 fun a member => ?_
    simpa [holds] using Range.clamp?_eq_none_iff.1 clamped a (Range.mem_cells.1 member)

theorem mem_cellsIn : a ∈ s.cellsIn area ↔ area.contains a ∧ a.row < s.rows ∧ a.column < s.columns := by
  rw [← filter_cells, List.mem_filter, Range.mem_cells, holds, Bool.and_eq_true, decide_eq_true_eq,
    decide_eq_true_eq]

/-- The part of a range in a smaller grid is that of its cells in the larger one that lie there. -/
theorem filter_cellsIn (rows : s.rows ≤ t.rows) (columns : s.columns ≤ t.columns) :
    (t.cellsIn area).filter s.holds = s.cellsIn area := by
  rw [← filter_cells, ← filter_cells, List.filter_filter]
  refine List.filter_congr fun a _ => ?_
  rw [Bool.eq_iff_iff]
  simp only [holds, Bool.and_eq_true, decide_eq_true_eq]
  omega

theorem cellsIn_subset (rows : s.rows ≤ t.rows) (columns : s.columns ≤ t.columns) :
    s.cellsIn area ⊆ t.cellsIn area := by
  rw [← filter_cellsIn rows columns]
  exact List.filter_sublist.subset

theorem holds_of_mem (typed : a ∈ s.inputs) : s.holds a := by
  obtain ⟨raw, isRaw⟩ := Option.isSome_iff_exists.1 (Std.ExtTreeMap.mem_iff_isSome_getElem?.1 typed)
  obtain ⟨row, column⟩ := s.inside a raw isRaw
  simp [holds, row, column]

end Sheet
end PageCalc

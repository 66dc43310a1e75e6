import PageCalc.Grid.Address

/-!
# Ranges

A range is the rectangle between two corners, both included. Its cells are counted off row by
row.
-/

namespace PageCalc

/-- A rectangle of cells, given by its top left and its bottom right corner. -/
structure Range where
  first : Address
  last : Address
  row_le : first.row ≤ last.row
  column_le : first.column ≤ last.column
deriving DecidableEq

namespace Range

def spanning (a b : Address) : Range where
  first := ⟨min a.row b.row, min a.column b.column⟩
  last := ⟨max a.row b.row, max a.column b.column⟩
  row_le := Nat.le_trans (Nat.min_le_left ..) (Nat.le_max_left ..)
  column_le := Nat.le_trans (Nat.min_le_left ..) (Nat.le_max_left ..)

def single (a : Address) : Range := ⟨a, a, Nat.le_refl _, Nat.le_refl _⟩

def text (range : Range) : String := s!"{range.first}:{range.last}"

instance : ToString Range := ⟨text⟩

/-- Reads a range: two addresses with a colon between them, or one address. -/
def ofText (text : String) : Except GridError Range :=
  let body := Text.trim text.toList
  let shown := String.ofList body
  match Text.cutAt? ':' body with
  | none => (Address.ofText shown).map single
  | some (before, after) =>
    let corner (cs : List Char) : Except GridError Address :=
      (Address.ofText (String.ofList cs)).mapError fun fault =>
        .invalidRange s!"'{shown}': {fault.message}"
    do
      let a ← corner before
      let b ← corner after
      return spanning a b

/-! ## Extent -/

def rows (range : Range) : Nat := range.last.row - range.first.row + 1

def columns (range : Range) : Nat := range.last.column - range.first.column + 1

def size (range : Range) : Nat := range.rows * range.columns

def contains (range : Range) (a : Address) : Bool :=
  range.first.row ≤ a.row && a.row ≤ range.last.row &&
    range.first.column ≤ a.column && a.column ≤ range.last.column

/-- The part of the range inside a grid of the given size, if there is one. -/
def clamp? (range : Range) (rows columns : Nat) : Option Range :=
  if h : range.first.row < rows ∧ range.first.column < columns then
    some {
      first := range.first
      last := ⟨min range.last.row (rows - 1), min range.last.column (columns - 1)⟩
      row_le := by have := range.row_le; simp; omega
      column_le := by have := range.column_le; simp; omega }
  else none

/-! ## Cells -/

/-- The cell with the given place in the range, counted row by row. -/
def cell (range : Range) (place : Nat) : Address :=
  ⟨range.first.row + place / range.columns, range.first.column + place % range.columns⟩

/-- The leading cells of the range, at most `count` of them. -/
def firstCells (range : Range) (count : Nat) : List Address :=
  (List.range (min count range.size)).map range.cell

def cells (range : Range) : List Address := range.firstCells range.size

end Range
end PageCalc

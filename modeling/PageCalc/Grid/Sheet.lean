import PageCalc.Grid.Input
import PageCalc.Grid.Range

/-!
# Sheets

A sheet is a grid of a certain size and the inputs typed into its cells. Blank cells hold no
input. Setting a cell outside the grid makes the grid larger; nothing makes it smaller.
-/

namespace PageCalc

/-- A grid of inputs. The inputs lie inside the grid, and none of them is empty. -/
structure Sheet where
  rows : Nat
  columns : Nat
  inputs : AddressMap String
  rows_le : rows ≤ maxRows
  columns_le : columns ≤ maxColumns
  inside : ∀ (a : Address) (raw : String), inputs[a]? = some raw →
    a.row < rows ∧ a.column < columns
  nonempty : ∀ (a : Address) (raw : String), inputs[a]? = some raw → raw ≠ ""
deriving DecidableEq

namespace Sheet

/-! ## Sizes -/

/-- The blank sheet with a grid of the given size, as far as grids go. -/
def withSize (rows columns : Nat) : Sheet where
  rows := min rows maxRows
  columns := min columns maxColumns
  inputs := ∅
  rows_le := Nat.min_le_right ..
  columns_le := Nat.min_le_right ..
  inside := by simp
  nonempty := by simp

def empty : Sheet := withSize 0 0

instance : Inhabited Sheet := ⟨empty⟩

/-- The sheet with a grid of at least the given size, as far as grids go. -/
def ensureSize (sheet : Sheet) (rows columns : Nat) : Sheet where
  rows := max sheet.rows (min rows maxRows)
  columns := max sheet.columns (min columns maxColumns)
  inputs := sheet.inputs
  rows_le := Nat.max_le.2 ⟨sheet.rows_le, Nat.min_le_right ..⟩
  columns_le := Nat.max_le.2 ⟨sheet.columns_le, Nat.min_le_right ..⟩
  inside a raw h := by have := sheet.inside a raw h; omega
  nonempty := sheet.nonempty

/-- The whole grid, unless it has no cells. -/
def extent? (sheet : Sheet) : Option Range :=
  if sheet.rows = 0 ∨ sheet.columns = 0 then none
  else some (.spanning ⟨0, 0⟩ ⟨sheet.rows - 1, sheet.columns - 1⟩)

/-- The part of a range that lies in the grid. -/
def clamp? (sheet : Sheet) (range : Range) : Option Range :=
  range.clamp? sheet.rows sheet.columns

def cellsIn (sheet : Sheet) (range : Range) : List Address :=
  match sheet.clamp? range with
  | some inner => inner.cells
  | none => []

/-! ## Cells -/

/-- What was typed into a cell; nothing for a blank one. -/
def get (sheet : Sheet) (a : Address) : String := (sheet.inputs[a]?).getD ""

def input (sheet : Sheet) (a : Address) : Input := .ofText (sheet.get a)

def isFormula (sheet : Sheet) (a : Address) : Bool := (sheet.input a).isFormula

def clear (sheet : Sheet) (a : Address) : Sheet where
  rows := sheet.rows
  columns := sheet.columns
  inputs := sheet.inputs.erase a
  rows_le := sheet.rows_le
  columns_le := sheet.columns_le
  inside b raw h := by
    rw [Std.ExtTreeMap.getElem?_erase] at h
    split at h
    · simp at h
    · exact sheet.inside b raw h
  nonempty b raw h := by
    rw [Std.ExtTreeMap.getElem?_erase] at h
    split at h
    · simp at h
    · exact sheet.nonempty b raw h

/-- The sheet with an input typed into a cell inside its grid. -/
def insert (sheet : Sheet) (a : Address) (raw : String)
    (fits : a.row < sheet.rows ∧ a.column < sheet.columns) (filled : raw ≠ "") : Sheet where
  rows := sheet.rows
  columns := sheet.columns
  inputs := sheet.inputs.insert a raw
  rows_le := sheet.rows_le
  columns_le := sheet.columns_le
  inside b other h := by
    rw [Std.ExtTreeMap.getElem?_insert] at h
    split at h
    · next same => cases Std.LawfulEqOrd.eq_of_compare same; exact fits
    · exact sheet.inside b other h
  nonempty b other h := by
    rw [Std.ExtTreeMap.getElem?_insert] at h
    split at h
    · simp at h; exact h ▸ filled
    · exact sheet.nonempty b other h

/-- Types an input into a cell: the empty input clears it, any other makes the grid large enough
for it. Cells beyond the largest grid are refused. -/
def set (sheet : Sheet) (a : Address) (raw : String) : Except GridError Sheet :=
  if hr : maxRows ≤ a.row then .error (.rowOutOfBounds a.row (maxRows - 1))
  else if hc : maxColumns ≤ a.column then
    .error (.columnOutOfBounds (Address.columnLetters a.column))
  else if filled : raw = "" then .ok (sheet.clear a)
  else .ok ((sheet.ensureSize (a.row + 1) (a.column + 1)).insert a raw
    (by simp only [ensureSize]; omega) filled)

/-! ## Contents -/

def size (sheet : Sheet) : Nat := sheet.inputs.size

def isBlank (sheet : Sheet) : Bool := sheet.inputs.isEmpty

/-- The cells that are not blank and their inputs, row by row. -/
def entries (sheet : Sheet) : List (Address × String) := sheet.inputs.toList

/-- The cells that hold formulas and the sources of these, row by row. -/
def formulas (sheet : Sheet) : List (Address × String) :=
  sheet.entries.filter fun entry => isFormulaText entry.2

end Sheet
end PageCalc

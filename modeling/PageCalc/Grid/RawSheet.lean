import PageCalc.Grid.Sheet

/-!
# Sheets without their invariants

What a sheet is made of, and what is done to it one step after the other. Nothing keeps a grid from being too
large or an input from lying outside it, and what fails leaves the sheet as it was at that point.
-/

namespace PageCalc

/-- A grid and inputs, whether or not these lie inside it. -/
structure RawSheet where
  rows : Nat
  columns : Nat
  inputs : AddressMap String
deriving DecidableEq

/-- What a sheet is made of. -/
def Sheet.raw (sheet : Sheet) : RawSheet := ⟨sheet.rows, sheet.columns, sheet.inputs⟩

namespace RawSheet

/-- What changes a sheet and may fail on the way. The sheet is there whether it fails or not. -/
abbrev Edit (ε : Type) := ExceptT ε (StateM RawSheet)

def empty : RawSheet := ⟨0, 0, ∅⟩

def withSize (rows columns : Nat) : RawSheet := ⟨min rows maxRows, min columns maxColumns, ∅⟩

variable {ε : Type}

def ensureSize (rows columns : Nat) : Edit ε Unit :=
  modify fun sheet => { sheet with
    rows := max sheet.rows (min rows maxRows), columns := max sheet.columns (min columns maxColumns) }

/-- Refuses a cell beyond the largest grid. -/
def checkPosition (a : Address) : Edit GridError Unit :=
  if maxRows ≤ a.row then throw (.rowOutOfBounds a.row (maxRows - 1))
  else if maxColumns ≤ a.column then throw (.columnOutOfBounds (Address.columnLetters a.column))
  else return ()

def clearAt (a : Address) : Edit ε Unit := modify fun sheet => { sheet with inputs := sheet.inputs.erase a }

def setAt (a : Address) (raw : String) : Edit GridError Unit := do
  checkPosition a
  if raw = "" then clearAt a
  else
    ensureSize (a.row + 1) (a.column + 1)
    modify fun sheet => { sheet with inputs := sheet.inputs.insert a raw }

def set (address raw : String) : Edit GridError Unit := do
  let a ← MonadExcept.ofExcept (Address.ofText address)
  setAt a raw

def clear (address : String) : Edit GridError Unit := do
  let a ← MonadExcept.ofExcept (Address.ofText address)
  clearAt a

/-- Checks that the grid holds every input: the last one for its row, and all of them for their columns. -/
def validate (sheet : RawSheet) : Except GridError Unit :=
  match sheet.inputs.maxKey?.filter fun last => sheet.rows ≤ last.row with
  | some last => .error (.rowOutOfBounds last.row sheet.rows)
  | none =>
    match (sheet.inputs.keys.map Address.column).max?.filter fun column => sheet.columns ≤ column with
    | some column =>
      let letters := Address.columnLetters column
      .error (.other s!"column {letters} outside sheet extents ({sheet.columns} columns)")
    | none => .ok ()

end RawSheet
end PageCalc

import PageCalc.Evaluation.Expression
import PageCalc.Evaluation.Progress

/-!
# Reading cells

What a reference reads, and the value of a cell. References read cells through a reader that they
are given, in any monad that keeps the progress of an evaluation. The reader of cells finishes the
pending cells that a formula needs before the formula itself, so that chains of references inside a
page do not nest; a cell that is read while it is under evaluation closes a cycle.
-/

namespace PageCalc

abbrev Evaluating := StateM Progress

abbrev CellReader := CellKey → Evaluating Value

section

variable {m : Type → Type} [Monad m] [MonadStateOf Progress m]

/-! ## References -/

def readSeen (read : CellKey → m Value) (key : CellKey) : m Value :=
  Value.propagated <$> read key

/-- The cells of a range, as far as it lies in the grid. -/
def readRange (read : CellKey → m Value) (page : Nat) (range : Range) : m Value := do
  let sheet := (← get).sheet page
  let items ← (sheet.cellsIn range).mapM fun a => readSeen read ⟨page, a⟩
  return .list items

/-- A page of which neither a cell nor a range is named. -/
def readWholeSheet (w : Workbook) (read : CellKey → m Value) (page : Nat) : m Value :=
  match w.options.wholeSheet with
  | .grid => do
    match ((← get).sheet page).extent? with
    | some extent => readRange read page extent
    | none => return .list []
  | .cell a => readSeen read ⟨page, a⟩
  | .reject =>
    return .error (.fresh .reference "Whole-sheet reference needs a cell or range")

def readExternal (w : Workbook) (read : CellKey → m Value) (external : ExternalReference) :
    m Value := do
  match ← modifyGet fun p => p.resolve w external.page with
  | .error failure => return .error (.fresh .reference failure.message)
  | .ok page =>
    match external.target with
    | .cell a => readSeen read ⟨page, a⟩
    | .range range => readRange read page range
    | .wholeSheet => readWholeSheet w read page

def readReference (w : Workbook) (read : CellKey → m Value) (page : Nat) :
    Reference → m Value
  | .cell a => readSeen read ⟨page, a⟩
  | .range range => readRange read page range
  | .external external => readExternal w read external

/-! ## Cells -/

/-- Evaluates the formula of a cell; the cells that it reads are read by `read`. -/
def evaluateFormulaCell (w : Workbook) (read : CellKey → m Value) (key : CellKey)
    (source : String) : m Value := do
  modify fun p => p.enter key
  let outcome ← modifyGet fun p =>
    let (outcome, cache) := p.cache.parse source
    (outcome, { p with cache })
  let value ← match outcome with
    | .ok e => Value.finish <$> evaluateExpr w.library (readReference w read key.page) e
    | .error fault => pure (.error fault.toCellError)
  modifyGet fun p => p.leave key value

/-- Reads a cell. What is known or typed in is there at once, and a cell under evaluation closes
a cycle; the value of any other formula is found by `settle`. -/
def lookUp (settle : CellKey → String → m Value) : CellKey → m Value := fun key => do
  let p ← get
  match p.memo[key]? with
  | some value => return value
  | none =>
    if key ∈ p.stack then
      modify fun p => p.closeCycle key
      return .error .circular
    else match p.input key with
      | .blank => return .blank
      | .number x => return .number x
      | .text s => return .text s
      | .formula source => settle key source

end

/-- Evaluates the formula of a cell unless its value is known. -/
def finishCell (w : Workbook) (read : CellReader) (key : CellKey) (source : String) :
    Evaluating Value := do
  match (← get).memo[key]? with
  | some value => return value
  | none => evaluateFormulaCell w read key source

/-- Evaluates the pending cells that a formula needs, and then the formula. A cycle through
other pages may give the cell its value before its turn comes. -/
def settleCell (w : Workbook) (read : CellReader) (key : CellKey) (source : String) :
    Evaluating Value := do
  for a in (← get).pendingPrecedents key do
    match (← get).input ⟨key.page, a⟩ with
    | .formula other => discard <| finishCell w read ⟨key.page, a⟩ other
    | _ => pure ()
  finishCell w read key source

/-- Reads a cell when `depth` more formulas may be entered. -/
def readCell (w : Workbook) : (depth : Nat) → CellReader
  | 0 => lookUp fun _ _ => return .error .tooDeep
  | depth + 1 => lookUp (settleCell w (readCell w depth))

end PageCalc

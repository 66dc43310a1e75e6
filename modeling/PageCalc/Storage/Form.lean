import PageCalc.Evaluation.Result
import PageCalc.Grid.RawSheet
import PageCalc.Number.Count
import PageCalc.Storage.Error

/-!
# Stored sheets

The text of a sheet: a header with the size of the grid, and a line for each cell that is not
blank, row by row. The raw form holds the inputs of the cells, and a sheet is read back from it;
the display form holds what the cells show after an evaluation.
-/

namespace PageCalc

namespace Sheet

/-! ## Writing -/

def headerStart : List Char := "# sheetlink".toList

/-- The header: the numbers of rows and of columns. -/
def headerLine (sheet : Sheet) : List Char :=
  headerStart ++ " rows=".toList ++ Nat.toDigits 10 sheet.rows ++
    " cols=".toList ++ Nat.toDigits 10 sheet.columns

def cellLine (a : Address) (text : String) : List Char :=
  a.chars ++ '=' :: Escape.encode text.toList

/-- The lines of a form that shows `shown` for a cell and its input. -/
def formLines (sheet : Sheet) (shown : Address → String → String) : List (List Char) :=
  sheet.headerLine :: sheet.entries.map fun (a, raw) => cellLine a (shown a raw)

/-- The form that shows `shown` for a cell and its input; every line ends in a line feed. -/
def form (sheet : Sheet) (shown : Address → String → String) : String :=
  String.ofList ((sheet.formLines shown).flatMap fun line => line ++ ['\n'])

def rawForm (sheet : Sheet) : String := sheet.form fun _ raw => raw

/-- What the display form shows for the value of a cell: of an error the token, and behind it
the message if there is one and `messages` asks for it. -/
def shownText (messages : Bool) (value : CellValue) : String :=
  match value.error? with
  | some e => if messages && !e.message.isEmpty then e.text else value.display
  | none => value.display

/-- The form that holds the values of the cells. A cell without a value keeps its input. -/
def displayForm (sheet : Sheet) (result : Result) (messages : Bool) : String :=
  sheet.form fun a raw => (result[a]?).elim raw (shownText messages)

/-! ## Reading -/

def dropReturn (line : List Char) : List Char :=
  if line.getLast? = some '\r' then line.dropLast else line

/-- The lines that are not empty, with their numbers. -/
def numberedLines (cs : List Char) : List (List Char × Nat) :=
  (((Text.pieces (· == '\n') cs).map dropReturn).zipIdx 1).filter fun line => !line.1.isEmpty

/-- The sizes that a header gives, as far as it was read. -/
structure HeaderSizes where
  rows? : Option Nat := none
  columns? : Option Nat := none

/-- Numbers of rows in a header are below this bound. -/
def rowCountBound : Nat := 4294967296

/-- Numbers of columns in a header are below this bound. -/
def columnCountBound : Nat := 65536

/-- Reads a word of a header. Of two words for one size the later one counts. -/
def readHeaderField (sizes : HeaderSizes) (field : List Char) :
    Except LineError HeaderSizes :=
  let fault := LineError.headerField (String.ofList field)
  match Text.cutAt? '=' field with
  | some (['r', 'o', 'w', 's'], digits) =>
    match Number.count? rowCountBound digits with
    | some rows => .ok { sizes with rows? := some rows }
    | none => .error fault
  | some (['c', 'o', 'l', 's'], digits) =>
    match Number.count? columnCountBound digits with
    | some columns => .ok { sizes with columns? := some columns }
    | none => .error fault
  | _ => .error fault

/-- The blank sheet of the size that the words of a header give. -/
def ofHeaderFields (fields : List (List Char)) : Except LineError Sheet := do
  let sizes ← fields.foldlM readHeaderField {}
  match sizes.rows?, sizes.columns? with
  | some rows, some columns => return withSize rows columns
  | _, _ => throw .headerSizes

def readHeader (line : List Char) (number : Nat) : Except StorageError Sheet :=
  match Text.afterStart? headerStart line with
  | none => .error .missingHeader
  | some rest => (ofHeaderFields (Text.words rest)).mapError (.malformedLine number)

def setLine (sheet : Sheet) (line : List Char) : Except LineError Sheet := do
  let some (address, text) := Text.cutAt? '=' line | throw .noEquals
  let a ← (Address.ofText (String.ofList address)).mapError .address
  let text ← (Escape.decode text).mapError .escape
  (sheet.set a (String.ofList text)).mapError .address

def setLines (sheet : Sheet) (lines : List (List Char × Nat)) : Except StorageError Sheet :=
  lines.foldlM (fun sheet (line, number) =>
    (sheet.setLine line).mapError (.malformedLine number)) sheet

/-- Reads a sheet from its raw form. Empty lines are passed over, and a line may end in a
carriage return and a line feed. -/
def ofForm (text : String) : Except StorageError Sheet :=
  match numberedLines text.toList with
  | [] => .error .missingHeader
  | (header, number) :: lines => do
    let sheet ← readHeader header number
    sheet.setLines lines

end Sheet

/-! ## Reading, step by step

A stored sheet is read into a new one, which is given up if a line is refused. -/

namespace RawSheet

def setLine (line : List Char) : Edit LineError Unit := do
  let some (address, text) := Text.cutAt? '=' line | throw .noEquals
  let a ← MonadExcept.ofExcept ((Address.ofText (String.ofList address)).mapError .address)
  let text ← MonadExcept.ofExcept ((Escape.decode text).mapError .escape)
  ExceptT.adapt .address (setAt a (String.ofList text))

def setLines (lines : List (List Char × Nat)) : Edit StorageError Unit :=
  lines.forM fun (line, number) => ExceptT.adapt (.malformedLine number) (setLine line)

def ofForm (text : String) : Except StorageError RawSheet :=
  match Sheet.numberedLines text.toList with
  | [] => .error .missingHeader
  | (header, number) :: lines => do
    let sheet ← Sheet.readHeader header number
    let (outcome, sheet) := (setLines lines).run.run sheet.raw
    outcome
    return sheet

end RawSheet
end PageCalc

import PageCalc.Command.Request
import PageCalc.Page.Directory
import PageCalc.Storage.FileTree

/-!
# Running commands

What a request comes to: the texts to print and the code to exit with, or first a file to write.
A failure is reported with the faults behind it.
-/

namespace PageCalc

/-! ## Reports -/

/-- What the program prints when it ends. -/
structure Report where
  code : Nat
  output : String
  notes : String
deriving DecidableEq

/-- What a request comes to. -/
inductive Effect where
  | report (report : Report)
  /-- A text has to be written to a file; the report depends on how that goes. -/
  | write (path text : String) (next : Except FileError Unit → Report)

/-- Why a request fails, and the faults behind it. -/
structure Failure where
  message : String
  causes : List String
deriving DecidableEq

namespace Failure

/-- A text whose first line begins with `lead`, and whose other lines are indented by `indent`
blanks. -/
def indented (lead : String) (indent : Nat) (text : String) : String :=
  let lines := (Text.pieces (· == '\n') text.toList).map String.ofList
  lead ++ ("\n" ++ "".pushn ' ' indent).intercalate lines

/-- The lines of the causes. They have numbers if there are several. -/
def causeLines : List String → List String
  | [cause] => [indented "    " 4 cause]
  | causes => causes.zipIdx.map fun (cause, place) => indented s!"    {place}: " 7 cause

def text (failure : Failure) : String :=
  let causes := if failure.causes.isEmpty then []
    else ["\n\nCaused by:\n", "\n".intercalate (causeLines failure.causes)]
  "Error: " ++ failure.message ++ String.join causes ++ "\n"

def report (failure : Failure) (notes : String) : Report := ⟨1, "", notes ++ failure.text⟩

end Failure

/-! ## Evaluation -/

def Disk.openSheet (disk : Disk) (path : String) : Except Failure Sheet :=
  (disk.readSheet path).mapError fun fault => ⟨s!"Failed to open '{path}'", fault.causes⟩

namespace EvaluationRequest

/-- The identifier of the page: that of the request, or else the name of the file. -/
def pageId (request : EvaluationRequest) : String :=
  request.pageId?.getD (((Path.fileName? request.input).map Path.stem).getD "")

def options (request : EvaluationRequest) : Except Failure Options := do
  let wholeSheet ←
    if request.rejectWholeSheet then pure WholeSheetPolicy.reject
    else match request.defaultCell? with
      | none => pure .grid
      | some cell =>
        match Address.ofText cell with
        | .ok a => pure (.cell a)
        | .error fault => throw ⟨s!"Invalid --default-cell '{cell}'", [fault.message]⟩
  match request.maxDepth? with
  | none => return { wholeSheet }
  | some 0 => throw ⟨"--max-depth must be at least 1", []⟩
  | some maxDepth => return { wholeSheet, maxDepth }

/-- The resolver of the evaluation, and what is noted of it. -/
def resolver (request : EvaluationRequest) (disk : Disk) : Except Failure (Resolver × String) :=
  match request.pages? with
  | none => .ok (Resolver.none, "")
  | some directory =>
    if disk.isDirectory directory then
      .ok (disk.resolver directory, s!"Resolving pages from '{directory}'\n")
    else .error ⟨s!"Pages directory '{directory}' does not exist", []⟩

end EvaluationRequest

def Statistics.note (s : Statistics) : String :=
  let cells := s.cells
  let formulas := s.formulas
  let errors := s.errors
  let circular := s.circular
  s!"Evaluated {cells} cells ({formulas} formulas, {errors} errors, {circular} circular)\n"

/-- A sheet with its values, and what is noted of their evaluation. -/
structure Evaluated where
  sheet : Sheet
  result : Result
  notes : String

namespace EvaluationRequest

def evaluate (request : EvaluationRequest) (disk : Disk) : Except Failure Evaluated := do
  let sheet ← disk.openSheet request.input
  let options ← request.options
  let (resolver, note) ← request.resolver disk
  let w : Workbook := { sheet, pageId := request.pageId, resolver, options }
  let result := w.evaluate
  return ⟨sheet, result, note ++ (Statistics.ofResult sheet result).note⟩

end EvaluationRequest

namespace Evaluated

def display (e : Evaluated) (messages : Bool) : String := e.sheet.displayForm e.result messages

/-- The report after the display form was written to a file, or was not. -/
def reportWritten (e : Evaluated) (path : String) (outcome : Except FileError Unit) : Report :=
  let count := e.result.size
  match outcome with
  | .ok () => ⟨0, "", e.notes ++ s!"Wrote {count} cells to '{path}'\n"⟩
  | .error fault => Failure.report ⟨s!"Failed to write '{path}'", [fault.message]⟩ e.notes

end Evaluated

/-! ## References -/

/-- The references of each formula of a sheet, and the cycles among them. -/
def Dependencies.listing (g : Dependencies) : String :=
  let formulaLine (a : Address) : String :=
    let references := (g.precedentsOf a).map Address.text ++
      (g.externalsOf a).map ExternalReference.text
    a.text ++ ": " ++ ", ".intercalate references ++ "\n"
  let cycleLine (cycle : List Address) : String :=
    "  " ++ ", ".intercalate (cycle.map Address.text) ++ "\n"
  let cycles := g.cycles.cycles
  String.join (g.formulaCells.map formulaLine) ++
    if cycles.isEmpty then "" else "cycles:\n" ++ String.join (cycles.map cycleLine)

/-! ## Requests -/

namespace Request

open Effect

def run (disk : Disk) : Request → Effect
  | evaluate request output? =>
    match request.evaluate disk, output? with
    | .error failure, _ => report (failure.report "")
    | .ok e, none => report ⟨0, e.display request.messages, e.notes⟩
    | .ok e, some path => write path (e.display request.messages) (e.reportWritten path)
  | snapshot request =>
    match request.evaluate disk with
    | .error failure => report (failure.report "")
    | .ok e => report ⟨0, e.sheet.rawForm ++ "\n" ++ e.display request.messages, e.notes⟩
  | dependencies input =>
    match disk.openSheet input with
    | .error failure => report (failure.report "")
    | .ok sheet => report ⟨0, (Dependencies.ofSheet sheet .empty).1.listing, ""⟩

end Request

/-- What is noted of arguments that are out of place. -/
def misuseNote : String :=
  "error: unexpected arguments\n\nFor more information, try '--help'.\n"

def Reading.run (disk : Disk) : Reading → Effect
  | .request asked => asked.run disk
  | .inform text => .report ⟨0, text, ""⟩
  | .misuse => .report ⟨2, "", misuseNote⟩

/-! ## Runs on files in memory -/

namespace FileTree

def disk (tree : FileTree) : Disk := ⟨tree.read, tree.isDirectory⟩

/-- The report of a run with arguments, and the files after it. -/
def run (tree : FileTree) (arguments : List String) : Report × FileTree :=
  match (Reading.ofArguments arguments).run tree.disk with
  | .report report => (report, tree)
  | .write path text next =>
    match tree.write path text with
    | .ok written => (next (.ok ()), written)
    | .error fault => (next (.error fault), tree)

end FileTree
end PageCalc

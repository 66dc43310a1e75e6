import PageCalc.Command.Run

/-!
# The program

Reads the files that a request names, runs it, and writes and prints what comes of it.
-/

namespace PageCalc

/-- The number of a fault of the system, which may be reported with a minus sign. -/
def systemCode (code : UInt32) : Nat :=
  if code.toNat < 2147483648 then code.toNat else 4294967296 - code.toNat

def FileError.ofSystem (e : IO.Error) : FileError :=
  match e with
  | .noFileOrDirectory .. => .notFound
  | .inappropriateType _ code _ =>
    if systemCode code = 20 then .notDirectory else .isDirectory
  | .invalidArgument _ code _ =>
    if systemCode code = 36 then .nameTooLong else .other (toString e)
  | .userError _ => .notText
  | _ => .other (toString e)

/-- Carries out an action on files and keeps its fault. -/
def attempt {α : Type} (action : IO α) : IO (Except FileError α) := do
  try return .ok (← action)
  catch e => return .error (.ofSystem e)

/-- The texts of the page files in a directory, by their paths. -/
def loadPages (directory : String) : IO (List (String × Except FileError String)) := do
  let place := (← IO.currentDir) / directory
  if !(← place.isDir) then return []
  let pageFiles := (← place.readDir).toList.filter fun entry => entry.fileName.endsWith ".sheet"
  pageFiles.mapM fun entry => do
    return (Path.join directory entry.fileName, ← attempt (IO.FS.readFile entry.path))

def loadDisk (request : Request) : IO Disk := do
  let input ← attempt (IO.FS.readFile request.input)
  let directory := request.pages?.getD ""
  let pages ← if request.pages?.isSome then loadPages directory else pure []
  let found ← ((← IO.currentDir) / directory).isDir
  let texts := (request.input, input) :: pages
  return {
    read := fun path => (texts.lookup path).getD (.error .notFound)
    isDirectory := fun path => path = directory && found }

def perform : Effect → IO Report
  | .report report => return report
  | .write path text next => return next (← attempt (IO.FS.writeFile path text))

end PageCalc

open PageCalc in
/-- Runs the program and exits with the code of the report. -/
def main (arguments : List String) : IO UInt32 := do
  let reading := Reading.ofArguments arguments
  let disk ← match reading with
    | .request request => loadDisk request
    | _ => pure ⟨fun _ => .error .notFound, fun _ => false⟩
  let report ← perform (reading.run disk)
  (← IO.getStdout).putStr report.output
  (← IO.getStderr).putStr report.notes
  return report.code.toUInt32

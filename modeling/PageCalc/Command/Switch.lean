import PageCalc.Number.Count

/-!
# Commands and their options

What the program can be asked to do, the options of each command, and the help texts that list
them.
-/

namespace PageCalc

/-- An option of a command. -/
inductive Switch where
  | pages
  | pageId
  | defaultCell
  | rejectWholeSheet
  | noMessages
  | maxDepth
  | output
deriving DecidableEq

/-- What an option wants behind it. -/
inductive SwitchValue where
  | nothing
  | text
  | path
  | count
deriving DecidableEq

/-- Numbers that options take are below this bound. -/
def switchCountBound : Nat := Nat.pow 2 64

def SwitchValue.accepts (value : SwitchValue) (text : String) : Bool :=
  match value with
  | nothing => false
  | .text => true
  | path => !text.isEmpty
  | count => (Number.count? switchCountBound text.toList).isSome

namespace Switch

def name : Switch → String
  | pages => "pages"
  | pageId => "page-id"
  | defaultCell => "default-cell"
  | rejectWholeSheet => "reject-whole-sheet"
  | noMessages => "no-messages"
  | maxDepth => "max-depth"
  | output => "output"

def letter? : Switch → Option Char
  | pages => some 'p'
  | output => some 'o'
  | _ => none

def value : Switch → SwitchValue
  | pages => .path
  | pageId => .text
  | defaultCell => .text
  | rejectWholeSheet => .nothing
  | noMessages => .nothing
  | maxDepth => .count
  | output => .path

def purpose : Switch → String
  | pages => "Directory holding other pages as `<id>.sheet` files"
  | pageId => "Identifier of the input page (default: the file stem)"
  | defaultCell => "Cell that a bare `@[Label](id)` reference reads"
  | rejectWholeSheet => "Treat a bare `@[Label](id)` reference as an error"
  | noMessages => "Show error tokens without their messages"
  | maxDepth => "Maximum nesting of cross-page reads"
  | output => "Output file (default: stdout)"

end Switch

/-- What the program can be asked to do with a sheet. -/
inductive Command where
  | evaluate
  | snapshot
  | dependencies
deriving DecidableEq

namespace Command

def all : List Command := [evaluate, snapshot, dependencies]

def name : Command → String
  | evaluate => "eval"
  | snapshot => "snapshot"
  | dependencies => "deps"

def purpose : Command → String
  | evaluate => "Evaluate a sheet file and print its display form"
  | snapshot => "Print the raw form followed by the display form"
  | dependencies => "Show each formula cell's references and any local cycles"

def evaluationSwitches : List Switch :=
  [.pages, .pageId, .defaultCell, .rejectWholeSheet, .noMessages, .maxDepth]

def switches : Command → List Switch
  | evaluate => evaluationSwitches ++ [.output]
  | snapshot => evaluationSwitches
  | dependencies => []

def ofName? (name : String) : Option Command := all.find? (·.name = name)

/-! ## Help -/

/-- A list of things to type and what they are for, the latter below each other. -/
def twoColumns (entries : List (String × String)) : String :=
  let width := (entries.map (·.1.length)).foldl max 0
  String.join (entries.map fun (left, right) =>
    "  " ++ left ++ "".pushn ' ' (width - left.length) ++ "  " ++ right ++ "\n")

def usage (letter? : Option Char) (name : String) (wants : Bool) : String :=
  let short := match letter? with
    | some letter => "-" ++ letter.toString ++ ", "
    | none => "    "
  let placeholder := (name.map fun c => if c = '-' then '_' else c).toUpper
  short ++ "--" ++ name ++ if wants then " <" ++ placeholder ++ ">" else ""

def helpEntry : String × String := (usage (some 'h') "help" false, "Print help")

def help (command : Command) : String :=
  let marks := if command.switches.isEmpty then "" else " [OPTIONS]"
  let options := command.switches.map fun switch =>
    (usage switch.letter? switch.name (switch.value ≠ .nothing), switch.purpose)
  command.purpose ++ "\n\nUsage: sheetlink " ++ command.name ++ marks ++ " <INPUT>\n\n" ++
    "Arguments:\n" ++ twoColumns [("<INPUT>", "Input sheet file")] ++
    "\nOptions:\n" ++ twoColumns (options ++ [helpEntry])

/-- What the command that prints help texts is for. -/
def helpPurpose : String := "Print this message or the help of the given subcommand(s)"

/-- The help text of the command that prints help texts. -/
def helpOfHelp : String :=
  helpPurpose ++ "\n\nUsage: sheetlink help [COMMAND]...\n\nArguments:\n" ++
    twoColumns [("[COMMAND]...", "Print help for the subcommand(s)")]

def overview : String :=
  "Evaluate spreadsheet pages that reference each other\n\n" ++
    "Usage: sheetlink <COMMAND>\n\nCommands:\n" ++
    twoColumns (all.map (fun command => (command.name, command.purpose)) ++
      [("help", helpPurpose)]) ++
    "\nOptions:\n" ++
    twoColumns [helpEntry, (usage (some 'V') "version" false, "Print version")]

def version : String := "sheetlink 0.1.0\n"

end Command
end PageCalc

import PageCalc.Command.Switch
import PageCalc.Text.Blank

/-!
# Requests

The arguments of the program as a request. Arguments are read from the left, and the first one
that is out of place ends the reading, as does one that asks for help.
-/

namespace PageCalc

/-! ## Words -/

/-- The shape of an argument. -/
inductive Word where
  | separator
  /-- The name of an option, and what is attached to it by an equals sign. -/
  | long (name : String) (attached? : Option String)
  /-- The letter of an option, and what is attached to it. -/
  | short (letter : Char) (attached : List Char)
  | plain
deriving DecidableEq

def Word.ofText (text : String) : Word :=
  match text.toList with
  | ['-', '-'] => .separator
  | '-' :: '-' :: rest =>
    match Text.cutAt? '=' rest with
    | some (name, value) => .long (String.ofList name) (some (String.ofList value))
    | none => .long (String.ofList rest) none
  | '-' :: letter :: attached => .short letter attached
  | _ => .plain

/-! ## The arguments of a command -/

/-- Why the reading of arguments ends early. -/
inductive Halt where
  | help
  /-- An argument is out of place, or one is missing. -/
  | misuse
deriving DecidableEq

/-- What is known of the arguments of a command. -/
structure Given where
  settings : List (Switch × String) := []
  input? : Option String := none
  awaiting? : Option Switch := none
  onlyInputs : Bool := false

namespace Given

def has (given : Given) (switch : Switch) : Bool := (given.settings.lookup switch).isSome

def value? (given : Given) (switch : Switch) : Option String := given.settings.lookup switch

/-- Notes an option and its value. No option is given twice. -/
def note (given : Given) (switch : Switch) (value : String) : Except Halt Given :=
  if given.has switch then .error .misuse
  else .ok { given with settings := (switch, value) :: given.settings, awaiting? := none }

def noteValue (given : Given) (switch : Switch) (value : String) : Except Halt Given :=
  if switch.value.accepts value then given.note switch value else .error .misuse

def noteInput (given : Given) (path : String) : Except Halt Given :=
  if given.input?.isSome || path.isEmpty then .error .misuse
  else .ok { given with input? := some path }

def noteSwitch (given : Given) (switch : Switch) (attached? : Option String) :
    Except Halt Given :=
  match switch.value, attached? with
  | .nothing, none => given.note switch ""
  | .nothing, some _ => .error .misuse
  | _, some value => given.noteValue switch value
  | _, none => .ok { given with awaiting? := some switch }

def readLong (command : Command) (given : Given) (name : String) (attached? : Option String) :
    Except Halt Given :=
  if name = "help" then .error (if attached?.isSome then .misuse else .help)
  else match command.switches.find? (·.name = name) with
    | some switch => given.noteSwitch switch attached?
    | none => .error .misuse

/-- What is attached to a letter; an equals sign may stand between the two. -/
def attachedValue? : List Char → Option String
  | [] => none
  | '=' :: value => some (String.ofList value)
  | value => some (String.ofList value)

def readShort (command : Command) (given : Given) (letter : Char) (attached : List Char) :
    Except Halt Given :=
  if letter = 'h' then .error .help
  else match command.switches.find? (·.letter? = some letter) with
    | some switch => given.noteSwitch switch (attachedValue? attached)
    | none => .error .misuse

def read (command : Command) (given : Given) (text : String) : Except Halt Given :=
  if given.onlyInputs then given.noteInput text
  else match given.awaiting?, Word.ofText text with
    | some switch, .plain => given.noteValue switch text
    | some _, _ => .error .misuse
    | none, .separator => .ok { given with onlyInputs := true }
    | none, .long name attached? => given.readLong command name attached?
    | none, .short letter attached => given.readShort command letter attached
    | none, .plain => given.noteInput text

end Given

/-! ## Requests -/

/-- A sheet to evaluate and how to do it. -/
structure EvaluationRequest where
  input : String
  pages? : Option String
  pageId? : Option String
  defaultCell? : Option String
  rejectWholeSheet : Bool
  messages : Bool
  maxDepth? : Option Nat

/-- What the program is asked to do. -/
inductive Request where
  /-- To evaluate a sheet, and to write the values to a file or print them. -/
  | evaluate (request : EvaluationRequest) (output? : Option String)
  | snapshot (request : EvaluationRequest)
  | dependencies (input : String)

/-- What arguments say. -/
inductive Reading where
  | request (request : Request)
  | inform (text : String)
  | misuse

namespace EvaluationRequest

def ofGiven (given : Given) (input : String) : EvaluationRequest where
  input
  pages? := given.value? .pages
  pageId? := given.value? .pageId
  defaultCell? := given.value? .defaultCell
  rejectWholeSheet := given.has .rejectWholeSheet
  messages := !given.has .noMessages
  maxDepth? := (given.value? .maxDepth).bind fun text =>
    Number.count? switchCountBound text.toList

end EvaluationRequest

namespace Request

def input : Request → String
  | evaluate request _ => request.input
  | snapshot request => request.input
  | dependencies input => input

def pages? : Request → Option String
  | evaluate request _ => request.pages?
  | snapshot request => request.pages?
  | dependencies _ => none

/-- The request for a command with all its arguments. -/
def ofGiven (command : Command) (given : Given) : Except Halt Request := do
  let some input := given.input? | throw .misuse
  if given.awaiting?.isSome || (given.has .defaultCell && given.has .rejectWholeSheet) then
    throw .misuse
  let request := EvaluationRequest.ofGiven given input
  return match command with
    | .evaluate => evaluate request (given.value? .output)
    | .snapshot => snapshot request
    | .dependencies => dependencies input

end Request

namespace Reading

def ofCommand (command : Command) (arguments : List String) : Reading :=
  match arguments.foldlM (Given.read command) {} >>= Request.ofGiven command with
  | .ok asked => .request asked
  | .error .help => .inform command.help
  | .error .misuse => .misuse

def ofHelp : List String → Reading
  | [] => .inform Command.overview
  | [name] =>
    match Command.ofName? name with
    | some command => .inform command.help
    | none => if name = "help" then .inform Command.helpOfHelp else .misuse
  | _ => .misuse

def ofArguments : List String → Reading
  | [] => .misuse
  | first :: rest =>
    match Word.ofText first with
    | .long "help" none => .inform Command.overview
    | .short 'h' _ => .inform Command.overview
    | .long "version" none => .inform Command.version
    | .short 'V' _ => .inform Command.version
    | .plain =>
      match Command.ofName? first with
      | some command => ofCommand command rest
      | none => if first = "help" then ofHelp rest else .misuse
    | _ => .misuse

end Reading
end PageCalc

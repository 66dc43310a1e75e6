import PageCalc.Grid.Error
import PageCalc.Storage.Escape

/-!
# Storage errors

Why a file cannot be read or written, and why a text is no stored sheet.
-/

namespace PageCalc

/-- The faults of reading and writing files. -/
inductive FileError where
  | notFound
  | notDirectory
  | isDirectory
  | nameTooLong
  | notText
  | other (detail : String)
deriving DecidableEq

def FileError.message : FileError → String
  | notFound => "No such file or directory (os error 2)"
  | notDirectory => "Not a directory (os error 20)"
  | isDirectory => "Is a directory (os error 21)"
  | nameTooLong => "File name too long (os error 36)"
  | notText => "stream did not contain valid UTF-8"
  | other detail => detail

/-- The faults of a line of a stored sheet. -/
inductive LineError where
  | headerField (field : String)
  | headerSizes
  /-- There is no equals sign between an address and a text. -/
  | noEquals
  | address (fault : GridError)
  | escape (fault : EscapeError)
deriving DecidableEq

def LineError.message : LineError → String
  | headerField field => s!"bad header field '{field}'"
  | headerSizes => "header needs both rows= and cols="
  | noEquals => "expected '<address>=<value>'"
  | address fault => fault.message
  | escape fault => fault.message

/-- The faults of stored sheets. -/
inductive StorageError where
  | missingHeader
  | malformedLine (line : Nat) (fault : LineError)
  | unreadable (fault : FileError)
deriving DecidableEq

namespace StorageError

def message : StorageError → String
  | missingHeader => "Missing '# sheetlink rows=<R> cols=<C>' header"
  | malformedLine line fault => s!"Line {line}: {fault.message}"
  | unreadable fault => s!"IO error: {fault.message}"

def causes (e : StorageError) : List String :=
  match e with
  | unreadable fault => [e.message, fault.message]
  | _ => [e.message]

end StorageError
end PageCalc

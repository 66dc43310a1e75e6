/-!
# Cell errors

An error is the value of a cell that has no other. A cell that reads an error has a propagated
error, which still tells what went wrong at first.
-/

namespace PageCalc

/-- What went wrong in a cell. -/
inductive ErrorKind where
  | parse
  | circular
  | reference
  | division
  | value
  /-- An unknown function, or one with a wrong number of arguments. -/
  | name
  /-- A cell that was read holds an error. -/
  | propagated
deriving DecidableEq

namespace ErrorKind

def all : List ErrorKind := [parse, circular, reference, division, value, name, propagated]

def code : ErrorKind → String
  | parse => "PARSE"
  | circular => "CIRCULAR"
  | reference => "REF"
  | division => "DIV0"
  | value => "VALUE"
  | name => "NAME"
  | propagated => "PROPAGATED"

/-- What is shown in place of a value. A propagated error shows its origin, so its own token is
not seen. -/
def token : ErrorKind → String
  | parse => "#PARSE!"
  | circular => "#CIRCULAR!"
  | reference => "#ERROR"
  | division => "#DIV/0!"
  | value => "#VALUE!"
  | name => "#NAME?"
  | propagated => "#ERROR"

def ofToken? (token : String) : Option ErrorKind := all.find? (·.token = token)

/-- Every kind but the propagated one is told by its token. -/
theorem ofToken?_token (kind : ErrorKind) (h : kind ≠ propagated) :
    ofToken? kind.token = some kind := by
  cases kind <;> first | rfl | exact absurd rfl h

end ErrorKind

/-- An error with the kind of the error that it goes back to and a text for the user. -/
structure CellError where
  kind : ErrorKind
  origin : ErrorKind
  message : String
deriving DecidableEq

namespace CellError

def fresh (kind : ErrorKind) (message : String) : CellError := ⟨kind, kind, message⟩

def circular : CellError := fresh .circular "Circular reference detected"

def division : CellError := fresh .division "Division by zero"

/-- The error of many values where one is expected. -/
def severalValues : CellError := fresh .value "Range used where a single value is expected"

def overflow : CellError := fresh .value "Numeric overflow"

def tooDeep : CellError := fresh .value "Reference chain too deep"

/-- The error as seen from a cell that reads it. -/
def propagated (e : CellError) : CellError := { e with kind := .propagated }

def token (e : CellError) : String := e.origin.token

def text (e : CellError) : String := s!"{e.token} ({e.message})"

@[simp]
theorem propagated_propagated (e : CellError) : e.propagated.propagated = e.propagated := rfl

@[simp]
theorem token_propagated (e : CellError) : e.propagated.token = e.token := rfl

end CellError
end PageCalc

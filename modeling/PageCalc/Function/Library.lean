import PageCalc.Function.Aggregate
import PageCalc.Function.Choice
import PageCalc.Function.Wording
import Std.Data.ExtTreeMap

/-!
# Libraries of functions

The functions that formulas may call, found by their names without regard to case.
-/

namespace PageCalc

/-- Functions by their names in upper case. -/
structure Library where
  functions : Std.ExtTreeMap String Function

namespace Library

def empty : Library := ⟨∅⟩

/-- The library with one more function; it takes the place of one of the same name. -/
def register (library : Library) (function : Function) : Library :=
  ⟨library.functions.insert (Text.upper function.name) function⟩

def find? (library : Library) (name : String) : Option Function :=
  library.functions[Text.upper name]?

/-- The names of the functions as they were registered, in order. -/
def names (library : Library) : List String :=
  (library.functions.toList.map (·.2.name)).mergeSort

def ofList (functions : List Function) : Library := functions.foldl register empty

def builtin : Library :=
  ofList (Function.aggregates ++ Function.choices ++ Function.wordings)

end Library
end PageCalc

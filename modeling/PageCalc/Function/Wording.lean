import PageCalc.Function.Basic
import PageCalc.Text.Blank

/-!
# Functions of texts

Joining texts, their length and case, and the blanks in them.
-/

namespace PageCalc.Function

open Value

def join (arguments : List Value) : Outcome :=
  .ok (text (String.join ((allMembers arguments).map toText)))

/-- What a function makes of the text of its only argument. An error is passed on. -/
def onText (make : String → Value) (arguments : List Value) : Outcome :=
  let v := scalarArgument arguments 0
  .ok (if v.isError then v else make v.toText)

def length : List Value → Outcome := onText fun s => number (Float.ofNat s.length)

def upper : List Value → Outcome := onText fun s => text (Text.upper s)

def lower : List Value → Outcome := onText fun s => text (Text.lower s)

/-- The words of a text with single spaces between them. -/
def tidy (s : String) : String :=
  String.ofList ((Text.words s.toList).intersperse [' ']).flatten

/-- The text without the blanks at its ends and with single spaces inside. -/
def trim : List Value → Outcome := onText fun s => text (tidy s)

def wordings : List Function := [
  ⟨"CONCAT", 1, none, .eager join⟩,
  ⟨"LEN", 1, some 1, .eager length⟩,
  ⟨"UPPER", 1, some 1, .eager upper⟩,
  ⟨"LOWER", 1, some 1, .eager lower⟩,
  ⟨"TRIM", 1, some 1, .eager trim⟩]

end PageCalc.Function

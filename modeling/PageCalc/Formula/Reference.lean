import PageCalc.Grid.Range

/-!
# References

A formula refers to cells and ranges of its own sheet, and to cells, ranges or the whole sheet of
another page, as in `@[Sales](q1):B2`.
-/

namespace PageCalc

/-- Names another page. The identifier finds it; the label is for the reader. -/
structure PageRef where
  identifier : String
  label : String
deriving DecidableEq

def PageRef.text (page : PageRef) : String := s!"@[{page.label}]({page.identifier})"

/-- What is read on another page. -/
inductive PageTarget where
  | wholeSheet
  | cell (address : Address)
  | range (range : Range)
deriving DecidableEq

/-- A reference to another page. -/
structure ExternalReference where
  page : PageRef
  target : PageTarget
deriving DecidableEq

def ExternalReference.text (external : ExternalReference) : String :=
  match external.target with
  | .wholeSheet => external.page.text
  | .cell address => s!"{external.page.text}:{address}"
  | .range range => s!"{external.page.text}:{range}"

/-- A reference in a formula. -/
inductive Reference where
  | cell (address : Address)
  | range (range : Range)
  | external (external : ExternalReference)
deriving DecidableEq

def Reference.text : Reference → String
  | .cell a => a.text
  | .range r => r.text
  | .external e => e.text

end PageCalc

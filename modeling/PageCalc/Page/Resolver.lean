import PageCalc.Formula.Reference
import PageCalc.Grid.Sheet

/-!
# Resolvers

A resolver finds the sheet of the page that a reference names. Evaluation knows other pages only
through it.
-/

namespace PageCalc

/-- A page that was found, under the identifier that it calls itself. -/
structure ResolvedPage where
  id : String
  title : String
  sheet : Sheet

/-- Why a page was not found. The message is shown in every cell that reads the page. -/
structure ResolveError where
  id : String
  title : Option String
  message : String
deriving DecidableEq

namespace ResolveError

def text (e : ResolveError) : String := s!"{e.id}: {e.message}"

/-- A failure to find the page of a reference, whose label stands for the title. -/
def about (page : PageRef) (message : String) : ResolveError :=
  ⟨page.identifier, some page.label, message⟩

def notFound (page : PageRef) : ResolveError := about page "Page not found"

end ResolveError

abbrev Resolver := PageRef → Except ResolveError ResolvedPage

def Resolver.none : Resolver := fun page => .error (.notFound page)

end PageCalc

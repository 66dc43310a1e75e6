import PageCalc.Page.Resolver
import PageCalc.Storage.Form
import PageCalc.Storage.Path

/-!
# Directories of pages

A directory that holds each page in a file named after the identifier of the page. The files hold
no titles, so a page has the label of the reference as its title.
-/

namespace PageCalc

/-- What commands see of the files there are. -/
structure Disk where
  read : String → Except FileError String
  isDirectory : String → Bool

namespace Disk

/-- Whether an identifier can be the name of a file. -/
def isFileName (id : String) : Bool :=
  id ≠ "" && id ≠ "." && id ≠ ".." &&
    id.toList.all fun c => c ≠ '/' && c ≠ '\\' && c ≠ Char.ofNat 0

def pagePath (directory id : String) : String := Path.join directory (id ++ ".sheet")

def readSheet (disk : Disk) (path : String) : Except StorageError Sheet := do
  let text ← (disk.read path).mapError .unreadable
  Sheet.ofForm text

def resolver (disk : Disk) (directory : String) : Resolver := fun page =>
  if !isFileName page.identifier then .error (.about page "Invalid page identifier")
  else match disk.readSheet (pagePath directory page.identifier) with
    | .ok sheet => .ok ⟨page.identifier, page.label, sheet⟩
    | .error (.unreadable .notFound) => .error (.notFound page)
    | .error fault => .error (.about page s!"Unreadable page: {fault.message}")

end Disk
end PageCalc

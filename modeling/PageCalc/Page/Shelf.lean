import PageCalc.Page.Resolver
import Std.Data.ExtTreeMap

/-!
# Shelves

A shelf keeps pages by their identifiers, and resolves references to them. It may also know of a
page that must not be read.
-/

namespace PageCalc

/-- What a shelf knows of a page. -/
inductive ShelfEntry where
  | page (title : String) (sheet : Sheet)
  /-- A page that must not be read, and the message that says so. -/
  | denied (title message : String)

/-- Pages by their identifiers. -/
structure Shelf where
  entries : Std.ExtTreeMap String ShelfEntry

namespace Shelf

def empty : Shelf := ⟨∅⟩

/-- The shelf with a page; it takes the place of one with the same identifier. -/
def insert (shelf : Shelf) (id title : String) (sheet : Sheet) : Shelf :=
  ⟨shelf.entries.insert id (.page title sheet)⟩

def deny (shelf : Shelf) (id title message : String) : Shelf :=
  ⟨shelf.entries.insert id (.denied title message)⟩

def contains (shelf : Shelf) (id : String) : Bool := shelf.entries.contains id

def erase (shelf : Shelf) (id : String) : Shelf := ⟨shelf.entries.erase id⟩

def size (shelf : Shelf) : Nat := shelf.entries.size

def isEmpty (shelf : Shelf) : Bool := shelf.entries.isEmpty

/-- Finds the page of a reference by its identifier. -/
def resolve (shelf : Shelf) : Resolver := fun page =>
  match shelf.entries[page.identifier]? with
  | some (.page title sheet) => .ok ⟨page.identifier, title, sheet⟩
  | some (.denied title message) => .error ⟨page.identifier, some title, message⟩
  | none => .error (.notFound page)

end Shelf
end PageCalc

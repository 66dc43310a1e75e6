import PageCalc.Storage.Error
import PageCalc.Storage.Path

/-!
# File trees

The files in a directory and in the directories below it. Paths are walked name by name, so that
the fault of a path is the one at the first name that does not lead on.
-/

namespace PageCalc

/-- Where a path has led to. -/
inductive Place where
  /-- The directory with the given names on the way from the root of the tree. -/
  | directory (names : List String)
  | file (names : List String)
  | outside
deriving DecidableEq

/-- The texts of files, each with the names on the way to it. Directories exist as far as there
are files in them. -/
structure FileTree where
  files : List (List String × String)

namespace FileTree

def text? (tree : FileTree) (names : List String) : Option String := tree.files.lookup names

def holdsDirectory (tree : FileTree) (names : List String) : Bool :=
  names.isEmpty || tree.files.any fun file => names.isPrefixOf file.1 && names != file.1

/-- The tree with a file, which takes the place of one with the same names. -/
def put (tree : FileTree) (names : List String) (text : String) : FileTree :=
  ⟨(names, text) :: tree.files.filter fun file => file.1 != names⟩

def ofFiles (files : List (String × String)) : FileTree :=
  files.foldl (fun tree (path, text) =>
    tree.put ((Path.names path).filter fun name => name ≠ "" && name ≠ ".") text) ⟨[]⟩

/-! ## Walking -/

def step (tree : FileTree) (place : Place) (name : String) : Except FileError Place :=
  match place with
  | .file _ => .error .notDirectory
  | .outside =>
    if name = "" ∨ name = "." ∨ name = ".." then .ok .outside else .error .notFound
  | .directory names =>
    if name = "" ∨ name = "." then .ok place
    else if name = ".." then .ok (if names.isEmpty then .outside else .directory names.dropLast)
    else if Path.nameLimit < name.utf8ByteSize then .error .nameTooLong
    else
      let names := names ++ [name]
      if (tree.text? names).isSome then .ok (.file names)
      else if tree.holdsDirectory names then .ok (.directory names)
      else .error .notFound

/-- Where paths start: one that begins with a stroke starts outside. -/
def start (path : String) : Place :=
  if path.toList.head? = some '/' then .outside else .directory []

def follow (tree : FileTree) (path : String) (names : List String) : Except FileError Place :=
  if Path.pathLimit ≤ path.utf8ByteSize then .error .nameTooLong
  else if path.isEmpty then .error .notFound
  else names.foldlM tree.step (start path)

def find (tree : FileTree) (path : String) : Except FileError Place :=
  tree.follow path (Path.names path)

/-! ## Reading and writing -/

def isDirectory (tree : FileTree) (path : String) : Bool :=
  match tree.find path with
  | .ok (.directory _) => true
  | .ok .outside => true
  | _ => false

def read (tree : FileTree) (path : String) : Except FileError String := do
  match ← tree.find path with
  | .file names => return (tree.text? names).getD ""
  | _ => throw .isDirectory

/-- The tree with a text written to the file at a path. A path with a stroke at its end names a
directory. -/
def write (tree : FileTree) (path text : String) : Except FileError FileTree := do
  let backward := (Path.names path).reverse
  let closed := backward.dropWhile (· = "")
  let parent ← tree.follow path closed.tail.reverse
  match closed.head?, parent with
  | _, .file _ => throw .notDirectory
  | none, _ => throw .isDirectory
  | some name, .directory names =>
    if name = "." ∨ name = ".." ∨ closed.length < backward.length then throw .isDirectory
    else if Path.nameLimit < name.utf8ByteSize then throw .nameTooLong
    else if tree.holdsDirectory (names ++ [name]) then throw .isDirectory
    else return tree.put (names ++ [name]) text
  | some name, .outside =>
    if name = "." ∨ name = ".." ∨ closed.length < backward.length then throw .isDirectory
    else return tree

end FileTree
end PageCalc

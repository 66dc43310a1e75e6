import PageCalc.Text.Blank

/-!
# Paths

A path names a file by the directories on the way to it, with strokes between the names.
-/

namespace PageCalc.Path

def names (path : String) : List String :=
  (Text.pieces (· == '/') path.toList).map String.ofList

def join (directory name : String) : String :=
  if directory.toList.getLast? = some '/' then directory ++ name
  else directory ++ "/" ++ name

/-- A name without its extension, the part from the last point on. A name that begins with its
only point has no extension. -/
def stem (name : String) : String :=
  match Text.cutAt? '.' name.toList.reverse with
  | none => name
  | some (_, before) => if before.isEmpty then name else String.ofList before.reverse

/-- The name of the file at a path; nothing if the path ends in a step to a directory above. -/
def fileName? (path : String) : Option String :=
  (((names path).filter fun name => name ≠ "" && name ≠ ".").getLast?).filter (· ≠ "..")

def nameLimit : Nat := 255

def pathLimit : Nat := 4096

end PageCalc.Path

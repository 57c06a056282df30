import Linkage.Text.Blank

/-!
# Paths

A path is a text. Its parts stand between slashes; empty parts and dots say nothing, except that a
dot at the beginning of a relative path is one of its parts.
-/

namespace Linkage.Path

/-- What stands between the slashes. -/
def pieces (path : String) : List String :=
  (Text.splitOn '/' path.toList).map String.ofList

/-- Whether a path begins at the root. -/
def isAbsolute (path : String) : Bool := path.toList.head? = some '/'

/-- A path below another one; an absolute path stands for itself. -/
def join (base child : String) : String :=
  if isAbsolute child ∨ base = "" then child
  else if base.toList.getLast? = some '/' then base ++ child
  else base ++ "/" ++ child

/-- The pieces that say something. -/
def steps (path : String) : List String :=
  (pieces path).filter fun p => p ≠ "" && p ≠ "."

/-- The last piece that is not empty. -/
def lastPiece? (path : String) : Option String := (pieces path).reverse.find? (· ≠ "")

/-- The last part, unless it leads upwards. -/
def fileName? (path : String) : Option String :=
  match (steps path).getLast? with
  | some name => if name = ".." then none else some name
  | none => none

/-- A path by its parts: two paths with the same parts are the same path. -/
structure Parts where
  absolute : Bool
  parts : List String
  deriving DecidableEq, Repr

/-- The parts of a path. -/
def parts (path : String) : Parts :=
  if (pieces path).head? = some "." then ⟨false, "." :: steps path⟩
  else ⟨isAbsolute path, steps path⟩

/-- Whether a file name has the ending `class` after a name of its own. -/
def isClassFile (name : String) : Bool :=
  name.endsWith ".class" && name.length > 6

end Linkage.Path

import Linkage.Files.Path
import Linkage.Files.Tree
import Linkage.Text.Lossy

/-!
# Access to files by path

What can be done with a tree of files by path. A path is followed part by part from the root; every
part but the last must be a directory that is there, also where the path leads back up. Names and
paths have longest lengths. Names in a directory are listed in ascending order.
-/

namespace Linkage

/-- Why something could not be done with files. -/
inductive FileFault where
  | missing
  | alreadyThere
  | notDirectory
  | isDirectory
  | endsInDot
  | nameTooLong
  | notEmpty
  | notText
  | nulInPath
  deriving DecidableEq, Repr

def FileFault.message : FileFault → String
  | .missing => "No such file or directory (os error 2)"
  | .alreadyThere => "File exists (os error 17)"
  | .notDirectory => "Not a directory (os error 20)"
  | .isDirectory => "Is a directory (os error 21)"
  | .endsInDot => "Invalid argument (os error 22)"
  | .nameTooLong => "File name too long (os error 36)"
  | .notEmpty => "Directory not empty (os error 39)"
  | .notText => "stream did not contain valid UTF-8"
  | .nulInPath => "file name contained an unexpected NUL byte"

namespace FileTree

/-- The longest name in bytes. -/
def nameLimit : Nat := 255

/-- The longest path in bytes. -/
def pathLimit : Nat := 4095

/-- Follows the pieces of a path. The trail holds the names on the way with what stands there, the
last one first; nothing need stand at the place that the pieces lead to. -/
def follow (t : FileTree) : List (String × Option FileNode) → List String → Except FileFault Place
  | trail, [] => .ok (trail.reverse.map (·.1))
  | trail, piece :: rest =>
    match trail.head?.elim (some t.root) (·.2) with
    | none => .error .missing
    | some (.file _) => .error .notDirectory
    | some (.directory entries) =>
      if piece = "" ∨ piece = "." then t.follow trail rest
      else if piece = ".." then t.follow trail.tail rest
      else if piece.utf8ByteSize > nameLimit then .error .nameTooLong
      else t.follow ((piece, entries.get? piece) :: trail) rest

/-- Why a path cannot be followed at all, if so. -/
def refusal? (path : String) : Option FileFault :=
  if path.toList.contains (Char.ofNat 0) then some .nulInPath
  else if path.utf8ByteSize > pathLimit then some .nameTooLong
  else none

/-- The place that a path leads to. -/
def locate (t : FileTree) (path : String) : Except FileFault Place :=
  match refusal? path with
  | some fault => .error fault
  | none => if path = "" then .error .missing else t.follow [] (Path.pieces path)

/-- What stands at a path. -/
def lookup (t : FileTree) (path : String) : Except FileFault (Place × FileNode) := do
  let p ← t.locate path
  match t.at? p with
  | some node => return (p, node)
  | none => .error .missing

/-- Whether there is something at a path. -/
def isThere (t : FileTree) (path : String) : Bool := (t.lookup path).toOption.isSome

/-- Whether there is a directory at a path. -/
def isDirectory (t : FileTree) (path : String) : Bool :=
  match t.lookup path with
  | .ok (_, .directory _) => true
  | _ => false

/-- Whether there is a file at a path. -/
def isFile (t : FileTree) (path : String) : Bool :=
  match t.lookup path with
  | .ok (_, .file _) => true
  | _ => false

/-- The bytes of a file. -/
def read (t : FileTree) (path : String) : Except FileFault (List UInt8) := do
  match ← t.lookup path with
  | (_, .file bytes) => return bytes
  | (_, .directory _) => .error .isDirectory

/-- The text of a file. -/
def readText (t : FileTree) (path : String) : Except FileFault String := do
  match Text.decodeStrict? (← t.read path) with
  | some text => return text
  | none => .error .notText

/-- The names in a directory. -/
def names (t : FileTree) (path : String) : Except FileFault (List String) := do
  match ← t.lookup path with
  | (_, .directory entries) => return sortedTexts entries.keys
  | (_, .file _) => .error .notDirectory

/-- What is below a path; nothing where there is nothing. -/
def listing (t : FileTree) (path : String) : List (String × Nat) :=
  match t.lookup path with
  | .ok (_, node) => node.listing
  | .error _ => []

/-! ## Making and writing -/

/-- Makes one directory. -/
def makeDirectory (t : FileTree) (pieces : List String) : Except FileFault FileTree := do
  let p ← t.follow [] pieces
  match t.at? p with
  | some _ => .error .alreadyThere
  | none => return t.put p (.directory Table.empty)

/-- Whether the pieces of a path lead to a directory. -/
def leadsToDirectory (t : FileTree) (pieces : List String) : Bool :=
  match t.follow [] pieces with
  | .ok p => (t.at? p).any (·.isDirectory)
  | .error _ => false

/-- Makes a directory unless it is there. -/
def ensureDirectory (t : FileTree) (pieces : List String) : Except FileFault FileTree :=
  match t.makeDirectory pieces with
  | .ok t => .ok t
  | .error fault => if t.leadsToDirectory pieces then .ok t else .error fault

/-- Makes a directory and, where they are missing, the directories above it; `above` are the pieces of
its path, the last one first. What was made before a fault stays. -/
def ensureDirectories (t : FileTree) (above : List String) : Except FileFault Unit × FileTree :=
  match t.ensureDirectory above.reverse, above with
  | .ok made, _ => (.ok (), made)
  | .error .missing, _ :: rest =>
    match t.ensureDirectories rest with
    | (.error fault, t) => (.error fault, t)
    | (.ok (), t) =>
      match t.ensureDirectory above.reverse with
      | .ok made => (.ok (), made)
      | .error fault => (.error fault, t)
  | .error fault, _ => (.error fault, t)

/-- Makes the directory at a path with all directories above it, as far as that goes. -/
def makeDirectories (t : FileTree) (path : String) : Except FileFault Unit × FileTree :=
  match refusal? path with
  | some fault => (.error fault, t)
  | none => t.ensureDirectories (Path.steps path).reverse

/-- The tree with the directory at a path and all directories above it. -/
def createDirectories (t : FileTree) (path : String) : Except FileFault FileTree :=
  let (made, t) := t.makeDirectories path
  made.map fun _ => t

/-- Writes a file into a directory that is there. -/
def write (t : FileTree) (path : String) (bytes : List UInt8) : Except FileFault FileTree := do
  let p ← t.locate path
  match t.at? p with
  | some (.directory _) => .error .isDirectory
  | _ => return t.put p (.file bytes)

/-- Copies a file. What stands at the destination is emptied before the source is read, so a file that is
copied onto itself is empty afterwards. -/
def copy (t : FileTree) (source destination : String) : Except FileFault FileTree := do
  let _ ← t.read source
  let emptied ← t.write destination []
  emptied.write destination (← emptied.read source)

/-! ## Removing -/

/-- Removes an empty directory. The path must end in a name. -/
def removeEmpty (t : FileTree) (path : String) : Except FileFault FileTree := do
  match ← t.lookup path, Path.lastPiece? path with
  | _, some "." => .error .endsInDot
  | _, some ".." => .error .notEmpty
  | (_, .file _), _ => .error .notDirectory
  | (p, .directory entries), _ =>
    if entries.size = 0 then return t.erase p else .error .notEmpty

/-- Removes all that is in the directory at a path, and then the directory itself. For the second part
the path is followed anew: where it leads through what has just been removed, the directory stays. A
fault in the second part does not bring back what is gone. -/
def removeDirectory (t : FileTree) (path : String) : Except FileFault Unit × FileTree :=
  match t.lookup path with
  | .error fault => (.error fault, t)
  | .ok (_, .file _) => (.error .notDirectory, t)
  | .ok (p, .directory _) =>
    let cleared := t.clear p
    match cleared.removeEmpty path with
    | .ok removed => (.ok (), removed)
    | .error .missing => (.ok (), cleared)
    | .error fault => (.error fault, cleared)

end FileTree

end Linkage

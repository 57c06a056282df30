import Linkage.ClassFile.Reader
import Linkage.Artifact.Repository
import Linkage.Class.Index

/-!
# Artifacts on disk

An artifact on disk is a directory that may belong to whoever uses it: then it is removed when it is
given up. Class files are read from a directory and all directories below it.
-/

namespace Linkage

/-- A directory with an artifact. -/
structure ExtractedArtifact where
  path : String
  /-- Whether the directory is removed when the artifact is given up. -/
  owned : Bool
  /-- Whether it has been given up. -/
  closed : Bool := false
  deriving DecidableEq, Repr

namespace ExtractedArtifact

/-- No directory at all. -/
def inMemory : ExtractedArtifact := ⟨"", false, false⟩

/-- The artifact of a download. -/
def ofDownload (d : DownloadedArtifact) : ExtractedArtifact := ⟨d.path, d.temporary, false⟩

/-- Gives up the artifact: an owned directory that is still there is removed, the first time only.
Tells whether that went well. -/
def close (a : ExtractedArtifact) : StateM FileTree (Bool × ExtractedArtifact) := fun t =>
  let closed := { a with closed := true }
  if !a.closed && a.owned && t.isThere a.path then
    let (removed, t) := t.removeDirectory a.path
    ((removed.isOk, closed), t)
  else ((true, closed), t)

end ExtractedArtifact

/-- Why an artifact could not be read. -/
inductive LoadFailure where
  | missingArtifact (path : String)
  | unreadable (path : String) (fault : FileFault)
  | malformedClass (path : String) (defect : ClassFile.Defect)
  deriving DecidableEq, Repr

def LoadFailure.message : LoadFailure → String
  | .missingArtifact path => "Artifact directory " ++ path ++ " does not exist"
  | .unreadable path fault => "Failed to read " ++ path ++ ": " ++ fault.message
  | .malformedClass path defect => "Malformed class file " ++ path ++ ": " ++ defect.message

namespace FileTree

/-- Names the path at which reading failed. -/
def loading {α : Type} (path : String) : Except FileFault α → Except LoadFailure α
  | .ok x => .ok x
  | .error fault => .error (.unreadable path fault)

/-- The class in a file. -/
def loadClass (t : FileTree) (path : String) : Except LoadFailure ClassDefinition := do
  match ClassFile.read (← loading path (t.read path)) with
  | .ok c => return c
  | .error defect => .error (.malformedClass path defect)

/-- Adds the class files of a directory to an index; gives the directories in it. -/
def loadFiles (t : FileTree) (dir : String) :
    List String → ClassIndex → List String → Except LoadFailure (ClassIndex × List String)
  | [], index, found => return (index, found)
  | name :: rest, index, found => do
    let path := Path.join dir name
    if t.isDirectory path then t.loadFiles dir rest index (path :: found)
    else if Path.isClassFile name then
      t.loadFiles dir rest (index.insert (← t.loadClass path)) found
    else t.loadFiles dir rest index found

/-- Adds the classes of directories and of all directories below them; `bound` limits how many are
looked at. -/
def loadDirectories (t : FileTree) : Nat → List String → ClassIndex → Except LoadFailure ClassIndex
  | 0, _, index => return index
  | _, [], index => return index
  | bound + 1, dir :: pending, index => do
    let names ← loading dir (t.names dir)
    let (index, pending) ← t.loadFiles dir names index pending
    t.loadDirectories bound pending index

/-- The classes in a directory and below it. -/
def loadClasses (t : FileTree) (name dir : String) : Except LoadFailure ClassIndex :=
  t.loadDirectories t.size [dir] (ClassIndex.empty name)

/-- The classes in a directory, if it is there. -/
def loadClassesIfThere (t : FileTree) (name dir : String) : Except LoadFailure ClassIndex :=
  if t.isDirectory dir then t.loadClasses name dir else .ok (ClassIndex.empty name)

end FileTree

end Linkage

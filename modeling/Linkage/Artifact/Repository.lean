import Linkage.Files.Access
import Linkage.Json.Reader

/-!
# Repositories of artifacts

A repository is a directory with one directory for each artifact, named by the artifact's id. Beside
the content a metadata file may stand that gives the version. Where a repository has a directory for
downloads, each download is a copy of its own, in a directory that no other download has.
-/

namespace Linkage

open Json (Reader)

/-- Work on files that may fail; what was done before the failure stays done. -/
abbrev OnDisk (ε α : Type) := ExceptT ε (StateM FileTree) α

/-- A look at the files. -/
def OnDisk.look {ε α : Type} (f : FileTree → Except ε α) : OnDisk ε α := fun t => (f t, t)

/-- A change of the files that is done or leaves them as they are. -/
def OnDisk.change {ε : Type} (f : FileTree → Except ε FileTree) : OnDisk ε Unit := fun t =>
  match f t with
  | .ok t' => (.ok (), t')
  | .error e => (.error e, t)

/-- An artifact that a repository knows. -/
structure ArtifactInfo where
  id : String
  version : String
  updateId : Option Nat := none
  /-- The directory that it is downloaded from. -/
  location : String
  deriving DecidableEq, Repr

/-- An artifact as it was downloaded. -/
structure DownloadedArtifact where
  path : String
  /-- Whether the copy is to be removed after use. -/
  temporary : Bool
  deriving DecidableEq, Repr

/-- Why a repository did not answer. -/
inductive RepositoryFailure where
  | unreadable (path : String) (fault : FileFault)
  | badMetadata (path : String) (fault : Json.Fault)
  | unavailable (reason : String)
  deriving DecidableEq, Repr

def RepositoryFailure.message : RepositoryFailure → String
  | .unreadable path fault => "I/O error at " ++ path ++ ": " ++ fault.message
  | .badMetadata path fault => "Malformed artifact metadata at " ++ path ++ ": " ++ fault.message
  | .unavailable reason => "Repository is unavailable: " ++ reason

/-- What a metadata file says. -/
structure ArtifactMetadata where
  version : Option String := none
  updateId : Option Nat := none

/-- The fields of a metadata file. -/
def ArtifactMetadata.fields : List (Reader.Field ArtifactMetadata) :=
  [⟨"version", fun m => return { m with version := ← Reader.optional Reader.text }, false, true⟩,
    ⟨"update_id", fun m => return { m with updateId := ← Reader.optional Reader.natural }, false, true⟩]

/-- A repository in a directory. -/
structure LocalRepository where
  root : String
  downloadDir : Option String := none
  /-- How many copies have been begun. -/
  downloads : Nat := 0

namespace LocalRepository

/-- The name of the metadata file. -/
def metadataFile : String := "artifact.json"

/-- The version of an artifact without metadata. -/
def unknownVersion : String := "unknown"

/-- Whether an id names a directory directly below the root. -/
def isValidId (id : String) : Bool :=
  id ≠ "" && id ≠ "." && id ≠ ".." && !id.toList.contains '/' && !id.toList.contains '\\'

/-- Reads a metadata file; without one nothing is known. -/
def metadata (path : String) (t : FileTree) : Except RepositoryFailure ArtifactMetadata :=
  if t.isFile path then
    match t.readText path with
    | .error fault => .error (.unreadable path fault)
    | .ok text =>
      match Reader.run (Reader.record ArtifactMetadata.fields {}) text with
      | .error fault => .error (.badMetadata path fault)
      | .ok m => .ok m
  else .ok {}

/-- What the repository knows of an id. -/
def fetch (r : LocalRepository) (id : String) (t : FileTree) :
    Except RepositoryFailure (Option ArtifactInfo) := do
  let dir := Path.join r.root id
  if isValidId id && t.isDirectory dir then
    let m ← metadata (Path.join dir metadataFile) t
    return some ⟨id, m.version.getD unknownVersion, m.updateId, dir⟩
  else return none

/-- Names the path at which something failed. -/
def failingAt {α : Type} (path : String) : Except FileFault α → Except RepositoryFailure α
  | .ok x => .ok x
  | .error fault => .error (.unreadable path fault)

/-- Makes a directory with all directories above it. -/
def makeDirectories (path : String) : OnDisk RepositoryFailure Unit := fun t =>
  let (made, t) := t.makeDirectories path
  (failingAt path made, t)

/-- Copies the files of a directory into another one; gives the directories in it with their
destinations. -/
def copyFiles (source destination : String) :
    List String → List (String × String) → OnDisk RepositoryFailure (List (String × String))
  | [], found => pure found
  | name :: rest, found => do
    let path := Path.join source name
    let copied := Path.join destination name
    if (← get).isDirectory path then copyFiles source destination rest ((path, copied) :: found)
    else
      OnDisk.change fun t => failingAt path (t.copy path copied)
      copyFiles source destination rest found

/-- Copies directories with all that is below them; `bound` limits how many are copied. -/
def copyTrees : Nat → List (String × String) → OnDisk RepositoryFailure Unit
  | 0, _ => pure ()
  | _, [] => pure ()
  | bound + 1, (source, destination) :: pending => do
    makeDirectories destination
    let names ← OnDisk.look fun t => failingAt source (t.names source)
    copyTrees bound (← copyFiles source destination names pending)

/-- How many directories are copied at most: a copy into the directory that is copied meets itself again
and again, and ends where its paths become too long. -/
def copyBound (t : FileTree) : Nat := t.size * FileTree.pathLimit

/-- The name of the directory for a download. -/
def downloadName (info : ArtifactInfo) (sequence : Nat) : String :=
  info.id ++ "-" ++ info.version ++ "-" ++ toString sequence

/-- Gets hold of an artifact. -/
def download (r : LocalRepository) (info : ArtifactInfo) (t : FileTree) :
    (Except RepositoryFailure DownloadedArtifact × LocalRepository) × FileTree :=
  if t.isDirectory info.location then
    match r.downloadDir with
    | none => ((.ok ⟨info.location, false⟩, r), t)
    | some dir =>
      let target := Path.join dir (downloadName info r.downloads)
      let (copied, t) := (copyTrees (copyBound t) [(info.location, target)]).run t
      ((copied.map fun _ => ⟨target, true⟩, { r with downloads := r.downloads + 1 }), t)
  else
    ((.error (.unavailable ("Artifact " ++ info.id ++ " is no longer at " ++ info.location)), r), t)

end LocalRepository

end Linkage

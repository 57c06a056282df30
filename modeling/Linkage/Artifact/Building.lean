import Linkage.Artifact.Descriptor

/-!
# Obtaining descriptors

A descriptor is obtained by its key: a plugin by its id and a host build by its version through a
repository, a JDK by the path of its directory. What is not there is not found; all else that goes
wrong is a failure with its cause.
-/

namespace Linkage

/-- Why there is no descriptor for a key. -/
inductive BuildFailure where
  | notFound (reason : String)
  | failed (message : String) (cause : Option String)
  deriving DecidableEq, Repr

/-- The message where a descriptor that was built cannot be found again. -/
def BuildFailure.disappeared : String := "Descriptor disappeared before it was handed out"

/-- A build that broke down with a message. -/
def BuildFailure.ofPanic (message : String) : BuildFailure :=
  .failed ("Descriptor build panicked: " ++ message) none

/-- A source of artifacts; asking may change the state `σ`. -/
structure ArtifactSource (σ : Type) where
  fetch : String → StateM σ (Except RepositoryFailure (Option ArtifactInfo))
  download : ArtifactInfo → StateM σ (Except RepositoryFailure DownloadedArtifact)

/-- What a source of artifacts calls the things in it. -/
structure ArtifactWords where
  /-- As in `Plugin p is not found in the repository`. -/
  subject : String
  /-- As in `Failed to read plugin p`. -/
  object : String
  fetching : String

/-- Files that are part of a larger state. -/
structure DiskIn (σ : Type) where
  files : σ → FileTree
  setFiles : FileTree → σ → σ

namespace DiskIn

variable {σ β : Type}

/-- Files and nothing else. -/
def whole : DiskIn FileTree := ⟨id, fun t _ => t⟩

/-- Does work on the files of a larger state. -/
def perform (d : DiskIn σ) (work : StateM FileTree β) : StateM σ β := fun s =>
  let (x, t) := work.run (d.files s)
  (x, d.setFiles t s)

/-- Gives up an artifact. -/
def discard (d : DiskIn σ) (a : ExtractedArtifact) : StateM σ Unit := do
  let _ ← d.perform a.close

end DiskIn

namespace ArtifactSource

variable {σ α : Type}

/-- A repository on a disk, where both are part of a larger state. -/
def ofLocal (disk : DiskIn σ) (repository : σ → LocalRepository)
    (setRepository : LocalRepository → σ → σ) : ArtifactSource σ where
  fetch := fun id s => ((repository s).fetch id (disk.files s), s)
  download := fun info s =>
    let ((downloaded, r), t) := (repository s).download info (disk.files s)
    (downloaded, setRepository r (disk.setFiles t s))

/-- Fetches, downloads and loads what stands under a key. -/
def obtain (source : ArtifactSource σ) (disk : DiskIn σ) (words : ArtifactWords)
    (load : ArtifactInfo → ExtractedArtifact → OnDisk LoadFailure α) (key : String) :
    StateM σ (Except BuildFailure α) := do
  match ← source.fetch key with
  | .error failure => return .error (.failed (words.fetching ++ key) (some failure.message))
  | .ok none => return .error (.notFound (words.subject ++ key ++ " is not found in the repository"))
  | .ok (some info) =>
    match ← source.download info with
    | .error failure =>
      return .error (.failed ("Failed to download " ++ words.object ++ key) (some failure.message))
    | .ok downloaded =>
      match ← disk.perform (load info (.ofDownload downloaded)).run with
      | .ok x => return .ok x
      | .error failure =>
        return .error (.failed ("Failed to read " ++ words.object ++ key) (some failure.message))

/-- Obtains a plugin by its id. -/
def plugin (source : ArtifactSource σ) (disk : DiskIn σ) (id : String) :
    StateM σ (Except BuildFailure PluginDescriptor) :=
  source.obtain disk ⟨"Plugin ", "plugin ", "Failed to fetch metadata of plugin "⟩
    PluginDescriptor.load id

/-- Obtains a host build by its version. -/
def host (source : ArtifactSource σ) (disk : DiskIn σ) (version : String) :
    StateM σ (Except BuildFailure HostDescriptor) :=
  source.obtain disk ⟨"Host build ", "host build ", "Failed to fetch host build "⟩
    (fun _ => HostDescriptor.load version) version

end ArtifactSource

/-- Obtains the JDK at a path. -/
def JdkDescriptor.obtain (path : String) (t : FileTree) : Except BuildFailure JdkDescriptor :=
  match JdkDescriptor.load path t with
  | .ok jdk => .ok jdk
  | .error (.missingArtifact missing) => .error (.notFound ("JDK is not found at " ++ missing))
  | .error failure => .error (.failed ("Failed to read JDK at " ++ path) (some failure.message))

end Linkage

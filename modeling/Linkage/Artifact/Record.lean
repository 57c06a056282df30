import Linkage.Artifact.Building

/-!
# Records of artifacts

What is read from disk, and why it could not be read, as JSON values.
-/

namespace Linkage

open Json (Value)
open Json.Decode

def ArtifactInfo.toJson (a : ArtifactInfo) : Value :=
  .record [("id", .text a.id), ("version", .text a.version),
    ("update_id", Value.ofOption Value.count a.updateId), ("location", .text a.location)]

def LoadFailure.toJson (f : LoadFailure) : Value :=
  let kind := match f with
    | .missingArtifact _ => "MissingArtifact"
    | .unreadable _ _ => "Io"
    | .malformedClass _ _ => "Malformed"
  .failure kind f.message

def RepositoryFailure.toJson (f : RepositoryFailure) : Value :=
  let kind := match f with
    | .unreadable _ _ => "Io"
    | .badMetadata _ _ => "Metadata"
    | .unavailable _ => "Unavailable"
  .failure kind f.message

def BuildFailure.toJson : BuildFailure → Value
  | .notFound reason => .failure "NotFound" reason
  | .failed message cause =>
    (Value.failure "Failed" message).plus [("cause", Value.ofOption .text cause)]

def HostDescriptor.toJson (h : HostDescriptor) : Value :=
  .record [("version", .text h.version), ("classes", h.classes.toJson),
    ("bundled", .record (h.bundled.entries.map fun e => (e.1, e.2.toJson))),
    ("path", .text h.artifact.path)]

/-- Reads a host build that is not on disk. -/
def HostDescriptor.ofJson? (version : String) (v : Value) : Option HostDescriptor :=
  return {
    version := version
    classes := .ofList ("host " ++ version) (← items v "classes" ClassDefinition.ofJson?)
    bundled := .ofList ((← items v "bundled" Plugin.ofJson?).map fun p => (p.info.id, p)) }

/-- Reads what a build comes to: a descriptor, or why there is none. -/
def BuildFailure.outcomeOfJson? {α : Type} (item : Value → Option α) (v : Value) :
    Option (Except BuildFailure α) := do
  match ← opt v "failed" text, ← opt v "not_found" text with
  | some message, _ => return .error (.failed message none)
  | none, some reason => return .error (.notFound reason)
  | none, none => Except.ok <$> item v

def JdkDescriptor.toJson (d : JdkDescriptor) : Value :=
  .record [("name", .text d.name), ("classes", d.classes.toJson)]

/-- What is below a path, as pairs of a path and a size. -/
def FileTree.listingJson (t : FileTree) (path : String) : Value :=
  Value.many (fun e => .list [.text e.1, .count e.2]) (t.listing path)

end Linkage

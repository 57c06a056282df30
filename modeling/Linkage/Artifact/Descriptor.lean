import Linkage.Artifact.Extracted
import Linkage.Plugin.Record

/-!
# Plugins, host builds and JDKs on disk

- A plugin is a directory with a manifest and the directory `classes`. What is wrong with it becomes a
  defect of the plugin; only a manifest that cannot be read keeps it from being loaded.
- A host build is a directory with `classes` and with the plugins that come with it under `plugins`.
- A JDK is a directory of class files, which is never removed.

Whoever asks for one of the first two hands over the directory. If it cannot be loaded, it is given
up at once.
-/

namespace Linkage

open Json (Reader)

/-! ## Manifests -/

/-- What the manifest of a plugin says. -/
structure PluginManifest where
  id : String := ""
  version : String := ""
  updateId : Option Nat := none
  dependencies : List Dependency := []
  dependentClasses : Table String (List String) := Table.empty
  components : List String := []
  staticExtensions : List String := []

namespace PluginManifest

/-- The name of the manifest. -/
def fileName : String := "plugin.json"

/-- The fields of a dependency. -/
def dependencyFields : List (Reader.Field Dependency) :=
  [⟨"id", fun d => return { d with id := ← Reader.text }, true, true⟩,
    ⟨"optional", fun d => return { d with optional := ← Reader.truth }, false, false⟩]

/-- The fields of a manifest, in order; each may be left out. -/
def fields : List (Reader.Field PluginManifest) :=
  let texts := Reader.list Reader.text
  [⟨"id", fun m => return { m with id := ← Reader.text }, false, false⟩,
    ⟨"version", fun m => return { m with version := ← Reader.text }, false, false⟩,
    ⟨"update_id", fun m => return { m with updateId := ← Reader.optional Reader.natural }, false, false⟩,
    ⟨"dependencies", fun m => return { m with
      dependencies := ← Reader.list (Reader.record dependencyFields ⟨"", false⟩) }, false, false⟩,
    ⟨"dependent_classes", fun m => return { m with dependentClasses := ← Reader.table texts },
      false, false⟩,
    ⟨"components", fun m => return { m with components := ← texts }, false, false⟩,
    ⟨"non_dynamic_extensions", fun m => return { m with staticExtensions := ← texts }, false, false⟩]

/-- Reads a manifest; a manifest that is missing or makes no sense is a defect of the plugin. -/
def load (t : FileTree) (root : String) :
    Except LoadFailure (Except StructureError PluginManifest) := do
  let path := Path.join root fileName
  if t.isFile path then
    let text ← FileTree.loading path (t.readText path)
    match Reader.run (Reader.record fields {}) text with
    | .ok m => return .ok m
    | .error fault => return .error (.invalidDescriptor (fileName ++ ": " ++ fault.message))
  else return .error (.invalidDescriptor (fileName ++ " is missing"))

end PluginManifest

/-! ## Plugins -/

namespace Plugin

/-- The classes of a plugin; if they cannot be read, none and the defect. -/
def loadClasses (t : FileTree) (root : String) (info : PluginInfo) : ClassIndex × List StructureError :=
  let name := indexName info
  match t.loadClassesIfThere name (Path.join root "classes") with
  | .ok classes => (classes, [])
  | .error failure => (ClassIndex.empty name, [.invalidDescriptor failure.message])

/-- Reads the plugin in a directory. Without a manifest it is what `fallback` says. -/
def load (t : FileTree) (root : String) (fallback : PluginInfo) : Except LoadFailure Plugin := do
  match ← PluginManifest.load t root with
  | .error defect =>
    let (classes, errors) := loadClasses t root fallback
    return { info := fallback, classes := classes, structureErrors := defect :: errors }
  | .ok m =>
    let info : PluginInfo := ⟨m.id, m.version, m.updateId <|> fallback.updateId⟩
    let (classes, errors) := loadClasses t root info
    return {
      info := info
      classes := classes
      dependencies := m.dependencies
      dependentClasses := m.dependentClasses
      components := m.components
      staticExtensions := m.staticExtensions
      structureErrors := errors }

end Plugin

/-! ## Descriptors -/

/-- A plugin with the directory it was read from. -/
structure PluginDescriptor where
  plugin : Plugin
  artifact : ExtractedArtifact := .inMemory

/-- A host build. -/
structure HostDescriptor where
  version : String
  classes : ClassIndex
  /-- The plugins that come with it, by id. -/
  bundled : Table String Plugin := Table.empty
  artifact : ExtractedArtifact := .inMemory

/-- A JDK. -/
structure JdkDescriptor where
  name : String
  classes : ClassIndex

/-- The directory is there. -/
def requireDirectory (t : FileTree) (path : String) : Except LoadFailure Unit :=
  if t.isDirectory path then .ok () else .error (.missingArtifact path)

/-- Reads from the directory of an artifact; if that fails, gives up the artifact. -/
def ExtractedArtifact.loadWith {α : Type} (a : ExtractedArtifact)
    (load : FileTree → String → Except LoadFailure α) : OnDisk LoadFailure α := do
  match load (← get) a.path with
  | .ok x => return x
  | .error failure => do
    let _ ← (a.close : StateM FileTree (Bool × ExtractedArtifact))
    throw failure

/-- Reads a plugin; `info` says which one it should be. -/
def PluginDescriptor.load (info : ArtifactInfo) (a : ExtractedArtifact) :
    OnDisk LoadFailure PluginDescriptor := do
  let plugin ← a.loadWith fun t root => do
    requireDirectory t root
    Plugin.load t root ⟨info.id, info.version, info.updateId⟩
  return ⟨plugin, a⟩

namespace HostDescriptor

/-- Reads the plugins in the directories named. -/
def loadBundled (t : FileTree) (version dir : String) :
    List String → Table String Plugin → Except LoadFailure (Table String Plugin)
  | [], bundled => return bundled
  | name :: rest, bundled => do
    let path := Path.join dir name
    if t.isDirectory path then
      let plugin ← Plugin.load t path ⟨name, version, none⟩
      loadBundled t version dir rest (bundled.put plugin.info.id plugin)
    else loadBundled t version dir rest bundled

/-- Reads a host build. -/
def load (version : String) (a : ExtractedArtifact) : OnDisk LoadFailure HostDescriptor := do
  let (classes, bundled) ← a.loadWith fun t root => do
    requireDirectory t root
    let classes ← t.loadClassesIfThere ("host " ++ version) (Path.join root "classes")
    let dir := Path.join root "plugins"
    let names ← if t.isDirectory dir then FileTree.loading dir (t.names dir) else pure []
    return (classes, ← loadBundled t version dir names Table.empty)
  return ⟨version, classes, bundled, a⟩

end HostDescriptor

namespace JdkDescriptor

/-- The name of a JDK: that of its directory. -/
def nameAt (path : String) : String := (Path.fileName? path).getD path

/-- Reads a JDK. -/
def load (path : String) (t : FileTree) : Except LoadFailure JdkDescriptor := do
  requireDirectory t path
  let name := nameAt path
  return ⟨name, ← t.loadClasses ("jdk " ++ name) path⟩

end JdkDescriptor

end Linkage

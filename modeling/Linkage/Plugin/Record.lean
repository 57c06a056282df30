import Linkage.Class.Record
import Linkage.Plugin.DependencyGraph

/-!
# Records of plugins

Plugins as JSON values and back. In a record that is read, everything but the id may be left out.
-/

namespace Linkage

open Json (Value)
open Json.Decode

/-- Reads a defect. -/
def StructureError.ofJson? : Value → Option StructureError
  | .text "MissingId" => some .missingId
  | .text "MissingVersion" => some .missingVersion
  | .text "SelfDependency" => some .selfDependency
  | v =>
    (.invalidClassName <$> (field? v "InvalidClassName" >>= text))
      <|> (.invalidDescriptor <$> (field? v "InvalidDescriptor" >>= text))

/-- Reads a dependency; an id alone is one that is needed. -/
def Dependency.ofJson? : Value → Option Dependency
  | .text id => some ⟨id, false⟩
  | v => return ⟨← need v "id" text, ← flag v "optional"⟩

/-- Reads which plugin is meant. -/
def PluginInfo.ofJson? (v : Value) : Option PluginInfo :=
  return ⟨← need v "id" text, ← getD v "version" text "1.0", ← opt v "update_id" natural⟩

namespace Plugin

/-- The name of the classes of a plugin. -/
def indexName (info : PluginInfo) : String := "plugin " ++ info.display

def toJson (p : Plugin) : Value :=
  let dependents := p.dependentClasses.entries.mergeSort fun a b => decide (a.1 ≤ b.1)
  .record [("info", p.info.toJson), ("display", .text p.info.display), ("index", .text p.classes.name),
    ("classes", .list (p.classes.sorted.map ClassDefinition.toJson)),
    ("dependencies", .list (p.dependencies.map Dependency.toJson)),
    ("dependent_classes", .list (dependents.map fun e => .list [.text e.1, .texts e.2])),
    ("components", .texts p.components), ("non_dynamic_extensions", .texts p.staticExtensions),
    ("structure_errors", .list (p.structureErrors.map StructureError.toJson)),
    ("structure_warnings", .texts p.structureWarnings)]

/-- Reads a plugin. -/
def ofJson? (v : Value) : Option Plugin := do
  let info ← PluginInfo.ofJson? v
  return {
    info := info
    classes := .ofList (indexName info) (← items v "classes" ClassDefinition.ofJson?)
    dependencies := ← items v "dependencies" Dependency.ofJson?
    dependentClasses := .ofList (← entries v "dependent_classes" (list text))
    components := ← texts v "components"
    staticExtensions := ← texts v "non_dynamic_extensions"
    structureErrors := ← items v "structure_errors" StructureError.ofJson?
    structureWarnings := ← texts v "structure_warnings" }

end Plugin

def DependencyGraph.toJson {κ : Type} (g : DependencyGraph κ) : Value :=
  let resolved (r : ResolvedDependency κ) : Value :=
    .list [.text r.plugin.info.id, .text r.plugin.info.version, .bool r.keepalive.isSome]
  .record [("root", .text g.root), ("resolved", Value.many resolved g.resolved.values),
    ("missing", Value.many MissingDependency.toJson g.missing),
    ("missing_display", .texts (g.missing.map (·.display))),
    ("direct", Value.many MissingDependency.toJson g.directMissing),
    ("mandatory_direct", .bool g.hasMandatoryDirectMissing), ("cycles", .bool g.hasCycles),
    ("nodes", .count g.nodes.length), ("edges", .count g.edges.length)]

end Linkage

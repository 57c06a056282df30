import Linkage.Class.Index
import Linkage.Json.Value

/-!
# Plugins

What is known of a plugin package: who it is, its classes, what it depends on, and the defects found
while it was read.
-/

namespace Linkage

open Json (Value)

/-- Which plugin, and which version of it. -/
structure PluginInfo where
  id : String
  version : String
  updateId : Option Nat := none
  deriving DecidableEq, Repr

namespace PluginInfo

def display (i : PluginInfo) : String := i.id ++ ":" ++ i.version

/-- The version of a plugin whose package could not be had. -/
def unknownVersion : String := "unknown"

def toJson (i : PluginInfo) : Value :=
  .record [("id", .text i.id), ("version", .text i.version),
    ("update_id", Value.ofOption Value.count i.updateId)]

end PluginInfo

/-- A plugin that another one builds on. -/
structure Dependency where
  id : String
  optional : Bool
  deriving DecidableEq, Repr

namespace Dependency

def display (d : Dependency) : String := if d.optional then d.id ++ " (optional)" else d.id

def toJson (d : Dependency) : Value :=
  .record [("id", .text d.id), ("optional", .bool d.optional)]

end Dependency

/-- A defect of a plugin package. -/
inductive StructureError where
  | missingId
  | missingVersion
  | invalidClassName (name : String)
  | selfDependency
  | invalidDescriptor (reason : String)
  deriving DecidableEq, Repr

namespace StructureError

def message : StructureError → String
  | .missingId => "Plugin id is not specified"
  | .missingVersion => "Plugin version is not specified"
  | .invalidClassName name => "Class name " ++ name ++ " is malformed"
  | .selfDependency => "Plugin declares a dependency on itself"
  | .invalidDescriptor reason => "Plugin descriptor is invalid: " ++ reason

def toJson : StructureError → Value
  | .missingId => .text "MissingId"
  | .missingVersion => .text "MissingVersion"
  | .invalidClassName name => .record [("InvalidClassName", .text name)]
  | .selfDependency => .text "SelfDependency"
  | .invalidDescriptor reason => .record [("InvalidDescriptor", .text reason)]

end StructureError

/-- A plugin package. -/
structure Plugin where
  info : PluginInfo
  classes : ClassIndex
  dependencies : List Dependency := []
  /-- Classes that are loaded only where the dependency they stand under is there. -/
  dependentClasses : Table String (List String) := Table.empty
  components : List String := []
  /-- The extension points it uses that need a restart. -/
  staticExtensions : List String := []
  /-- Defects found while the package was read. -/
  structureErrors : List StructureError := []
  structureWarnings : List String := []

end Linkage

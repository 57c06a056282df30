import Linkage.Finding.Location

/-!
# Warnings

Findings that do not keep a plugin from working.
-/

namespace Linkage

open Json (Value)

/-- An advisory finding. -/
inductive Warning where
  | deprecatedApiUsage (api : String) (location : Location)
  | optionalDependencyNotResolved (dependency reason : String)
  | pluginStructure (message : String)
  deriving DecidableEq, Repr

namespace Warning

def message : Warning → String
  | .deprecatedApiUsage api location =>
    "Deprecated API " ++ api ++ " is used in " ++ location.display
  | .optionalDependencyNotResolved dependency reason =>
    "Optional dependency " ++ dependency ++ " is not resolved: " ++ reason
  | .pluginStructure message => message

def toJson : Warning → Value
  | .deprecatedApiUsage api location =>
    .record [("kind", .text "deprecated_api_usage"), ("api", .text api),
      ("location", location.toJson)]
  | .optionalDependencyNotResolved dependency reason =>
    .record [("kind", .text "optional_dependency_not_resolved"), ("dependency", .text dependency),
      ("reason", .text reason)]
  | .pluginStructure message =>
    .record [("kind", .text "plugin_structure"), ("message", .text message)]

end Warning

end Linkage

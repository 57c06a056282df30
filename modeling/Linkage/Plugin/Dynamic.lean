import Linkage.Plugin.Basic
import Linkage.Text.Blank

/-!
# Loading without a restart

A plugin may be loaded into a running host unless it declares components or uses extension points
that need a restart.
-/

namespace Linkage

open Json (Value)

/-- Whether a plugin can be loaded or unloaded without a restart. -/
inductive DynamicStatus where
  | maybeDynamic
  /-- The reasons against it, ascending. -/
  | notDynamic (reasons : List String)
  deriving DecidableEq, Repr

namespace DynamicStatus

/-- The names in ascending order, each once, with commas between them. -/
def listing (names : List String) : String :=
  Text.join ", " (distinct (sortedTexts names))

/-- The status that a plugin's declarations give it. -/
def of (p : Plugin) : DynamicStatus :=
  let components :=
    if p.components.isEmpty then []
    else ["Plugin declares components: " ++ listing p.components]
  let extensions :=
    if p.staticExtensions.isEmpty then []
    else ["Plugin uses extension points that cannot be loaded dynamically: "
      ++ listing p.staticExtensions]
  match components ++ extensions with
  | [] => .maybeDynamic
  | reasons => .notDynamic reasons

/-- The reasons against loading without a restart. -/
def reasons : DynamicStatus → List String
  | .maybeDynamic => []
  | .notDynamic reasons => reasons

def toJson : DynamicStatus → Value
  | .maybeDynamic => .text "MaybeDynamic"
  | .notDynamic reasons => .record [("NotDynamic", Value.texts reasons)]

end DynamicStatus

end Linkage

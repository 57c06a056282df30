import Linkage.Plugin.Basic
import Linkage.Text.Blank

/-!
# The structure of plugin packages

Named rules that look at a package as a whole, before any class is checked. An error makes the
plugin a bad one; warnings are carried along.
-/

namespace Linkage

/-- What structure rules report. -/
structure StructureReport where
  errors : List StructureError
  warnings : List String
  deriving DecidableEq, Repr

namespace StructureReport

/-- No complaint. -/
def none : StructureReport := ⟨[], []⟩

/-- One error. -/
def error (e : StructureError) : StructureReport := ⟨[e], []⟩

/-- Two reports, one after the other. -/
def append (a b : StructureReport) : StructureReport := ⟨a.errors ++ b.errors, a.warnings ++ b.warnings⟩

/-- No error is reported. -/
def isValid (r : StructureReport) : Bool := r.errors.isEmpty

end StructureReport

/-- A check of a package. -/
abbrev StructureRule := Plugin → StructureReport

namespace StructureRule

/-- The plugin has an id. -/
def idPresent : StructureRule := fun p =>
  if Text.isAllBlank p.info.id then .error .missingId else .none

/-- The plugin has a version. -/
def versionPresent : StructureRule := fun p =>
  if Text.isAllBlank p.info.version then .error .missingVersion else .none

/-- A name of the internal form: segments between slashes, none of them empty, and none of the
characters that mark other forms. -/
def isWellFormedName (name : String) : Bool :=
  name ≠ "" && !name.toList.any (fun c => c = '.' || c = ';' || c = '[')
    && (Text.splitOn '/' name.toList).all (fun segment => !segment.isEmpty)

/-- The names of the classes are well formed. -/
def classNames : StructureRule := fun p =>
  ⟨(p.classes.names.filter (fun n => !isWellFormedName n)).map .invalidClassName, []⟩

/-- The plugin does not depend on itself. -/
def noSelfDependency : StructureRule := fun p =>
  if p.dependencies.any (·.id = p.info.id) then .error .selfDependency else .none

/-- The ids that stand in a list for a second or later time. -/
def repeated : List String → List String → List String
  | _, [] => []
  | seen, id :: rest =>
    if seen.contains id then id :: repeated seen rest else repeated (id :: seen) rest

/-- No dependency is declared twice. -/
def noDuplicateDependency : StructureRule := fun p =>
  ⟨[], (repeated [] (p.dependencies.map (·.id))).map fun id =>
    "Dependency " ++ id ++ " is declared more than once"⟩

end StructureRule

/-- Structure rules by name, in the order in which they run. -/
abbrev StructureRules := Table String StructureRule

namespace StructureRules

/-- The rules that are there from the beginning. -/
def default : StructureRules := ⟨[
  ("id_present", StructureRule.idPresent),
  ("version_present", StructureRule.versionPresent),
  ("class_names", StructureRule.classNames),
  ("no_self_dependency", StructureRule.noSelfDependency),
  ("no_duplicate_dependency", StructureRule.noDuplicateDependency)]⟩

/-- What was found when the package was read, and then what the rules report. -/
def validate (rules : StructureRules) (p : Plugin) : StructureReport :=
  rules.values.foldl (fun report rule => report.append (rule p))
    ⟨p.structureErrors, p.structureWarnings⟩

end StructureRules

end Linkage

import Linkage.Finding.Problem
import Linkage.Finding.Warning
import Linkage.Plugin.DependencyGraph
import Linkage.Plugin.Dynamic

/-!
# Verdicts

What a verification comes to. Of the things found, errors of the package weigh most, then missing
dependencies that the plugin needs, then problems, then warnings.
-/

namespace Linkage

open Json (Value)

/-- The outcome of a verification. -/
inductive Verdict where
  | ok
  | warnings (warnings : List Warning)
  | problems (problems : List Problem) (warnings : List Warning)
  | missingDependencies (missing : List MissingDependency) (problems : List Problem)
      (warnings : List Warning)
  /-- The package is broken. -/
  | bad (errors : List StructureError)
  /-- The plugin or the target is not known. -/
  | notFound (reason : String)
  /-- The plugin or the target could not be had. -/
  | failedToDownload (reason : String)
  deriving DecidableEq, Repr

/-- The kinds of verdicts, in ascending order. -/
inductive VerdictKind where
  | ok
  | warnings
  | problems
  | missingDependencies
  | bad
  | notFound
  | failedToDownload
  deriving DecidableEq, Repr

namespace VerdictKind

/-- The kind's place in the order. -/
def rank : VerdictKind → Nat
  | .ok => 0
  | .warnings => 1
  | .problems => 2
  | .missingDependencies => 3
  | .bad => 4
  | .notFound => 5
  | .failedToDownload => 6

/-- Whether the plugin was checked at all. -/
def isVerified : VerdictKind → Bool
  | .notFound | .failedToDownload => false
  | _ => true

end VerdictKind

namespace Verdict

/-- The verdict on what was found; `missing` are dependencies of the plugin itself. -/
def ofFindings (errors : List StructureError) (missing : List MissingDependency)
    (problems : List Problem) (warnings : List Warning) : Verdict :=
  if !errors.isEmpty then .bad errors
  else if missing.any (!·.dependency.optional) then .missingDependencies missing problems warnings
  else if !problems.isEmpty then .problems problems warnings
  else if !warnings.isEmpty then .warnings warnings
  else .ok

/-- The kind of a verdict. -/
def kind : Verdict → VerdictKind
  | .ok => .ok
  | .warnings _ => .warnings
  | .problems _ _ => .problems
  | .missingDependencies _ _ _ => .missingDependencies
  | .bad _ => .bad
  | .notFound _ => .notFound
  | .failedToDownload _ => .failedToDownload

/-- The problems of a verdict of a kind that has them. -/
def problems? : Verdict → Option (List Problem)
  | .problems p _ | .missingDependencies _ p _ => some p
  | _ => none

/-- The warnings of a verdict of a kind that has them. -/
def warnings? : Verdict → Option (List Warning)
  | .warnings w | .problems _ w | .missingDependencies _ _ w => some w
  | _ => none

/-- The missing dependencies. -/
def missing : Verdict → List MissingDependency
  | .missingDependencies m _ _ => m
  | _ => []

/-- Two lists without repeats that hold the same elements. -/
def sameSet {α : Type} [BEq α] (xs ys : List α) : Bool :=
  xs.length == ys.length && xs.all ys.contains

/-- Whether two verdicts say the same; the order of problems and warnings does not matter. -/
def same : Verdict → Verdict → Bool
  | .ok, .ok => true
  | .warnings w, .warnings w' => sameSet w w'
  | .problems p w, .problems p' w' => sameSet p p' && sameSet w w'
  | .missingDependencies m p w, .missingDependencies m' p' w' =>
    m == m' && sameSet p p' && sameSet w w'
  | .bad e, .bad e' => e == e'
  | .notFound r, .notFound r' => r == r'
  | .failedToDownload r, .failedToDownload r' => r == r'
  | _, _ => false

def display : Verdict → String
  | .ok => "Compatible"
  | .warnings w => "Compatible, " ++ toString w.length ++ " warning(s)"
  | .problems p _ => toString p.length ++ " compatibility problem(s)"
  | .missingDependencies m p _ =>
    toString (m.countP (!·.dependency.optional)) ++ " missing mandatory dependency(ies) and "
      ++ toString p.length ++ " compatibility problem(s)"
  | .bad errors => "Plugin is invalid: " ++ toString errors.length ++ " structure error(s)"
  | .notFound reason => "Not found: " ++ reason
  | .failedToDownload reason => "Failed to download: " ++ reason

def toJson : Verdict → Value
  | .ok => .record [("verdict", .text "ok")]
  | .warnings w =>
    .record [("verdict", .text "warnings"), ("warnings", .list (w.map Warning.toJson))]
  | .problems p w =>
    .record [("verdict", .text "problems"), ("problems", .list (p.map Problem.toJson)),
      ("warnings", .list (w.map Warning.toJson))]
  | .missingDependencies m p w =>
    .record [("verdict", .text "missing_dependencies"),
      ("missing", .list (m.map MissingDependency.toJson)),
      ("problems", .list (p.map Problem.toJson)), ("warnings", .list (w.map Warning.toJson))]
  | .bad errors =>
    .record [("verdict", .text "bad"), ("errors", .list (errors.map StructureError.toJson))]
  | .notFound reason => .record [("verdict", .text "not_found"), ("reason", .text reason)]
  | .failedToDownload reason =>
    .record [("verdict", .text "failed_to_download"), ("reason", .text reason)]

end Verdict

/-- The host build and the JDK that a plugin is checked against. -/
structure Target where
  hostVersion : String
  jdk : String
  deriving DecidableEq, Repr

def Target.display (t : Target) : String := "host " ++ t.hostVersion ++ " (JDK " ++ t.jdk ++ ")"

def Target.toJson (t : Target) : Value :=
  .record [("host_version", .text t.hostVersion), ("jdk", .text t.jdk)]

/-- The verdict on a plugin against a target. -/
structure VerificationResult where
  plugin : PluginInfo
  target : Target
  verdict : Verdict
  /-- Known only if the plugin was loaded. -/
  dynamicStatus : Option DynamicStatus := none
  deriving DecidableEq, Repr

namespace VerificationResult

def display (r : VerificationResult) : String :=
  r.plugin.display ++ " against " ++ r.target.display ++ ": " ++ r.verdict.display

def toJson (r : VerificationResult) : Value :=
  .record [("plugin", r.plugin.toJson), ("target", r.target.toJson),
    ("verdict", r.verdict.toJson),
    ("dynamic_status", Value.ofOption DynamicStatus.toJson r.dynamicStatus)]

end VerificationResult

end Linkage

import Linkage.Finding.Record
import Linkage.Plugin.Record
import Linkage.Verdict

/-!
# Records of verdicts

Verdicts and results read from the records that they are written as, and summaries of verdicts.
-/

namespace Linkage

open Json (Value)
open Json.Decode

/-- The word for a kind of verdict. -/
def VerdictKind.word : VerdictKind → String
  | .ok => "Ok"
  | .warnings => "Warnings"
  | .problems => "Problems"
  | .missingDependencies => "MissingDependencies"
  | .bad => "Bad"
  | .notFound => "NotFound"
  | .failedToDownload => "FailedToDownload"

/-- The verdict with what can be asked of it. -/
def Verdict.summary (v : Verdict) : Value :=
  .record [("verdict", v.toJson), ("kind", .text v.kind.word), ("display", .text v.display),
    ("verified", .bool v.kind.isVerified), ("is_ok", .bool (v.kind == .ok)),
    ("problems", Value.ofOption (.count ·.length) v.problems?),
    ("warnings", Value.ofOption (.count ·.length) v.warnings?), ("missing", .count v.missing.length)]

/-- Reads a missing dependency. -/
def MissingDependency.ofJson? (v : Value) : Option MissingDependency :=
  return ⟨← need v "plugin_id" text, ← need v "dependency" Dependency.ofJson?,
    ← need v "reason" text⟩

/-- Reads a verdict. -/
def Verdict.ofJson? (v : Value) : Option Verdict := do
  match ← need v "verdict" text with
  | "ok" => return .ok
  | "warnings" => return .warnings (← warningsOf v)
  | "problems" => return .problems (← problemsOf v) (← warningsOf v)
  | "missing_dependencies" =>
    return .missingDependencies (← items v "missing" MissingDependency.ofJson?) (← problemsOf v)
      (← warningsOf v)
  | "bad" => return .bad (← items v "errors" StructureError.ofJson?)
  | "not_found" => return .notFound (← need v "reason" text)
  | "failed_to_download" => return .failedToDownload (← need v "reason" text)
  | _ => none

/-- Reads a target. -/
def Target.ofJson? (v : Value) : Option Target :=
  return ⟨← need v "host_version" text, ← need v "jdk" text⟩

/-- Reads whether a plugin can be loaded without a restart. -/
def DynamicStatus.ofJson? : Value → Option DynamicStatus
  | .text "MaybeDynamic" => some .maybeDynamic
  | v => (fun reasons => .notDynamic (distinct (sortedTexts reasons))) <$>
      (field? v "NotDynamic" >>= list text)

/-- Reads a result. -/
def VerificationResult.ofJson? (v : Value) : Option VerificationResult :=
  return ⟨← need v "plugin" PluginInfo.ofJson?, ← need v "target" Target.ofJson?,
    ← need v "verdict" Verdict.ofJson?, ← opt v "dynamic_status" DynamicStatus.ofJson?⟩

end Linkage

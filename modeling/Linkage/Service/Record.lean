import Linkage.Report
import Linkage.Service.Server
import Linkage.Task.Record
import Linkage.Verdict.Record

/-!
# Records of the service

Results with their reports, and the figures of the caches, as JSON values.
-/

namespace Linkage

open Json (Value)
open Json.Decode

def VerificationFailure.toJson (f : VerificationFailure) : Value :=
  let kind := match f with
    | .interrupted => "Interrupted"
    | .classpathUnavailable _ => "ClasspathUnavailable"
  .failure kind f.message

/-- A result with its words. -/
def VerificationResult.described (r : VerificationResult) : Value :=
  .record [("result", r.toJson), ("display", .text r.display)]

/-- A result with its words and its report. -/
def VerificationResult.reported (options : ReportOptions) (r : VerificationResult) : Value :=
  r.described.plus [("report", .text (Report.text options [r]))]

/-- What the task of a request comes to: a result with its report, or an error. -/
def VerificationRequest.resultJson : TaskResult VerificationResult → Value
  | .ok r => r.reported { showDynamic := true }
  | .error e => e.toJson

/-- Reads a request: the plugin, the host build, and the path of the JDK below a base. -/
def VerificationRequest.ofJson? (base : String) (v : Value) : Option VerificationRequest :=
  return ⟨← nth v 0 text, ← nth v 1 text, Path.join base (← nth v 2 text)⟩

/-- The figures of the caches. -/
def Stock.figures {φ : Type} (s : Stock φ) : Value :=
  .record [("plugins", Value.many .count s.plugins.figures),
    ("hosts", Value.many .count s.hosts.figures), ("jdks", Value.many .count s.jdks.figures)]

/-- The stored results with their reports, in order. -/
def Recheck.resultsJson (r : Recheck) : Value :=
  Value.many (·.reported { showDynamic := true }) r.sortedResults

end Linkage

import Linkage.Artifact.Descriptor
import Linkage.Verdict

/-!
# Requests for verification

One plugin, one host build and one JDK. The JDK is given by its path; two paths with the same parts
are the same JDK.
-/

namespace Linkage

open Json (Value)

/-- What is to be verified. -/
structure VerificationRequest where
  pluginId : String
  hostVersion : String
  /-- The path of the JDK. -/
  jdk : String
  deriving Repr

/-- What tells requests apart. -/
structure RequestKey where
  pluginId : String
  hostVersion : String
  jdk : Path.Parts
  deriving DecidableEq, Repr

namespace VerificationRequest

/-- What tells the request apart from others. -/
def key (r : VerificationRequest) : RequestKey := ⟨r.pluginId, r.hostVersion, Path.parts r.jdk⟩

/-- The target that the plugin is checked against. -/
def target (r : VerificationRequest) : Target := ⟨r.hostVersion, JdkDescriptor.nameAt r.jdk⟩

def display (r : VerificationRequest) : String := r.pluginId ++ " against " ++ r.target.display

/-- The name of the task that fulfils the request. -/
def taskName (r : VerificationRequest) : String := "Verify " ++ r.display

def toJson (r : VerificationRequest) : Value :=
  .record [("plugin_id", .text r.pluginId), ("host_version", .text r.hostVersion),
    ("jdk", .text r.jdk)]

end VerificationRequest

end Linkage

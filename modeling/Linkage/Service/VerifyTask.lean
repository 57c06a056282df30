import Linkage.Service.Finder
import Linkage.Service.Request

/-!
# The task that fulfils a request

The plugin, the host build and the JDK are taken from the caches, one after the other, and given back
in the opposite order. The first one that cannot be had settles the verdict. A task ends with an error
only if it is cancelled or if a cache is closed.
-/

namespace Linkage

namespace Services

variable {φ : Type}

/-- What a lookup in a cache means for a task: a handle, a verdict, or an error. -/
def taken {κ α : Type} : CacheAnswer κ α → TaskResult (Except Verdict (Handle κ α))
  | .found handle => .ok (.ok handle)
  | .failed (.notFound reason) => .ok (.error (.notFound reason))
  | .failed (.failed message _) => .ok (.error (.failedToDownload message))
  | .refused (.cancelled reason) => .error (.cancelled reason)
  | .refused (.closed cache) => .error (.failed (CacheRefusal.closed cache).message)
  | .lost => .ok (.error (.failedToDownload BuildFailure.disappeared))

/-- Goes on with a descriptor, or ends with the verdict that there is none. -/
def withTaken {κ α : Type} (answer : CacheAnswer κ α) (result : Verdict → VerificationResult)
    (use : Handle κ α → StockWork φ (TaskResult VerificationResult)) :
    StockWork φ (TaskResult VerificationResult) :=
  match taken answer with
  | .error e => return .error e
  | .ok (.error verdict) => return .ok (result verdict)
  | .ok (.ok handle) => use handle

/-- The part of the work that the engine does. -/
def engineShare (fraction : Float) : Float := 0.1 + 0.9 * fraction

/-- Gives back handles of plugins in turn. -/
def releasePlugins (services : Services φ) : List (Handle String PluginDescriptor) → StockWork φ Unit
  | [] => pure ()
  | handle :: rest => do
    Stock.withPlugins (services.plugins.release handle)
    services.releasePlugins rest

/-- Runs the engine and gives back what was held for it. -/
def runEngine (services : Services φ) (target : Target) (plugin : Plugin) (host : HostDescriptor)
    (jdk : JdkDescriptor) : StockWork φ (Except VerificationFailure VerificationResult) := do
  let outcome ← Verification.run services.engine {
    plugin := plugin
    target := target
    host := .reliable host.classes
    jdk := .reliable jdk.classes
    finder := services.finder host (← get)
    shouldStop := return (← Stock.atWorkplace Workplace.cancelled).isSome
    progress := fun fraction => Stock.atWorkplace (Workplace.report (engineShare fraction)) }
  services.releasePlugins outcome.keepalives
  return outcome.answer

/-- Verifies a plugin with all that is needed at hand. -/
def verifyLoaded (services : Services φ) (target : Target) (plugin : Plugin) (host : HostDescriptor)
    (jdk : JdkDescriptor) : StockWork φ (TaskResult VerificationResult) := do
  Stock.atWorkplace (Workplace.report 0.1)
  match ← Stock.atWorkplace Workplace.cancelled with
  | some reason => return .error (.cancelled reason)
  | none =>
    match ← services.runEngine target plugin host jdk with
    | .ok result => return .ok result
    | .error .interrupted => do
      let reason := (← get).workplace.token.reason
      return .error (.cancelled (reason.getD "interrupted"))
    | .error (.classpathUnavailable failure) =>
      return .ok ⟨plugin.info, target, .failedToDownload failure.message, none⟩

/-- Takes the JDK and verifies. -/
def verifyOnHost (services : Services φ) (request : VerificationRequest) (plugin : Plugin)
    (host : HostDescriptor) : StockWork φ (TaskResult VerificationResult) := do
  let target := request.target
  let answer ← Stock.withJdks (services.jdks.get Workplace.cancelled request.jdk)
  withTaken answer (fun verdict => ⟨plugin.info, target, verdict, none⟩) fun jdk => do
    let result ← services.verifyLoaded target plugin host jdk.value
    Stock.withJdks (services.jdks.release jdk)
    return result

/-- Takes the host build and the JDK, and verifies. -/
def verifyPlugin (services : Services φ) (request : VerificationRequest) (plugin : Plugin) :
    StockWork φ (TaskResult VerificationResult) := do
  let answer ← Stock.withHosts (services.hosts.get Workplace.cancelled request.hostVersion)
  withTaken answer (fun verdict => ⟨plugin.info, request.target, verdict, none⟩) fun host => do
    let result ← services.verifyOnHost request plugin host.value
    Stock.withHosts (services.hosts.release host)
    return result

/-- Fulfils a request. -/
def execute (services : Services φ) (request : VerificationRequest) :
    StockWork φ (TaskResult VerificationResult) := do
  let answer ← Stock.withPlugins (services.plugins.get Workplace.cancelled request.pluginId)
  let unresolved : PluginInfo := ⟨request.pluginId, PluginInfo.unknownVersion, none⟩
  withTaken answer (fun verdict => ⟨unresolved, request.target, verdict, none⟩) fun plugin => do
    Stock.atWorkplace (Workplace.report 0.05)
    let result ← services.verifyPlugin request plugin.value.plugin
    Stock.withPlugins (services.plugins.release plugin)
    return result

end Services

end Linkage

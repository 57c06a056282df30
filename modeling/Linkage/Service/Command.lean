import Linkage.Artifact.Record
import Linkage.Service.Record

/-!
# Commands to a server

What a server and its re-check can be asked to do, read from lists that begin with a word, and their
answers as JSON values. Tasks that a command puts into the queue are done before it is answered.
-/

namespace Linkage

open Json (Value)
open Json.Decode

/-- What a server can be asked to do. -/
inductive ServerCommand where
  | submit (request : VerificationRequest) (priority : Nat)
  | invalidatePlugin (id : String)
  | invalidateHost (version : String)
  | evictExpired
  /-- Ask both repositories for an artifact. -/
  | fetch (id : String)
  | startRecheck (plan : List VerificationRequest)
  /-- Give the re-check another plan. -/
  | setPlan (plan : List VerificationRequest)
  | checkNow
  | result (request : VerificationRequest)
  | results
  | forget (request : VerificationRequest)
  | stopRecheck
  | closePlugins
  | shutDownQueue
  | close

/-- Reads a command; paths of JDKs are below `base`. -/
def ServerCommand.ofJson? (base : String) (v : Value) : Option ServerCommand := do
  let request := VerificationRequest.ofJson? base
  match ← nth v 0 text with
  | "submit" =>
    return .submit ⟨← nth v 1 text, ← nth v 2 text, Path.join base (← nth v 3 text)⟩
      (← nth v 4 natural)
  | "invalidate" =>
    match ← nth v 1 text with
    | "plugins" => .invalidatePlugin <$> nth v 2 text
    | "hosts" => .invalidateHost <$> nth v 2 text
    | _ => none
  | "evict" => return .evictExpired
  | "fetch" => .fetch <$> nth v 1 text
  | "recheck" => .startRecheck <$> nth v 1 (list request)
  | "plan" => .setPlan <$> nth v 1 (list request)
  | "check" => return .checkNow
  | "result" => .result <$> nth v 1 request
  | "results" => return .results
  | "forget" => .forget <$> nth v 1 request
  | "stop" => return .stopRecheck
  | "close_plugins" => return .closePlugins
  | "shutdown" => return .shutDownQueue
  | "close" => return .close
  | _ => none

namespace Server

/-- The re-check, or one without a plan. -/
def recheckOrNone (s : Server) : Recheck := s.recheck.getD { plan := [] }

/-- Submits a request, has it done, and tells what has become of its task. -/
def submitAndAwait (request : VerificationRequest) (priority : Nat) : StateM Server Value := do
  match ← submit request priority with
  | .error e => return e.toJson
  | .ok id => do
    modify work
    match (← get).verifier.queue.tasks.get? id with
    | none => return .null
    | some task =>
      let result := (task.result.map VerificationRequest.resultJson).getD .null
      return result.plus [("name", .text task.name),
        ("progress", .text (bitsText task.progress.fraction))]

/-- What the repositories know of an artifact; nothing where one fails. -/
def fetchBoth (s : Server) (id : String) : Value :=
  let site := s.verifier.stock.workplace.place
  Value.many (fun (r : LocalRepository) =>
    Value.ofOption ArtifactInfo.toJson (r.fetch id s.files).toOption.join) [site.plugins, site.hosts]

/-- Changes the re-check. -/
def modifyRecheck (f : Recheck → Recheck) : StateM Server Unit :=
  modify fun s => { s with recheck := some (f s.recheckOrNone) }

/-- Does what a command asks for. -/
def perform : ServerCommand → StateM Server Value
  | .submit request priority => submitAndAwait request priority
  | .invalidatePlugin id => do
    let s ← get
    return .bool (← withStock (Stock.withPlugins (s.services.plugins.invalidate id)))
  | .invalidateHost version => do
    let s ← get
    return .bool (← withStock (Stock.withHosts (s.services.hosts.invalidate version)))
  | .evictExpired => do
    let s ← get
    return Value.many .count (← withStock s.services.evictExpired)
  | .fetch id => return (← get).fetchBoth id
  | .startRecheck plan => do
    let _ ← Server.startRecheck plan
    modify work
    return (← get).recheckOrNone.resultsJson
  | .setPlan plan => do
    modifyRecheck fun r => { r with plan := plan }
    return .null
  | .checkNow => do
    let submitted ← Server.checkNow
    modify work
    return .count submitted
  | .result request => do
    let found := (← get).recheckOrNone.results.get? request.key
    return Value.ofOption VerificationResult.toJson found
  | .results => return (← get).recheckOrNone.resultsJson
  | .forget request => do
    let (known, r) := (← get).recheckOrNone.forget request.key
    modifyRecheck fun _ => r
    return .bool known
  | .stopRecheck => do
    modifyRecheck fun r => { r with isRunning := false }
    return .null
  | .closePlugins => do
    let s ← get
    withStock (Stock.withPlugins s.services.plugins.close)
    return .null
  | .shutDownQueue => do
    modify Server.shutDownQueue
    return .null
  | .close => do
    modify Server.close
    return .null

/-- Whether the server and its queue are closed. -/
def closedJson (s : Server) : Value :=
  .record [("closed", .bool s.isClosed), ("shut_down", .bool s.verifier.queue.isShutDown)]

/-- How far the re-check has come. -/
def recheckJson (s : Server) : Value :=
  let r := s.recheckOrNone
  .record [("count", .count r.results.size), ("pending", .count r.inFlight.length),
    ("running", .bool r.isRunning)]

end Server

end Linkage

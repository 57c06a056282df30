import Linkage.Config
import Linkage.Service.Recheck

/-!
# The verification server

A server has its repositories, caches and queue below one home directory. It is closed in a fixed
order: re-checking, the queue, then the caches of plugins, host builds and JDKs.
-/

namespace Linkage

/-- What descriptors are built from: the files and the two repositories. -/
structure Site where
  files : FileTree
  plugins : LocalRepository
  hosts : LocalRepository

namespace Site

/-- The files of a workplace at a site. -/
def disk : DiskIn (Workplace Site) where
  files := fun w => w.place.files
  setFiles := fun t w => { w with place := { w.place with files := t } }

/-- The repository of plugins. -/
def pluginSource : ArtifactSource (Workplace Site) :=
  .ofLocal disk (fun w => w.place.plugins) fun r w =>
    { w with place := { w.place with plugins := r } }

/-- The repository of host builds. -/
def hostSource : ArtifactSource (Workplace Site) :=
  .ofLocal disk (fun w => w.place.hosts) fun r w => { w with place := { w.place with hosts := r } }

end Site

/-- A server. -/
structure Server where
  services : Services Site
  verifier : Verifier Site
  recheck : Option Recheck := none
  isClosed : Bool := false

namespace Server

/-- The providers of a server. -/
def servicesOf (c : Config) : Services Site :=
  let options (name : String) (capacity : Nat) : CacheOptions := ⟨name, capacity, c.idleTtl⟩
  { engine := { external := .ofEntries c.externalPrefixes }
    plugins := {
      options := options "plugins" c.pluginCapacity
      key := id
      build := Site.pluginSource.plugin Site.disk
      discard := fun d => Site.disk.discard d.artifact
      now := Workplace.now }
    hosts := {
      options := options "hosts" c.hostCapacity
      key := id
      build := Site.hostSource.host Site.disk
      discard := fun d => Site.disk.discard d.artifact
      now := Workplace.now }
    jdks := {
      options := options "jdks" c.jdkCapacity
      key := Path.parts
      build := fun path => return JdkDescriptor.obtain path (← get).place.files
      now := Workplace.now }
    pluginsAt := fun site => site.files.size }

/-- A server as configured, below a home directory. -/
def start (c : Config) (home : String) (workers : Nat) (files : FileTree) :
    Except Config.Defect Server :=
  match c.defect? with
  | some defect => .error defect
  | none =>
    let site : Site :=
      ⟨files, ⟨Config.pluginsDir home, some (Config.extractedDir home), 0⟩,
        ⟨Config.hostsDir home, none, 0⟩⟩
    .ok {
      services := servicesOf c
      verifier := ⟨{ workplace := { place := site } },
        { RequestQueue.ofWorkers workers with timeout := c.taskTimeout }⟩ }

/-- The files as they are. -/
def files (s : Server) : FileTree := s.verifier.stock.workplace.place.files

/-- The time. -/
def now (s : Server) : Nat := s.verifier.stock.workplace.now

/-- Works with the stock. -/
def withStock {β : Type} (work : StockWork Site β) : StateM Server β := fun s =>
  let (x, stock) := work.run s.verifier.stock
  (x, { s with verifier := { s.verifier with stock := stock } })

/-- The server with its verifier changed. What tasks have come to meanwhile is told to the re-check. -/
def withVerifier (s : Server) (v : Verifier Site) : Server :=
  let news := v.queue.events.drop s.verifier.queue.events.length
  { s with verifier := v, recheck := s.recheck.map (·.hearAll news) }

/-- Works until no task waits. -/
def work (s : Server) : Server := s.withVerifier (s.verifier.work s.services)

/-- Submits a request. -/
def submit (request : VerificationRequest) (priority : Nat) : StateM Server (TaskResult Nat) := fun s =>
  let (answer, queue) := s.verifier.queue.put s.now request priority false
  (answer, { s with verifier := { s.verifier with queue := queue } })

/-- Goes once through the plan; gives how many requests were submitted. -/
def checkNow : StateM Server Nat := fun s =>
  match s.recheck with
  | none => (0, s)
  | some r =>
    let (n, r, queue) := r.round s.now s.verifier.queue
    (n, { s with recheck := some r, verifier := { s.verifier with queue := queue } })

/-- Begins to re-check a plan, in place of an earlier one. -/
def startRecheck (plan : List VerificationRequest) : StateM Server Nat := do
  modify fun s => { s with recheck := some { plan := plan } }
  checkNow

/-- Accepts no more tasks. -/
def shutDownQueue (s : Server) : Server :=
  s.withVerifier { s.verifier with queue := s.verifier.queue.shutDown }

/-- Closes the server; a second time nothing is done. -/
def close (s : Server) : Server :=
  if s.isClosed then s
  else
    let s := { s with recheck := none, isClosed := true }.shutDownQueue
    ((withStock s.services.close).run s).2

end Server

end Linkage

import Linkage.Cache.System

/-!
# A cache of plugins on disk

A system is a cache of plugins with all that is going on around it, and with the repository and the files that
its plugins come from. It changes by events. A call that has to build does so in one event, with the files as
they are then, and hands over in another one what its build has come to. A victim that is closed has its
artifact given up.
-/

namespace Linkage

/-- The artifact as it is once it has been given up. -/
def ExtractedArtifact.givenUp (a : ExtractedArtifact) : ExtractedArtifact := { a with closed := true }

/-- A cache of plugins, a repository and files. -/
structure PluginSystem where
  caching : CacheSystem String PluginDescriptor
  repository : LocalRepository
  files : FileTree
  /-- What builds have come to that have not been handed over, by the calls that build. -/
  built : Table Nat (Except BuildFailure PluginDescriptor) := Table.empty
  /-- Where artifacts were extracted to, in order. -/
  extracted : List String := []
  /-- The artifacts that were given up, in order, as they are since then. -/
  closed : List ExtractedArtifact := []

/-- What can happen. -/
inductive PluginEvent where
  | elapse (ms : Nat)
  | expire
  | request (call : Nat) (id : String)
  /-- A call fetches, downloads and loads its plugin. -/
  | build (call : Nat)
  /-- A call hands over what its build has come to. -/
  | complete (call : Nat)
  | wake (call : Nat)
  | abandon (call : Nat) (reason : String)
  | release (call : Nat)
  | invalidate (id : String)
  | close
  /-- The victim at a place in the list is closed. -/
  | dispose (place : Nat)

namespace PluginSystem

/-- A system in which nothing has happened. -/
def new (o : CacheOptions) (r : LocalRepository) (t : FileTree) : PluginSystem where
  caching := { options := o }
  repository := r
  files := t

/-- The files beside the repository. -/
def disk : DiskIn (FileTree × LocalRepository) := ⟨Prod.fst, fun t s => (t, s.2)⟩

/-- Where plugins come from. -/
def source : ArtifactSource (FileTree × LocalRepository) := .ofLocal disk Prod.snd fun r s => (s.1, r)

/-- The artifact that a build of a plugin extracts as things are, if it comes so far. -/
def extraction? (s : PluginSystem) (id : String) : Option ExtractedArtifact :=
  match s.repository.fetch id s.files with
  | .ok (some info) => (s.repository.download info s.files).1.1.toOption.map .ofDownload
  | _ => none

/-- A call builds a plugin. -/
def build (s : PluginSystem) (call : Nat) (id : String) : PluginSystem :=
  let (outcome, files, repository) := (source.plugin disk id).run (s.files, s.repository)
  let made := (s.extraction? id).toList
  { s with
    repository := repository
    files := files
    built := s.built.put call outcome
    extracted := s.extracted ++ made.map (·.path)
    closed := s.closed ++ if outcome.isOk then [] else made.map (·.givenUp) }

/-- Gives up the artifact of a victim. -/
def giveUp (s : PluginSystem) (v : Victim String PluginDescriptor) : PluginSystem :=
  let ((_, a), files) := (v.value.artifact.close).run s.files
  { s with files := files, closed := s.closed ++ [a] }

/-- What an event does outside the cache. -/
def work (s : PluginSystem) : PluginEvent → PluginSystem
  | .build call =>
    match s.caching.calls.get? call, s.built.get? call with
    | some ⟨id, .building _⟩, none => s.build call id
    | _, _ => s
  | .complete call => { s with built := s.built.erase call }
  | .dispose place => (s.caching.doomed[place]?).elim s s.giveUp
  | _ => s

/-- What an event is to the cache, if anything. -/
def cacheEvent? (s : PluginSystem) : PluginEvent → Option (CacheEvent String PluginDescriptor)
  | .elapse ms => some (.elapse ms)
  | .expire => some .expire
  | .request call id => some (.request call id)
  | .build _ => none
  | .complete call => (s.built.get? call).map (.complete call)
  | .wake call => some (.wake call)
  | .abandon call reason => some (.abandon call reason)
  | .release call => some (.release call)
  | .invalidate id => some (.invalidate id)
  | .close => some .close
  | .dispose place => some (.dispose place)

/-- One event. -/
def step (s : PluginSystem) (event : PluginEvent) : PluginSystem :=
  { s.work event with caching := (s.cacheEvent? event).elim s.caching s.caching.step }

/-- Events in turn. -/
def run (s : PluginSystem) (events : List PluginEvent) : PluginSystem := events.foldl step s

end PluginSystem

end Linkage

import Linkage.Cache.Basic

/-!
# Caches with calls under way

A system is a cache together with the calls that are under way, the handles that callers hold, the
victims that have not been closed yet, and those that have. It changes by events, each of which is one
step of the cache. Victims are closed by whoever took them out, in any order. An event that cannot
happen changes nothing.
-/

namespace Linkage

/-- Where a call is. -/
inductive CallStage where
  | building (id : Nat)
  | waiting (id : Nat)
  deriving DecidableEq, Repr

/-- A call under way. -/
structure CacheCall (κ : Type) where
  key : κ
  stage : CallStage
  deriving DecidableEq, Repr

/-- What a call comes to. -/
inductive CacheAnswer (κ α : Type) where
  | found (handle : Handle κ α)
  | failed (failure : BuildFailure)
  | refused (refusal : CacheRefusal)
  /-- The build succeeded, but its descriptor is not where it should be. -/
  | lost

/-- A cache and all that is going on around it. Calls are known by their numbers. -/
structure CacheSystem (κ α : Type) where
  options : CacheOptions
  cache : Cache κ α := {}
  /-- The time in milliseconds. -/
  now : Nat := 0
  calls : Table Nat (CacheCall κ) := Table.empty
  /-- What calls have come to. -/
  answers : Table Nat (CacheAnswer κ α) := Table.empty
  /-- The handles that are held, by the calls that got them. -/
  held : Table Nat (Handle κ α) := Table.empty
  /-- The victims that are still to be closed, in order. -/
  doomed : List (Victim κ α) := []
  /-- The victims that have been closed, in order. -/
  closed : List (Victim κ α) := []

/-- What can happen. -/
inductive CacheEvent (κ α : Type) where
  | elapse (ms : Nat)
  | expire
  | request (call : Nat) (key : κ)
  /-- A build comes to its end. -/
  | complete (call : Nat) (outcome : Except BuildFailure α)
  /-- A waiter looks for the build that it waits for. -/
  | wake (call : Nat)
  /-- A waiter is cancelled. -/
  | abandon (call : Nat) (reason : String)
  | release (call : Nat)
  | invalidate (key : κ)
  | close
  /-- The victim at a place in the list is closed. -/
  | dispose (place : Nat)

namespace CacheSystem

variable {κ α : Type} [DecidableEq κ]

/-- The system after a step of the cache with victims. -/
def absorb (s : CacheSystem κ α) (step : List (Victim κ α) × Cache κ α) : CacheSystem κ α :=
  { s with cache := step.2, doomed := s.doomed ++ step.1 }

/-- Ends a call. -/
def answer (s : CacheSystem κ α) (call : Nat) (a : CacheAnswer κ α) : CacheSystem κ α :=
  let s := { s with calls := s.calls.erase call, answers := s.answers.put call a }
  match a with
  | .found handle => { s with held := s.held.put call handle }
  | _ => s

/-- Whether a call was made before. -/
def isKnown (s : CacheSystem κ α) (call : Nat) : Bool :=
  s.calls.contains call || s.answers.contains call

/-- A call asks for a key. -/
def request (s : CacheSystem κ α) (call : Nat) (key : κ) : CacheSystem κ α :=
  let (r, cache) := s.cache.request s.options s.now key
  let s := { s with cache := cache }
  match r with
  | .refused refusal => s.answer call (.refused refusal)
  | .hit handle => s.answer call (.found handle)
  | .wait id => { s with calls := s.calls.put call ⟨key, .waiting id⟩ }
  | .build id => { s with calls := s.calls.put call ⟨key, .building id⟩ }

/-- The build of a call ends. -/
def complete (s : CacheSystem κ α) (call : Nat) (key : κ) (id : Nat)
    (outcome : Except BuildFailure α) : CacheSystem κ α :=
  let s := s.absorb (s.cache.complete s.options s.now key id outcome)
  match outcome with
  | .ok value => s.answer call (.found ⟨key, id, value⟩)
  | .error failure => s.answer call (.failed failure)

/-- A waiter looks for its build. -/
def wake (s : CacheSystem κ α) (call : Nat) (key : κ) (id : Nat) : CacheSystem κ α :=
  let (sighting, cache) := s.cache.observe key id
  let s := { s with cache := cache }
  match sighting with
  | .stillBuilding => s
  | .found handle => s.answer call (.found handle)
  | .failed failure => s.answer call (.failed failure)
  | .gone => s.answer call .lost

/-- A waiter is cancelled, unless its build has ended. -/
def abandon (s : CacheSystem κ α) (call : Nat) (key : κ) (id : Nat) (reason : String) :
    CacheSystem κ α :=
  if (s.cache.building.get? key).any (·.id == id) then
    { s with cache := s.cache.abandon key }.answer call (.refused (.cancelled reason))
  else s

/-- One event. -/
def step (s : CacheSystem κ α) : CacheEvent κ α → CacheSystem κ α
  | .elapse ms => { s with now := s.now + ms }
  | .expire => s.absorb (s.cache.expire s.options s.now)
  | .request call key => if s.isKnown call then s else s.request call key
  | .complete call outcome =>
    match s.calls.get? call with
    | some ⟨key, .building id⟩ => s.complete call key id outcome
    | _ => s
  | .wake call =>
    match s.calls.get? call with
    | some ⟨key, .waiting id⟩ => s.wake call key id
    | _ => s
  | .abandon call reason =>
    match s.calls.get? call with
    | some ⟨key, .waiting id⟩ => s.abandon call key id reason
    | _ => s
  | .release call =>
    match s.held.get? call with
    | some handle =>
      { s with held := s.held.erase call }.absorb
        (s.cache.release s.options s.now handle.key handle.id)
    | none => s
  | .invalidate key =>
    let ((_, victims), cache) := s.cache.invalidate key
    s.absorb (victims, cache)
  | .close => s.absorb s.cache.close
  | .dispose place =>
    match s.doomed[place]? with
    | none => s
    | some v =>
      { s with
        cache := s.cache.countEviction
        doomed := s.doomed.eraseIdx place
        closed := s.closed ++ [v] }

/-- Events in turn. -/
def run (s : CacheSystem κ α) (events : List (CacheEvent κ α)) : CacheSystem κ α :=
  events.foldl step s

/-- Closes all victims, the first one first. -/
def disposeAll (s : CacheSystem κ α) : CacheSystem κ α :=
  s.run (s.doomed.map fun _ => .dispose 0)

/-- The calls that wait for the build of a key. -/
def waitersOf (s : CacheSystem κ α) (key : κ) : List Nat :=
  (s.calls.entries.filter fun e => e.2.key = key).map (·.1)

end CacheSystem

end Linkage

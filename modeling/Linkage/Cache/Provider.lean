import Linkage.Cache.System

/-!
# Providers of descriptors

A provider is a cache together with what builds and discards its descriptors. Here calls are made one
after the other: a call that misses builds at once, and a call that finds a build of someone else under
way lets it come to its end, unless the caller is cancelled. Victims are discarded before the call
returns.
-/

namespace Linkage

/-- A cache by what descriptors are asked for with, `ι`, and by the keys they are held under, `κ`.
Building and discarding may change the state `ω`. -/
structure Provider (ω ι κ α : Type) where
  options : CacheOptions
  key : ι → κ
  build : ι → StateM ω (Except BuildFailure α)
  discard : α → StateM ω Unit := fun _ => pure ()
  /-- The time. -/
  now : ω → Nat

/-- A cache and the state that its descriptors are built from. -/
structure Stocked (ω κ α : Type) where
  outside : ω
  cache : Cache κ α

/-- Work on a cache and on the state that its descriptors are built from. -/
abbrev CacheWork (ω κ α β : Type) := StateM (Stocked ω κ α) β

/-- The answer to a build. -/
def CacheAnswer.ofBuild {κ α : Type} (key : κ) (id : Nat) : Except BuildFailure α → CacheAnswer κ α
  | .ok value => .found ⟨key, id, value⟩
  | .error failure => .failed failure

namespace Provider

variable {ω ι κ α : Type} [DecidableEq κ]

/-- Does work on the state outside. -/
def outside {β : Type} (work : StateM ω β) : CacheWork ω κ α β := fun s =>
  let (x, o) := work.run s.outside
  (x, { s with outside := o })

/-- Does a step of the cache at the time that it is. -/
def inside (p : Provider ω ι κ α) {β : Type} (step : Nat → Cache κ α → β × Cache κ α) :
    CacheWork ω κ α β := fun s =>
  let (x, c) := step (p.now s.outside) s.cache
  (x, { s with cache := c })

/-- Discards victims. -/
def discardAll (p : Provider ω ι κ α) : List (Victim κ α) → CacheWork ω κ α Unit
  | [] => pure ()
  | v :: rest => do
    p.inside fun _ c => ((), c.countEviction)
    outside (p.discard v.value)
    p.discardAll rest

/-- Evicts what is idle for too long; gives how many that were. -/
def evictExpired (p : Provider ω ι κ α) : CacheWork ω κ α Nat := do
  let victims ← p.inside fun now c => c.expire p.options now
  p.discardAll victims
  return victims.length

/-- Asks for a descriptor. -/
def ask (p : Provider ω ι κ α) (i : ι) : CacheWork ω κ α (CacheRequest κ α) := do
  let _ ← p.evictExpired
  p.inside fun now c => c.request p.options now (p.key i)

/-- Builds a descriptor and ends the build. -/
def buildNow (p : Provider ω ι κ α) (i : ι) (id : Nat) : CacheWork ω κ α (CacheAnswer κ α) := do
  let outcome ← outside (p.build i)
  let victims ← p.inside fun now c => c.complete p.options now (p.key i) id outcome
  p.discardAll victims
  return .ofBuild (p.key i) id outcome

/-- Takes what the build of another caller has come to. -/
def collect (p : Provider ω ι κ α) (key : κ) (id : Nat) : CacheWork ω κ α (CacheAnswer κ α) := do
  match ← p.inside fun _ c => c.observe key id with
  | .found handle => return .found handle
  | .failed failure => return .failed failure
  | .stillBuilding | .gone => return .lost

/-- Gets a descriptor; `cancelled` tells why the caller does not want to wait any longer. -/
def get (p : Provider ω ι κ α) (cancelled : StateM ω (Option String)) (i : ι) :
    CacheWork ω κ α (CacheAnswer κ α) := do
  match ← p.ask i with
  | .refused refusal => return .refused refusal
  | .hit handle => return .found handle
  | .build id => p.buildNow i id
  | .wait id =>
    match ← outside cancelled with
    | some reason => do
      p.inside fun _ c => ((), c.abandon (p.key i))
      return .refused (.cancelled reason)
    | none => do
      let _ ← p.buildNow i id
      p.collect (p.key i) id

/-- Gives back a handle. -/
def release (p : Provider ω ι κ α) (handle : Handle κ α) : CacheWork ω κ α Unit := do
  p.discardAll (← p.inside fun now c => c.release p.options now handle.key handle.id)

/-- Drops the descriptor of a key; tells whether there was one. -/
def invalidate (p : Provider ω ι κ α) (key : κ) : CacheWork ω κ α Bool := do
  let (known, victims) ← p.inside fun _ c => c.invalidate key
  p.discardAll victims
  return known

/-- Closes the cache. -/
def close (p : Provider ω ι κ α) : CacheWork ω κ α Unit := do
  p.discardAll (← p.inside fun _ c => c.close)

end Provider

end Linkage

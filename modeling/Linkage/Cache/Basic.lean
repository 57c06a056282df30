import Linkage.Artifact.Building

/-!
# Caches of descriptors

A cache holds descriptors under their keys as long as they are referenced, and unreferenced ones as
long as there is room and they are not idle for too long. Those who ask for a key while it is being
built wait for that build and get what it comes to. A failed build is not kept.

Every change is a step that is done at once. A step may take descriptors out of the cache, its
victims; each of them is closed afterwards, outside the step. A descriptor is known by the number of
its build, so that a handle finds it also when its key has been invalidated and built anew.
-/

namespace Linkage

/-- A descriptor in the cache. -/
structure CacheEntry (α : Type) where
  /-- The number of its build. -/
  id : Nat
  value : α
  /-- How many handles and waiters it is owed to. -/
  refs : Nat
  /-- When it was last taken or given back. -/
  lastUsed : Nat
  /-- Its place in the order of use. -/
  tick : Nat

/-- A build under way. -/
structure BuildSlot where
  id : Nat
  waiters : Nat
  deriving DecidableEq, Repr

/-- A build that failed, for those who waited for it and have not heard. -/
structure FailedBuild where
  failure : BuildFailure
  pending : Nat
  deriving DecidableEq, Repr

/-- What has happened in a cache. Waiting for a build counts as a hit. -/
structure CacheCounts where
  hits : Nat := 0
  misses : Nat := 0
  builds : Nat := 0
  failures : Nat := 0
  evictions : Nat := 0
  deriving DecidableEq, Repr

/-- How a cache behaves. -/
structure CacheOptions where
  name : String
  capacity : Nat := 16
  /-- After how many milliseconds an unreferenced descriptor is idle for too long. -/
  idleTtl : Option Nat := none

/-- Descriptors `α` by keys `κ`. -/
structure Cache (κ α : Type) where
  entries : Table κ (CacheEntry α) := Table.empty
  /-- Invalidated descriptors that are still referenced, by number. -/
  retired : Table Nat (CacheEntry α) := Table.empty
  building : Table κ BuildSlot := Table.empty
  /-- Failed builds by number. -/
  failures : Table Nat FailedBuild := Table.empty
  nextId : Nat := 1
  tick : Nat := 0
  isClosed : Bool := false
  counts : CacheCounts := {}

/-- A reference to a descriptor. -/
structure Handle (κ α : Type) where
  key : κ
  id : Nat
  value : α

/-- A descriptor that was taken out of the cache. -/
structure Victim (κ α : Type) where
  key : κ
  id : Nat
  value : α

/-- Why a cache does not answer. -/
inductive CacheRefusal where
  | cancelled (reason : String)
  | closed (cache : String)
  deriving DecidableEq, Repr

def CacheRefusal.message : CacheRefusal → String
  | .cancelled reason => "Waiting for descriptor was cancelled: " ++ reason
  | .closed cache => "Descriptor cache " ++ cache ++ " is closed"

/-- How a request goes on. -/
inductive CacheRequest (κ α : Type) where
  | refused (refusal : CacheRefusal)
  | hit (handle : Handle κ α)
  /-- Someone else builds; the number is that of the build. -/
  | wait (id : Nat)
  /-- The one who asks has to build. -/
  | build (id : Nat)

/-- What a waiter finds. -/
inductive CacheSighting (κ α : Type) where
  | stillBuilding
  | found (handle : Handle κ α)
  | failed (failure : BuildFailure)
  /-- The descriptor is neither in the cache nor retired. -/
  | gone

namespace Cache

variable {κ α : Type} [DecidableEq κ]

/-- How many descriptors are held under keys. -/
def size (c : Cache κ α) : Nat := c.entries.size

/-- How many references there are to the descriptor of a key. -/
def refs? (c : Cache κ α) (key : κ) : Option Nat := (c.entries.get? key).map (·.refs)

/-- How many descriptors are held, and then the counts. -/
def figures (c : Cache κ α) : List Nat :=
  [c.size, c.counts.hits, c.counts.misses, c.counts.builds, c.counts.failures, c.counts.evictions]

/-- Changes the counts. -/
def count (c : Cache κ α) (f : CacheCounts → CacheCounts) : Cache κ α := { c with counts := f c.counts }

/-- Takes the descriptors of some keys out of the cache. -/
def takeOut (c : Cache κ α) (gone : κ × CacheEntry α → Bool) : List (Victim κ α) × Cache κ α :=
  ((c.entries.entries.filter gone).map fun e => ⟨e.1, e.2.id, e.2.value⟩,
    { c with entries := ⟨c.entries.entries.filter fun e => !gone e⟩ })

/-! ## Eviction -/

/-- Whether a descriptor is unreferenced and idle for too long. -/
def isExpired (ttl now : Nat) (e : CacheEntry α) : Bool := e.refs == 0 && ttl ≤ now - e.lastUsed

/-- Takes out what is idle for too long. -/
def expire (o : CacheOptions) (now : Nat) (c : Cache κ α) : List (Victim κ α) × Cache κ α :=
  match o.idleTtl with
  | none => ([], c)
  | some ttl => c.takeOut fun e => isExpired ttl now e.2

/-- The unreferenced descriptor that was used least recently. -/
def oldest? : List (κ × CacheEntry α) → Option (κ × CacheEntry α)
  | [] => none
  | e :: rest =>
    if e.2.refs ≠ 0 then oldest? rest
    else
      match oldest? rest with
      | none => some e
      | some other => if other.2.tick < e.2.tick then some other else some e

/-- Takes out the oldest unreferenced descriptors, `excess` of them if there are so many. -/
def evictOldest : Nat → Cache κ α → List (Victim κ α) × Cache κ α
  | 0, c => ([], c)
  | excess + 1, c =>
    match oldest? c.entries.entries with
    | none => ([], c)
    | some (key, e) =>
      let (victims, c) := evictOldest excess { c with entries := c.entries.erase key }
      (⟨key, e.id, e.value⟩ :: victims, c)

/-- Takes out unreferenced descriptors until the others fit, the oldest ones first. -/
def evictExcess (o : CacheOptions) (c : Cache κ α) : List (Victim κ α) × Cache κ α :=
  c.evictOldest (c.size - o.capacity)

/-! ## Requests -/

/-- Asks for a key. -/
def request (o : CacheOptions) (now : Nat) (c : Cache κ α) (key : κ) :
    CacheRequest κ α × Cache κ α :=
  if c.isClosed then (.refused (.closed o.name), c)
  else
    let tick := c.tick + 1
    match c.entries.get? key, c.building.get? key with
    | some e, _ =>
      (.hit ⟨key, e.id, e.value⟩,
        { c with
          tick := tick
          entries := c.entries.modify key fun e =>
            { e with refs := e.refs + 1, lastUsed := now, tick := tick }
        }.count fun n => { n with hits := n.hits + 1 })
    | none, some slot =>
      (.wait slot.id,
        { c with
          tick := tick
          building := c.building.modify key fun slot => { slot with waiters := slot.waiters + 1 }
        }.count fun n => { n with hits := n.hits + 1 })
    | none, none =>
      (.build c.nextId,
        { c with
          tick := tick
          nextId := c.nextId + 1
          building := c.building.put key ⟨c.nextId, 0⟩
        }.count fun n => { n with misses := n.misses + 1 })

/-- Ends a build that succeeded; its descriptor is owed to the builder and to all who wait. -/
def enroll (now : Nat) (c : Cache κ α) (key : κ) (id : Nat) (value : α) (waiters : Nat) : Cache κ α :=
  let tick := c.tick + 1
  { c with
    tick := tick
    entries := c.entries.put key ⟨id, value, 1 + waiters, now, tick⟩
  }.count fun n => { n with builds := n.builds + 1 }

/-- Ends a build that failed; the failure is kept for those who wait. -/
def recordFailure (c : Cache κ α) (id : Nat) (failure : BuildFailure) (waiters : Nat) : Cache κ α :=
  { c with
    failures := if waiters = 0 then c.failures else c.failures.put id ⟨failure, waiters⟩
  }.count fun n => { n with failures := n.failures + 1 }

/-- Ends a build with what it came to. -/
def complete (o : CacheOptions) (now : Nat) (c : Cache κ α) (key : κ) (id : Nat)
    (outcome : Except BuildFailure α) : List (Victim κ α) × Cache κ α :=
  let waiters := ((c.building.get? key).map (·.waiters)).getD 0
  let c := { c with building := c.building.erase key }
  let c := match outcome with
    | .ok value => c.enroll now key id value waiters
    | .error failure => c.recordFailure id failure waiters
  c.evictExcess o

/-- Looks for what a build came to, on behalf of one who waits for it. -/
def observe (c : Cache κ α) (key : κ) (id : Nat) : CacheSighting κ α × Cache κ α :=
  if (c.building.get? key).any (·.id == id) then (.stillBuilding, c)
  else
    match c.failures.get? id with
    | some f =>
      (.failed f.failure,
        { c with failures :=
            if f.pending ≤ 1 then c.failures.erase id
            else c.failures.modify id fun f => { f with pending := f.pending - 1 } })
    | none =>
      match (c.entries.get? key).filter (·.id == id), c.retired.get? id with
      | some e, _ | none, some e => (.found ⟨key, id, e.value⟩, c)
      | none, none => (.gone, c)

/-- One who waits for the build of a key waits no longer. -/
def abandon (c : Cache κ α) (key : κ) : Cache κ α :=
  { c with building := c.building.modify key fun slot => { slot with waiters := slot.waiters - 1 } }

/-! ## Giving back and removing -/

/-- One reference less, and used just now. -/
def CacheEntry.giveBack (now : Nat) (e : CacheEntry α) : CacheEntry α :=
  { e with refs := e.refs - 1, lastUsed := now }

/-- Gives back a reference. A descriptor that is retired or whose cache is closed goes with its last
one. -/
def giveBack (now : Nat) (c : Cache κ α) (key : κ) (id : Nat) : List (Victim κ α) × Cache κ α :=
  match (c.entries.get? key).filter (·.id == id), c.retired.get? id with
  | some e, _ =>
    if e.refs ≤ 1 ∧ c.isClosed then
      ([⟨key, id, e.value⟩], { c with entries := c.entries.erase key })
    else ([], { c with entries := c.entries.modify key (CacheEntry.giveBack now) })
  | none, some e =>
    if e.refs ≤ 1 then ([⟨key, id, e.value⟩], { c with retired := c.retired.erase id })
    else ([], { c with retired := c.retired.modify id fun e => { e with refs := e.refs - 1 } })
  | none, none => ([], c)

/-- Gives back a reference, and then evicts what there is no room or no more time for. -/
def release (o : CacheOptions) (now : Nat) (c : Cache κ α) (key : κ) (id : Nat) :
    List (Victim κ α) × Cache κ α :=
  let (given, c) := c.giveBack now key id
  let (excess, c) := c.evictExcess o
  let (expired, c) := c.expire o now
  (given ++ excess ++ expired, c)

/-- Drops the descriptor of a key: one that is referenced is retired. Tells whether there was one. -/
def invalidate (c : Cache κ α) (key : κ) : (Bool × List (Victim κ α)) × Cache κ α :=
  match c.entries.get? key with
  | none => ((false, []), c)
  | some e =>
    let c := { c with entries := c.entries.erase key }
    if e.refs = 0 then ((true, [⟨key, e.id, e.value⟩]), c)
    else ((true, []), { c with retired := c.retired.put e.id e })

/-- Answers no more requests and takes out what is unreferenced; a second time nothing is done. -/
def close (c : Cache κ α) : List (Victim κ α) × Cache κ α :=
  if c.isClosed then ([], c)
  else { c with isClosed := true }.takeOut fun e => e.2.refs == 0

/-- Counts a victim that is being closed. -/
def countEviction (c : Cache κ α) : Cache κ α := c.count fun n => { n with evictions := n.evictions + 1 }

end Cache

end Linkage

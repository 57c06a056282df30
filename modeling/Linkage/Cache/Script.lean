import Linkage.Cache.System
import Linkage.Task.Token

/-!
# Caches with scripted builds

The builds of a key may follow a script, one entry for each build: whether it fails, and whether it
waits at a gate until the gate is opened. Callers are known by name. A caller may have several calls
under way, and keeps the handle of the call that was answered last: the one that he kept before is
given back. One who waits for a build of someone else may carry a token.

Each operation is carried on until every call has come to its end, waits at a gate, or waits for a
build that does.
-/

namespace Linkage

/-- How one build goes. -/
structure BuildScript where
  failure : Option BuildFailure := none
  /-- Whether it waits at a gate. -/
  gated : Bool := false

/-- A cache whose builds follow scripts. -/
structure ScriptedCache (κ α : Type) where
  system : CacheSystem κ α
  /-- The builds of a key; the last one is repeated. -/
  scripts : κ → List BuildScript
  /-- The descriptor that the `n`-th build of a key makes, counted from one. -/
  make : κ → Nat → α
  /-- How many builds of each key have begun. -/
  begun : Table κ Nat := Table.empty
  /-- What the builds at gates will come to, by call. -/
  gates : Table Nat (Except BuildFailure α) := Table.empty
  /-- Who made each call. -/
  callers : Table Nat String := Table.empty
  /-- The call whose handle each caller keeps. -/
  kept : Table String Nat := Table.empty
  nextCall : Nat := 0
  tokens : Table String Token := Table.empty
  /-- The tokens that calls carry. -/
  carried : Table Nat String := Table.empty

namespace ScriptedCache

variable {κ α : Type} [DecidableEq κ]

/-- Lets events happen and closes the victims. -/
def run (s : ScriptedCache κ α) (events : List (CacheEvent κ α)) : ScriptedCache κ α :=
  { s with system := (s.system.run events).disposeAll }

/-- The token of that name. -/
def token (s : ScriptedCache κ α) (name : String) : Token := (s.tokens.get? name).getD {}

/-- Begins the next build of a key for a call. -/
def beginBuild (s : ScriptedCache κ α) (call : Nat) (key : κ) : ScriptedCache κ α :=
  let n := (s.begun.get? key).getD 0 + 1
  let scripts := s.scripts key
  let script := (scripts[n - 1]?.orElse fun _ => scripts.getLast?).getD {}
  let outcome := match script.failure with
    | some failure => .error failure
    | none => .ok (s.make key n)
  let s := { s with begun := s.begun.put key n }
  if script.gated then { s with gates := s.gates.put call outcome } else s.run [.complete call outcome]

/-- Carries on a call that has just asked. -/
def carryOn (s : ScriptedCache κ α) (call : Nat) : ScriptedCache κ α :=
  match s.system.calls.get? call with
  | some ⟨key, .building _⟩ => s.beginBuild call key
  | some ⟨_, .waiting _⟩ =>
    match (s.carried.get? call).bind fun name => (s.token name).reason with
    | some reason => s.run [.abandon call reason]
    | none => s
  | none => s

/-- The calls that have come to their ends since an earlier state, by the names of their callers. -/
def endedSince (s earlier : ScriptedCache κ α) : List Nat :=
  ((s.callers.entries.filter fun e =>
    s.system.answers.contains e.1 && !earlier.system.answers.contains e.1).mergeSort
      fun a b => decide (a.2 ≤ b.2)).map (·.1)

/-- The caller of a call keeps its handle, if it got one, in place of the one kept before. -/
def keep (s : ScriptedCache κ α) (call : Nat) : ScriptedCache κ α :=
  match s.callers.get? call, s.system.held.contains call with
  | some caller, true =>
    let former := s.kept.get? caller
    { s with kept := s.kept.put caller call }.run (former.toList.map .release)
  | _, _ => s

/-- Callers keep the handles that they have got since an earlier state. -/
def settle (s earlier : ScriptedCache κ α) : ScriptedCache κ α :=
  (s.endedSince earlier).foldl keep s

/-- Gives back the handle that a caller keeps; tells whether there was one. -/
def release (s : ScriptedCache κ α) (caller : String) : Bool × ScriptedCache κ α :=
  match s.kept.get? caller with
  | some call => (true, { s with kept := s.kept.erase caller }.run [.release call])
  | none => (false, s)

/-- A caller asks for a key. -/
def get (s : ScriptedCache κ α) (caller : String) (key : κ) (token : Option String) :
    ScriptedCache κ α :=
  let call := s.nextCall
  let carried := match token with
    | some name => s.carried.put call name
    | none => s.carried
  let asking := { s with
    nextCall := call + 1
    callers := s.callers.put call caller
    carried := carried }
  (((asking.run [.expire]).run [.request call key]).carryOn call).settle s

/-- Opens the gate for the builds of a key, and wakes those who wait for them. -/
def openGate (s : ScriptedCache κ α) (key : κ) : ScriptedCache κ α :=
  let calls := (s.system.calls.entries.filter fun e => e.2.key = key).map (·.1)
  let completions := calls.filterMap fun call =>
    (s.gates.get? call).map fun outcome => CacheEvent.complete call outcome
  ((s.run completions).run (calls.map .wake)).settle s

/-- Cancels a token; those who wait with it give up. -/
def cancel (s : ScriptedCache κ α) (token reason : String) : ScriptedCache κ α :=
  let t := (s.token token).cancel reason
  let calls := s.system.calls.keys.filter fun call => s.carried.get? call = some token
  { s with tokens := s.tokens.put token t }.run
    (calls.map fun call => .abandon call (t.reason.getD reason))

end ScriptedCache

end Linkage

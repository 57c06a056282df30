import Linkage.Task.Scheduler

/-!
# Tasks with a script

A task may follow a script: it raises its progress, waits at a gate, raises it further, and ends. A
gate is opened for one task from outside. A task at a gate may give up when it is cancelled; one that
does not care goes on once the scheduler is shut down.

After each change the tasks are moved on until all that run stand at their gates and no worker that
has nothing to do finds a task waiting.
-/

namespace Linkage

/-- How a script ends. -/
inductive ScriptEnd where
  /-- With the result given. -/
  | result (r : TaskResult String)
  /-- With the value given, or with an error if the task is cancelled by then. -/
  | unlessCancelled (value : String)

/-- What a task does. -/
structure TaskScript where
  before : List Float := []
  /-- Whether there is a gate, and whether a task that waits there gives up when it is cancelled. -/
  gate : Option Bool := none
  after : List Float := []
  ending : ScriptEnd

/-- A scheduler whose tasks follow scripts. -/
structure ScriptedScheduler (κ : Type) where
  scheduler : Scheduler κ TaskScript String
  /-- The tasks that stand at their gates. -/
  parked : List (Nat × TaskScript) := []
  /-- The tasks whose gates are open. -/
  opened : List Nat := []

namespace ScriptedScheduler

variable {κ : Type}

/-- The token of a task. -/
def token (s : ScriptedScheduler κ) (id : Nat) : Token :=
  ((s.scheduler.tasks.get? id).map (·.token)).getD {}

/-- Raises the progress of a task step by step. -/
def raiseAll (s : ScriptedScheduler κ) (id : Nat) (fractions : List Float) : ScriptedScheduler κ :=
  { s with scheduler := fractions.foldl (fun s f => s.raise id f) s.scheduler }

/-- Ends a task. -/
def finish (s : ScriptedScheduler κ) (id : Nat) (result : TaskResult String) : ScriptedScheduler κ :=
  { s with scheduler := s.scheduler.finish id result }

/-- Does what comes after the gate. -/
def conclude (s : ScriptedScheduler κ) (id : Nat) (script : TaskScript) : ScriptedScheduler κ :=
  let s := s.raiseAll id script.after
  match script.ending with
  | .result r => s.finish id r
  | .unlessCancelled value => s.finish id ((s.token id).check.map fun _ => value)

/-- Does what comes before the gate, and all the rest if the way is free. -/
def begin (s : ScriptedScheduler κ) (id : Nat) (script : TaskScript) : ScriptedScheduler κ :=
  let s := s.raiseAll id script.before
  if script.gate.isSome && !s.opened.contains id then { s with parked := s.parked ++ [(id, script)] }
  else s.conclude id script

/-- Whether a task need not wait at its gate any longer. -/
def mayLeave (s : ScriptedScheduler κ) (id : Nat) (script : TaskScript) : Bool :=
  s.opened.contains id ||
    if script.gate = some true then (s.token id).isCancelled else s.scheduler.isShutDown

/-- Takes a task away from its gate. -/
def leave (s : ScriptedScheduler κ) (id : Nat) (script : TaskScript) : ScriptedScheduler κ :=
  let s := { s with parked := s.parked.filter (·.1 ≠ id) }
  if s.opened.contains id then s.conclude id script
  else
    match script.gate, (s.token id).check with
    | some true, .error e => s.finish id (.error e)
    | _, _ => s.conclude id script

/-- Moves one task on, if one can move. -/
def move? (now : Nat) (s : ScriptedScheduler κ) : Option (ScriptedScheduler κ) :=
  match s.parked.find? (fun p => s.mayLeave p.1 p.2) with
  | some (id, script) => some (s.leave id script)
  | none =>
    if s.scheduler.hasIdleWorker then
      s.scheduler.pop.map fun (t, scheduler) =>
        let (started, scheduler) := scheduler.start now t.id
        let s := { s with scheduler := scheduler }
        if started then s.begin t.id t.body else s
    else none

/-- Moves tasks on, at most so many times. -/
def moveTimes (now : Nat) : Nat → ScriptedScheduler κ → ScriptedScheduler κ
  | 0, s => s
  | bound + 1, s =>
    match s.move? now with
    | some s => moveTimes now bound s
    | none => s

/-- Moves tasks on until none can move: each moves at most once into its gate and once out of it. -/
def settle (s : ScriptedScheduler κ) (now : Nat) : ScriptedScheduler κ :=
  moveTimes now (2 * s.scheduler.queue.length + s.parked.length) s

/-- Opens the gate for a task. -/
def openGate (s : ScriptedScheduler κ) (id : Nat) : ScriptedScheduler κ :=
  { s with opened := id :: s.opened }

/-- A change of the scheduler. -/
def change (s : ScriptedScheduler κ)
    (f : Scheduler κ TaskScript String → Scheduler κ TaskScript String) : ScriptedScheduler κ :=
  { s with scheduler := f s.scheduler }

end ScriptedScheduler

end Linkage

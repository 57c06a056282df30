import Linkage.Table
import Linkage.Task.Progress
import Linkage.Task.Token

/-!
# Scheduling of tasks

Tasks wait in a queue until a worker takes them. The one with the greatest key goes first, and of
several with equal keys the one that was submitted first. A task is cancelled through its token: one
that still waits is taken out of the queue, one that runs may stop by itself.

Every change is a step that is done at once: submitting, taking, starting, raising progress,
finishing, flipping a token, taking a waiting task out, and draining the queue. Cancelling and
shutting down are sequences of such steps.

A task ends when it is finished: its state becomes final, whoever asked for the result is told, and the
result is kept unless there is one already.
-/

namespace Linkage

/-- Where a task is in its life. -/
inductive TaskState where
  | queued
  | running
  | succeeded
  | failed
  | cancelled
  deriving DecidableEq, Repr

/-- Whether a task in this state has ended. -/
def TaskState.isFinal : TaskState → Bool
  | .queued | .running => false
  | _ => true

/-- The state in which a result leaves a task. -/
def TaskState.ofResult {ρ : Type} : TaskResult ρ → TaskState
  | .ok _ => .succeeded
  | .error e => if e.isCancelled then .cancelled else .failed

/-- What is known of a task that was accepted. -/
structure ScheduledTask (ρ : Type) where
  name : String
  token : Token
  progress : Progress := {}
  state : TaskState := .queued
  result : Option (TaskResult ρ) := none
  /-- Whether its progress is told. -/
  tellsProgress : Bool
  /-- Whether its result is told. -/
  tellsResult : Bool

/-- A task that waits, with what it is to do. -/
structure QueuedTask (κ β : Type) where
  id : Nat
  key : κ
  body : β

/-- What is told of a task. -/
inductive TaskEvent (ρ : Type) where
  | started (id : Nat)
  | progressed (id : Nat) (fraction : Float)
  | ended (id : Nat) (result : TaskResult ρ)

/-- A queue with its workers: keys `κ`, what tasks do `β`, what they come to `ρ`. -/
structure Scheduler (κ β ρ : Type) where
  /-- Compares keys; the greater one goes first. -/
  order : κ → κ → Ordering
  workers : Nat
  /-- The tasks that wait, in order of submission. -/
  queue : List (QueuedTask κ β) := []
  /-- The tasks that workers have taken and not finished. -/
  running : List Nat := []
  tasks : Table Nat (ScheduledTask ρ) := Table.empty
  nextId : Nat := 1
  isShutDown : Bool := false
  /-- The time that tasks submitted from now on may take. -/
  timeout : Option Nat := none
  /-- Whether the progress of tasks submitted from now on is told. -/
  tellsProgress : Bool := false
  /-- What has been told, in order. -/
  events : List (TaskEvent ρ) := []

namespace Scheduler

variable {κ β ρ : Type}

/-- A scheduler with so many workers, but one at least. -/
def ofWorkers (order : κ → κ → Ordering) (workers : Nat) : Scheduler κ β ρ where
  order := order
  workers := max workers 1

/-- Tells something. -/
def tell (s : Scheduler κ β ρ) (e : TaskEvent ρ) : Scheduler κ β ρ :=
  { s with events := s.events ++ [e] }

/-- Changes what is known of a task. -/
def modifyTask (s : Scheduler κ β ρ) (id : Nat) (f : ScheduledTask ρ → ScheduledTask ρ) : Scheduler κ β ρ :=
  { s with tasks := s.tasks.modify id f }

/-! ## Steps -/

/-- Accepts a task, unless the scheduler is shut down; gives the number of the task. -/
def submit (s : Scheduler κ β ρ) (now : Nat) (name : String) (key : κ) (body : β)
    (tellsResult : Bool) : TaskResult Nat × Scheduler κ β ρ :=
  if s.isShutDown then (.error .schedulerShutDown, s)
  else
    let task : ScheduledTask ρ :=
      { name := name, token := .starting now s.timeout, tellsProgress := s.tellsProgress,
        tellsResult := tellsResult }
    (.ok s.nextId, { s with
      queue := s.queue ++ [⟨s.nextId, key, body⟩]
      tasks := s.tasks.put s.nextId task
      nextId := s.nextId + 1 })

/-- The task that goes first. -/
def first? (order : κ → κ → Ordering) : List (QueuedTask κ β) → Option (QueuedTask κ β)
  | [] => none
  | t :: rest =>
    match first? order rest with
    | none => some t
    | some u => if order u.key t.key = .gt then some u else some t

/-- Takes the task that goes first out of the queue, for a worker. -/
def pop (s : Scheduler κ β ρ) : Option (QueuedTask κ β × Scheduler κ β ρ) :=
  if s.isShutDown then none
  else
    (first? s.order s.queue).map fun t =>
      (t, { s with queue := s.queue.filter (·.id ≠ t.id), running := s.running ++ [t.id] })

/-- Raises the progress of a task; a fraction that is not larger says nothing. -/
def raise (s : Scheduler κ β ρ) (id : Nat) (fraction : Float) : Scheduler κ β ρ :=
  match s.tasks.get? id with
  | none => s
  | some t =>
    match t.progress.raise? fraction with
    | none => s
    | some p =>
      let s := s.modifyTask id fun t => { t with progress := p }
      if t.tellsProgress then s.tell (.progressed id p.fraction) else s

/-- Ends a task. -/
def finish (s : Scheduler κ β ρ) (id : Nat) (result : TaskResult ρ) : Scheduler κ β ρ :=
  let s := if result.toOption.isSome then s.raise id 1.0 else s
  let s := s.modifyTask id fun t => { t with state := TaskState.ofResult result }
  let s := if (s.tasks.get? id).any (·.tellsResult) then s.tell (.ended id result) else s
  let s := s.modifyTask id fun t => { t with result := t.result <|> some result }
  { s with running := s.running.filter (· ≠ id) }

/-- Starts a task that a worker has taken, unless its token is cancelled by now: then the task ends
without having started. Tells whether it has started. -/
def start (s : Scheduler κ β ρ) (now id : Nat) : Bool × Scheduler κ β ρ :=
  match s.tasks.get? id with
  | none => (false, s)
  | some t =>
    let token := t.token.poll now
    let s := s.modifyTask id fun t => { t with token := token }
    match token.check with
    | .error e => (false, s.finish id (.error e))
    | .ok () => (true, (s.modifyTask id fun t => { t with state := .running }).tell (.started id))

/-- Cancels the token of a task. -/
def flip (s : Scheduler κ β ρ) (id : Nat) (reason : String) : Scheduler κ β ρ :=
  s.modifyTask id fun t => { t with token := t.token.cancel reason }

/-- Takes a task out of the queue; tells whether it was there. -/
def withdraw (s : Scheduler κ β ρ) (id : Nat) : Bool × Scheduler κ β ρ :=
  (s.queue.any (·.id == id), { s with queue := s.queue.filter (·.id ≠ id) })

/-- Accepts no more tasks and empties the queue; gives the tasks that waited. -/
def drain (s : Scheduler κ β ρ) : List Nat × Scheduler κ β ρ :=
  (s.queue.map (·.id), { s with queue := [], isShutDown := true })

/-! ## Sequences of steps -/

/-- The reason of those who cancel a task. -/
def byRequest : String := "Cancelled by request"

/-- The reason of a scheduler that shuts down. -/
def byShutDown : String := "Scheduler shut down"

/-- Cancels a task: one that waits ends at once. -/
def cancel (s : Scheduler κ β ρ) (id : Nat) : Scheduler κ β ρ :=
  match (s.flip id byRequest).withdraw id with
  | (true, s) => s.finish id (.error (.cancelled byRequest))
  | (false, s) => s

/-- Whether a task waits or runs. -/
def isActive (s : Scheduler κ β ρ) (id : Nat) : Bool :=
  s.queue.any (·.id == id) || s.running.contains id

/-- The state of a task that waits or runs. -/
def activeState? (s : Scheduler κ β ρ) (id : Nat) : Option TaskState :=
  if s.isActive id then ((s.tasks.get? id).map (·.state)).filter (!·.isFinal) else none

/-- Cancels a task that waits or runs; tells whether it was one. -/
def cancelActive (s : Scheduler κ β ρ) (id : Nat) : Bool × Scheduler κ β ρ :=
  if s.isActive id then (true, s.cancel id) else (false, s)

/-- Ends all tasks that wait and tells those that run to stop; a second time nothing is done. -/
def shutDown (s : Scheduler κ β ρ) : Scheduler κ β ρ :=
  if s.isShutDown then s
  else
    let (waiting, s) := s.drain
    let s := waiting.foldl (fun s id => s.finish id (.error .schedulerShutDown)) s
    s.running.foldl (fun s id => s.flip id byShutDown) s

/-- Whether a worker has nothing to do. -/
def hasIdleWorker (s : Scheduler κ β ρ) : Bool := s.running.length < s.workers

end Scheduler

end Linkage

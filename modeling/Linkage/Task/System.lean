import Linkage.Task.Scheduler

/-!
# Schedulers with workers and calls under way

A system is a scheduler together with its workers, the calls that cancel tasks and the call that shuts
it down. It changes by events, each of which is one step of one of them, so that the steps of all may
come between each other in any order. An event that cannot happen changes nothing.

Whoever takes a task out of the queue has to end it: a worker that runs it, a call that cancels it or
the call that shuts the scheduler down.
-/

namespace Linkage

/-- What a worker does. -/
inductive WorkerStage where
  | idle
  /-- It has taken a task that has not started yet. -/
  | holding (id : Nat)
  | executing (id : Nat)
  /-- Its task has ended, but counts as active still. -/
  | done (id : Nat)
  /-- It has gone, since the scheduler is shut down. -/
  | gone
  deriving DecidableEq, Repr

/-- How far a call that cancels a task has come. -/
inductive CancelStage where
  | called (id : Nat)
  /-- The token of the task is cancelled. -/
  | flipped (id : Nat)
  /-- The task is out of the queue. -/
  | withdrawn (id : Nat)
  /-- The task does not count as active any more. -/
  | dropped (id : Nat)
  deriving DecidableEq, Repr

/-- The task that a call has taken out of the queue and not ended yet. -/
def CancelStage.withdrawn? : CancelStage → Option Nat
  | .called _ | .flipped _ => none
  | .withdrawn id | .dropped id => some id

/-- How far the call that shuts a scheduler down has come. -/
inductive ShutDownStage where
  /-- Tasks that waited have to be ended. -/
  | ending (waiting : List Nat)
  /-- A task that waited does not count as active any more, and is to be ended next. -/
  | dropped (id : Nat) (waiting : List Nat)
  /-- Tasks that are active have to be told. -/
  | telling (active : List Nat)
  /-- The workers are awaited. -/
  | joining
  | returned
  deriving DecidableEq, Repr

/-- The tasks that the call has taken out of the queue and not ended yet. -/
def ShutDownStage.waiting : ShutDownStage → List Nat
  | .ending waiting => waiting
  | .dropped id waiting => id :: waiting
  | .telling _ | .joining | .returned => []

/-- A scheduler and all that is going on around it. Calls are known by their numbers. -/
structure TaskSystem (κ β ρ : Type) where
  scheduler : Scheduler κ β ρ
  /-- The time in milliseconds. -/
  now : Nat := 0
  workers : List WorkerStage
  /-- The tasks that are known to the scheduler by their numbers. -/
  active : List Nat := []
  /-- The calls that cancel tasks. -/
  cancels : Table Nat CancelStage := Table.empty
  /-- The call that shuts the scheduler down. -/
  shutting : Option ShutDownStage := none

/-- What can happen. -/
inductive TaskStep (κ β ρ : Type) where
  | elapse (ms : Nat)
  /-- Tasks submitted from now on may take so long. -/
  | limit (timeout : Option Nat)
  /-- The progress of tasks submitted from now on is told. -/
  | listen
  | submit (name : String) (key : κ) (body : β) (tellsResult : Bool)
  /-- A worker takes the task that goes first. -/
  | pop (worker : Nat)
  /-- A worker starts the task that it has taken. -/
  | start (worker : Nat)
  /-- A task raises its progress. -/
  | raise (worker : Nat) (fraction : Float)
  /-- A task looks at its token. -/
  | poll (worker : Nat)
  /-- A task comes to its end, in whatever way. -/
  | finish (worker : Nat) (result : TaskResult ρ)
  /-- A worker is through with its task. -/
  | retire (worker : Nat)
  /-- A worker finds the scheduler shut down. -/
  | leave (worker : Nat)
  /-- Someone who has a handle of a task cancels it. -/
  | cancel (call id : Nat)
  /-- Someone cancels a task by its number. -/
  | cancelActive (call id : Nat)
  /-- A call that cancels a task goes on. -/
  | advance (call : Nat)
  | shutDown
  /-- The call that shuts the scheduler down goes on. -/
  | proceed

/-- Why a task may not start: its token is cancelled. -/
def Scheduler.refusal? {κ β ρ : Type} (s : Scheduler κ β ρ) (now id : Nat) : Option TaskError :=
  (s.tasks.get? id).bind fun t =>
    match (t.token.poll now).check with
    | .error e => some e
    | .ok () => none

namespace TaskSystem

variable {κ β ρ : Type}

/-- A scheduler with idle workers. -/
def ofWorkers (order : κ → κ → Ordering) (workers : Nat) : TaskSystem κ β ρ where
  scheduler := { order := order, workers := workers }
  workers := .replicate workers .idle

/-- A task does not count as active any more. -/
def drop (s : TaskSystem κ β ρ) (id : Nat) : TaskSystem κ β ρ :=
  { s with active := s.active.filter (· ≠ id) }

/-- A task looks at its token. -/
def poll (s : TaskSystem κ β ρ) (id : Nat) : TaskSystem κ β ρ :=
  { s with scheduler :=
      s.scheduler.modifyTask id fun t => { t with token := t.token.poll s.now } }

/-- A task is submitted. -/
def submit (s : TaskSystem κ β ρ) (name : String) (key : κ) (body : β) (tellsResult : Bool) :
    TaskSystem κ β ρ :=
  match s.scheduler.submit s.now name key body tellsResult with
  | (.ok id, scheduler) => { s with scheduler := scheduler, active := s.active ++ [id] }
  | (.error _, _) => s

/-- A worker starts a task, unless its token is cancelled. -/
def start (s : TaskSystem κ β ρ) (worker id : Nat) : TaskSystem κ β ρ :=
  let (started, scheduler) := s.scheduler.start s.now id
  { s with
    scheduler := scheduler
    workers := s.workers.set worker (if started then .executing id else .done id) }

/-- A call that cancels a task comes in. -/
def enter (s : TaskSystem κ β ρ) (call id : Nat) : TaskSystem κ β ρ :=
  if s.cancels.contains call then s else { s with cancels := s.cancels.put call (.called id) }

/-- A call that cancels a task goes on. -/
def advance (s : TaskSystem κ β ρ) (call : Nat) : CancelStage → TaskSystem κ β ρ
  | .called id =>
    { s with
      scheduler := s.scheduler.flip id Scheduler.byRequest
      cancels := s.cancels.put call (.flipped id) }
  | .flipped id =>
    match s.scheduler.withdraw id with
    | (true, scheduler) =>
      { s with scheduler := scheduler, cancels := s.cancels.put call (.withdrawn id) }
    | (false, _) => { s with cancels := s.cancels.erase call }
  | .withdrawn id => { s.drop id with cancels := s.cancels.put call (.dropped id) }
  | .dropped id =>
    { s with
      scheduler := s.scheduler.finish id (.error (.cancelled Scheduler.byRequest))
      cancels := s.cancels.erase call }

/-- The call that shuts the scheduler down goes on. -/
def proceed (s : TaskSystem κ β ρ) : ShutDownStage → TaskSystem κ β ρ
  | .ending (id :: waiting) => { s.drop id with shutting := some (.dropped id waiting) }
  | .ending [] => { s with shutting := some (.telling s.active) }
  | .dropped id waiting =>
    { s with
      scheduler := s.scheduler.finish id (.error .schedulerShutDown)
      shutting := some (.ending waiting) }
  | .telling (id :: active) =>
    { s with
      scheduler := s.scheduler.flip id Scheduler.byShutDown
      shutting := some (.telling active) }
  | .telling [] => { s with shutting := some .joining }
  | .joining => if s.workers.all (· == .gone) then { s with shutting := some .returned } else s
  | .returned => s

/-- One event. -/
def step (s : TaskSystem κ β ρ) : TaskStep κ β ρ → TaskSystem κ β ρ
  | .elapse ms => { s with now := s.now + ms }
  | .limit timeout => { s with scheduler := { s.scheduler with timeout := timeout } }
  | .listen => { s with scheduler := { s.scheduler with tellsProgress := true } }
  | .submit name key body tellsResult => s.submit name key body tellsResult
  | .pop worker =>
    match s.workers[worker]?, s.scheduler.pop with
    | some .idle, some (t, scheduler) =>
      { s with scheduler := scheduler, workers := s.workers.set worker (.holding t.id) }
    | _, _ => s
  | .start worker =>
    match s.workers[worker]? with
    | some (.holding id) => s.start worker id
    | _ => s
  | .raise worker fraction =>
    match s.workers[worker]? with
    | some (.executing id) => { s with scheduler := s.scheduler.raise id fraction }
    | _ => s
  | .poll worker =>
    match s.workers[worker]? with
    | some (.executing id) => s.poll id
    | _ => s
  | .finish worker result =>
    match s.workers[worker]? with
    | some (.executing id) =>
      { s with
        scheduler := s.scheduler.finish id result
        workers := s.workers.set worker (.done id) }
    | _ => s
  | .retire worker =>
    match s.workers[worker]? with
    | some (.done id) => { s.drop id with workers := s.workers.set worker .idle }
    | _ => s
  | .leave worker =>
    match s.workers[worker]?, s.scheduler.isShutDown with
    | some .idle, true => { s with workers := s.workers.set worker .gone }
    | _, _ => s
  | .cancel call id => if s.scheduler.tasks.contains id then s.enter call id else s
  | .cancelActive call id => if s.active.contains id then s.enter call id else s
  | .advance call =>
    match s.cancels.get? call with
    | some stage => s.advance call stage
    | none => s
  | .shutDown =>
    if s.scheduler.isShutDown then s
    else
      let (waiting, scheduler) := s.scheduler.drain
      { s with scheduler := scheduler, shutting := some (.ending waiting) }
  | .proceed =>
    match s.shutting with
    | some stage => s.proceed stage
    | none => s

/-- Events in turn. -/
def run (s : TaskSystem κ β ρ) (events : List (TaskStep κ β ρ)) : TaskSystem κ β ρ :=
  events.foldl step s

/-! ## Ends of tasks -/

/-- The task that an event ends, with what it comes to. -/
def endedBy (s : TaskSystem κ β ρ) : TaskStep κ β ρ → List (Nat × TaskResult ρ)
  | .start worker =>
    match s.workers[worker]? with
    | some (.holding id) =>
      match s.scheduler.refusal? s.now id with
      | some e => [(id, .error e)]
      | none => []
    | _ => []
  | .finish worker result =>
    match s.workers[worker]? with
    | some (.executing id) => [(id, result)]
    | _ => []
  | .advance call =>
    match s.cancels.get? call with
    | some (.dropped id) => [(id, .error (.cancelled Scheduler.byRequest))]
    | _ => []
  | .proceed =>
    match s.shutting with
    | some (.dropped id _) => [(id, .error .schedulerShutDown)]
    | _ => []
  | _ => []

/-- The ends of tasks in a run, in order. -/
def ended (s : TaskSystem κ β ρ) : List (TaskStep κ β ρ) → List (Nat × TaskResult ρ)
  | [] => []
  | event :: rest => s.endedBy event ++ (s.step event).ended rest

end TaskSystem

end Linkage

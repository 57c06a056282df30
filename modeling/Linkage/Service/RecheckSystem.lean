import Linkage.Service.Recheck
import Linkage.Task.System

/-!
# Re-checking with rounds under way

A system is a re-check together with the tasks that it is done by, the rounds that are under way and
what hears of the tasks. It changes by events. Each of them does one thing at most to the results or to
the marks of what is in flight, so that rounds, tasks and those who forget results may come between
each other at any point.

A round tests whether there is a result before it marks a request, and submits it after that. What
hears of a task keeps the result before it takes the mark away. It may be late in doing so: nothing
else waits for it.
-/

namespace Linkage

/-- How far a round has come. -/
inductive RoundStage where
  /-- It goes on with these requests; without any it is over. -/
  | testing (left : List VerificationRequest)
  /-- There was no result for the request. -/
  | marking (request : VerificationRequest) (left : List VerificationRequest)
  /-- It has marked the request as in flight. -/
  | submitting (request : VerificationRequest) (left : List VerificationRequest)
  /-- The queue accepts no more, so that the mark is to be taken away. -/
  | retracting (request : VerificationRequest)

/-- A round with the number of requests that it has submitted. -/
structure RecheckRound where
  stage : RoundStage
  submitted : Nat := 0

/-- How far what hears of a task has come. -/
inductive SinkStage where
  | waiting
  /-- It is told what the task has come to. -/
  | called (result : TaskResult VerificationResult)
  /-- It has kept the result. -/
  | kept
  /-- It has taken the mark away. -/
  | released

/-- What hears of a task that a request was submitted as. -/
structure RecheckSink where
  key : RequestKey
  stage : SinkStage := .waiting

/-- A re-check and all that is going on around it. Rounds are known by their numbers, and what hears of
a task by the number of the task. -/
structure RecheckSystem where
  recheck : Recheck
  tasks : TaskSystem Nat VerificationRequest VerificationResult
  rounds : Table Nat RecheckRound := Table.empty
  sinks : Table Nat RecheckSink := Table.empty

/-- What can happen. -/
inductive RecheckStep where
  /-- A round begins, with the plan as it is then. -/
  | begin (round : Nat) (plan : List VerificationRequest)
  /-- A round goes on. -/
  | advance (round : Nat)
  /-- What hears of a task goes on. -/
  | hear (id : Nat)
  | forget (key : RequestKey)
  /-- Something happens to the tasks. -/
  | task (event : TaskStep Nat VerificationRequest VerificationResult)

namespace RecheckSystem

/-- A system in which no round has begun. -/
def ofWorkers (workers : Nat) : RecheckSystem where
  recheck := { plan := [] }
  tasks := .ofWorkers compare workers

/-- What the queue says to a request. -/
def answer (s : RecheckSystem) (request : VerificationRequest) (priority : Nat) : TaskResult Nat :=
  (s.tasks.scheduler.submit s.tasks.now request.taskName priority request true).1

/-- A request is accepted as a task; something will hear of it. -/
def accept (s : RecheckSystem) (id : Nat) (request : VerificationRequest) (priority : Nat) :
    RecheckSystem :=
  { s with
    recheck := { s.recheck with submitted := s.recheck.submitted.put id request.key }
    tasks := s.tasks.submit request.taskName priority request true
    sinks := s.sinks.put id { key := request.key } }

/-- A round comes to another stage. -/
def move (s : RecheckSystem) (round : Nat) (r : RecheckRound) : RecheckSystem :=
  { s with rounds := s.rounds.put round r }

/-- A round goes on. -/
def advance (s : RecheckSystem) (round : Nat) (r : RecheckRound) : RecheckSystem :=
  match r.stage with
  | .testing [] => s
  | .testing (request :: left) =>
    s.move round { r with
      stage := if s.recheck.isStored request.key then .testing left else .marking request left }
  | .marking request left =>
    match s.recheck.reserve request.key with
    | (true, recheck) =>
      { s with recheck := recheck }.move round { r with stage := .submitting request left }
    | (false, recheck) => { s with recheck := recheck }.move round { r with stage := .testing left }
  | .submitting request left =>
    match s.answer request (left.length + 1) with
    | .ok id =>
      (s.accept id request (left.length + 1)).move round
        { stage := .testing left, submitted := r.submitted + 1 }
    | .error _ => s.move round { r with stage := .retracting request }
  | .retracting request =>
    { s with recheck := s.recheck.retract request.key }.move round { r with stage := .testing [] }

/-- What hears of a task goes on. -/
def hear (s : RecheckSystem) (id : Nat) (sink : RecheckSink) : RecheckSystem :=
  match sink.stage with
  | .called (.ok result) =>
    { s with
      recheck := s.recheck.store sink.key result
      sinks := s.sinks.put id { sink with stage := .kept } }
  | .called (.error _) | .kept =>
    { s with
      recheck := s.recheck.retract sink.key
      sinks := s.sinks.put id { sink with stage := .released } }
  | .waiting | .released => s

/-- What hears of a task is told what the task has come to. -/
def call (sinks : Table Nat RecheckSink) (ended : Nat × TaskResult VerificationResult) :
    Table Nat RecheckSink :=
  match sinks.get? ended.1 with
  | some sink => sinks.put ended.1 { sink with stage := .called ended.2 }
  | none => sinks

/-- One event. -/
def step (s : RecheckSystem) : RecheckStep → RecheckSystem
  | .begin round plan =>
    if s.rounds.contains round then s else s.move round { stage := .testing plan }
  | .advance round =>
    match s.rounds.get? round with
    | some r => s.advance round r
    | none => s
  | .hear id =>
    match s.sinks.get? id with
    | some sink => s.hear id sink
    | none => s
  | .forget key => { s with recheck := (s.recheck.forget key).2 }
  | .task event =>
    { s with
      tasks := s.tasks.step event
      sinks := (s.tasks.endedBy event).foldl call s.sinks }

/-- Events in turn. -/
def run (s : RecheckSystem) (events : List RecheckStep) : RecheckSystem :=
  events.foldl step s

/-! ## Submissions and results -/

/-- The request that an event submits. -/
def submittedBy (s : RecheckSystem) : RecheckStep → Option RequestKey
  | .advance round =>
    match s.rounds.get? round with
    | some ⟨.submitting request left, _⟩ =>
      match s.answer request (left.length + 1) with
      | .ok _ => some request.key
      | .error _ => none
    | _ => none
  | _ => none

/-- The request that an event keeps a result for. -/
def keptBy (s : RecheckSystem) : RecheckStep → Option RequestKey
  | .hear id =>
    match s.sinks.get? id with
    | some ⟨key, .called (.ok _)⟩ => some key
    | _ => none
  | _ => none

/-- The requests that are submitted in a run, in order. -/
def submissions (s : RecheckSystem) : List RecheckStep → List RequestKey
  | [] => []
  | event :: rest => (s.submittedBy event).toList ++ (s.step event).submissions rest

/-- The requests that results are kept for in a run, in order. -/
def kept (s : RecheckSystem) : List RecheckStep → List RequestKey
  | [] => []
  | event :: rest => (s.keptBy event).toList ++ (s.step event).kept rest

end RecheckSystem

end Linkage

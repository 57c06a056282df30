import Linkage.Service.Verifier

/-!
# Re-checking a plan

A plan of requests is gone through in rounds. In each round those requests are submitted that have no
result yet and are not in flight, the earlier ones with higher priority. A result is kept until it is
forgotten. Once the queue accepts no more tasks the round ends.
-/

namespace Linkage

/-- A plan with what has become of it. -/
structure Recheck where
  plan : List VerificationRequest
  results : Table RequestKey VerificationResult := Table.empty
  /-- The requests that were submitted and have not ended. -/
  inFlight : List RequestKey := []
  /-- The requests by the tasks that they were submitted as. -/
  submitted : Table Nat RequestKey := Table.empty
  /-- Whether further rounds follow by themselves. -/
  isRunning : Bool := true

namespace Recheck

/-- Whether there is a result for a request. -/
def isStored (r : Recheck) (key : RequestKey) : Bool := r.results.contains key

/-- Marks a request as in flight; tells whether it was not. -/
def reserve (r : Recheck) (key : RequestKey) : Bool × Recheck :=
  (!r.inFlight.contains key, { r with inFlight := insertNew r.inFlight key })

/-- A request is in flight no longer. -/
def retract (r : Recheck) (key : RequestKey) : Recheck :=
  { r with inFlight := r.inFlight.filter (· ≠ key) }

/-- Keeps a result. -/
def store (r : Recheck) (key : RequestKey) (result : VerificationResult) : Recheck :=
  { r with results := r.results.put key result }

/-- Hears what a task has come to. -/
def hear (r : Recheck) (id : Nat) (result : TaskResult VerificationResult) : Recheck :=
  match r.submitted.get? id with
  | none => r
  | some key =>
    match result with
    | .ok result => (r.store key result).retract key
    | .error _ => r.retract key

/-- Hears what was told of tasks. -/
def hearAll (r : Recheck) (events : List (TaskEvent VerificationResult)) : Recheck :=
  events.foldl (fun r e => match e with | .ended id result => r.hear id result | _ => r) r

/-- Submits one request, if it is due; tells whether it was submitted, or that the queue accepts no
more. -/
def submit (now : Nat) (r : Recheck) (queue : RequestQueue) (request : VerificationRequest)
    (priority : Nat) : TaskResult Bool × Recheck × RequestQueue :=
  let key := request.key
  if r.isStored key then (.ok false, r, queue)
  else
    match r.reserve key with
    | (false, r) => (.ok false, r, queue)
    | (true, r) =>
      match queue.put now request priority true with
      | (.ok id, queue) => (.ok true, { r with submitted := r.submitted.put id key }, queue)
      | (.error e, queue) => (.error e, r.retract key, queue)

/-- Goes through requests; gives how many were submitted. -/
def roundOver (now : Nat) : List VerificationRequest → Recheck → RequestQueue →
    Nat × Recheck × RequestQueue
  | [], r, queue => (0, r, queue)
  | request :: rest, r, queue =>
    match r.submit now queue request (rest.length + 1) with
    | (.error _, r, queue) => (0, r, queue)
    | (.ok submitted, r, queue) =>
      let (n, r, queue) := roundOver now rest r queue
      (n + submitted.toNat, r, queue)

/-- One round. -/
def round (now : Nat) (r : Recheck) (queue : RequestQueue) : Nat × Recheck × RequestQueue :=
  roundOver now r.plan r queue

/-- Forgets the result for a request; tells whether there was one. -/
def forget (r : Recheck) (key : RequestKey) : Bool × Recheck :=
  (r.isStored key, { r with results := r.results.erase key })

/-- The results in ascending order of their words. -/
def sortedResults (r : Recheck) : List VerificationResult :=
  r.results.values.mergeSort fun a b => decide (a.display ≤ b.display)

end Recheck

end Linkage

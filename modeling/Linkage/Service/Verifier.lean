import Linkage.Service.VerifyTask
import Linkage.Task.Scheduler

/-!
# Verifying from a queue

Requests wait in a queue by priority. A worker takes one, does all of its work, and takes the next.
-/

namespace Linkage

/-- A queue of requests; higher priorities go first. -/
abbrev RequestQueue := Scheduler Nat VerificationRequest VerificationResult

/-- A queue of requests that nobody has put anything into. -/
def RequestQueue.ofWorkers (workers : Nat) : RequestQueue := Scheduler.ofWorkers compare workers

/-- Puts a request into a queue. -/
def RequestQueue.put (queue : RequestQueue) (now : Nat) (request : VerificationRequest)
    (priority : Nat) (tellsResult : Bool) : TaskResult Nat × RequestQueue :=
  queue.submit now request.taskName priority request tellsResult

/-- A queue of requests and the stock that they are fulfilled from. -/
structure Verifier (φ : Type) where
  stock : Stock φ
  queue : RequestQueue

namespace Verifier

variable {φ : Type}

/-- The workplace as a task finds it. -/
def prepare (s : Stock φ) (token : Token) : Stock φ :=
  { s with workplace := { s.workplace with token := token, raised := [] } }

/-- Does the work of a task that has started. -/
def perform (services : Services φ) (v : Verifier φ) (id : Nat) (request : VerificationRequest) :
    Verifier φ :=
  let token := ((v.queue.tasks.get? id).map (·.token)).getD {}
  let (result, stock) := (services.execute request).run (prepare v.stock token)
  let queue := v.queue.modifyTask id fun t => { t with token := stock.workplace.token }
  let queue := stock.workplace.raised.foldl (fun q f => q.raise id f) queue
  ⟨stock, queue.finish id result⟩

/-- Takes a task out of the queue and does its work. -/
def workOne (services : Services φ) (v : Verifier φ) : Option (Verifier φ) :=
  v.queue.pop.map fun (t, queue) =>
    let (started, queue) := queue.start v.stock.workplace.now t.id
    let v := { v with queue := queue }
    if started then v.perform services t.id t.body else v

/-- Does the work of at most so many tasks. -/
def workTimes (services : Services φ) : Nat → Verifier φ → Verifier φ
  | 0, v => v
  | bound + 1, v =>
    match v.workOne services with
    | some v => workTimes services bound v
    | none => v

/-- Works until no task waits. -/
def work (services : Services φ) (v : Verifier φ) : Verifier φ :=
  workTimes services v.queue.queue.length v

end Verifier

end Linkage

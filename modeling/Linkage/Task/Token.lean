/-!
# Cancellation

A token says whether a task is to stop, and why. The first reason given stays. A token may have a
deadline; whoever polls it when the deadline has passed cancels it.
-/

namespace Linkage

/-- Why a task ended without a value. -/
inductive TaskError where
  | cancelled (reason : String)
  | failed (reason : String)
  | panicked (reason : String)
  | schedulerShutDown
  deriving DecidableEq, Repr

namespace TaskError

def message : TaskError → String
  | .cancelled reason => "Task was cancelled: " ++ reason
  | .failed reason => "Task failed: " ++ reason
  | .panicked reason => "Task panicked: " ++ reason
  | .schedulerShutDown => "Scheduler is shut down"

/-- Whether the task was made to stop, and did not go wrong by itself. -/
def isCancelled : TaskError → Bool
  | .cancelled _ | .schedulerShutDown => true
  | _ => false

end TaskError

/-- What a task comes to. -/
abbrev TaskResult (α : Type) := Except TaskError α

/-- A sign to stop. -/
structure Token where
  /-- Why the token was cancelled, if it was. -/
  reason : Option String := none
  /-- When it cancels itself, in milliseconds. -/
  deadline : Option Nat := none
  deriving DecidableEq, Repr

namespace Token

/-- The reason given by a deadline. -/
def timeout : String := "Timeout"

/-- A token that may cancel itself `limit` milliseconds after `now`. -/
def starting (now : Nat) (limit : Option Nat) : Token := ⟨none, limit.map (now + ·)⟩

/-- Cancels the token; an earlier reason stays. -/
def cancel (t : Token) (reason : String) : Token := { t with reason := t.reason <|> some reason }

/-- Whether the deadline has passed. -/
def isOverdue (t : Token) (now : Nat) : Bool := t.deadline.any (· ≤ now)

/-- The token once it has been looked at. -/
def poll (t : Token) (now : Nat) : Token := if t.isOverdue now then t.cancel timeout else t

/-- Whether the token is cancelled. -/
def isCancelled (t : Token) : Bool := t.reason.isSome

/-- An error once the token is cancelled. -/
def check (t : Token) : TaskResult Unit :=
  match t.reason with
  | some reason => .error (.cancelled reason)
  | none => .ok ()

end Token

end Linkage

import Linkage.Json.Decode
import Linkage.Json.Token
import Linkage.Task.Script

/-!
# Records of tasks

Tasks and their errors as JSON values, and scripts read from records. A number between 0 and 1 is
written exactly, as the sixteen hexadecimal digits of its bits.
-/

namespace Linkage

open Json (Value)
open Json.Decode

/-- The bits of a number as hexadecimal digits. -/
def bitsText (f : Float) : String :=
  let digits := Nat.toDigits 16 f.toBits.toNat
  String.ofList (List.replicate (16 - digits.length) '0' ++ digits)

/-- Reads a number from the digits of its bits. -/
def ofBitsText? (v : Value) : Option Float := do
  let digits ← (← text v).toList.mapM Json.hexValue?
  return Float.ofBits (UInt64.ofNat (digits.foldl (fun n d => n * 16 + d) 0))

def TaskError.toJson (e : TaskError) : Value :=
  let kind := match e with
    | .cancelled _ => "Cancelled"
    | .failed _ => "Failed"
    | .panicked _ => "Panicked"
    | .schedulerShutDown => "SchedulerShutDown"
  (Value.failure kind e.message).plus [("is_cancelled", .bool e.isCancelled)]

/-- The word for a state. -/
def TaskState.word : TaskState → String
  | .queued => "Queued"
  | .running => "Running"
  | .succeeded => "Succeeded"
  | .failed => "Failed"
  | .cancelled => "Cancelled"

/-- The result of a scripted task as a record. -/
def TaskScript.resultJson : TaskResult String → Value
  | .ok value => .record [("ok", .text value)]
  | .error e => e.toJson

/-- A scripted task as its state, its progress and its result. -/
def ScheduledTask.toJson (t : ScheduledTask String) : Value :=
  .list [.text t.state.word, .text (bitsText t.progress.fraction),
    Value.ofOption TaskScript.resultJson t.result]

/-- What was told of a task of that name, in words. -/
def TaskEvent.display {ρ : Type} (value : ρ → String) (name : Nat → String) : TaskEvent ρ → String
  | .started id => "start " ++ name id
  | .progressed id fraction => "progress " ++ name id ++ " " ++ bitsText fraction
  | .ended _ (.ok v) => "result ok " ++ value v
  | .ended _ (.error e) => "result err " ++ e.message

/-- The name of a task. -/
def Scheduler.nameOf {κ β ρ : Type} (s : Scheduler κ β ρ) (id : Nat) : String :=
  ((s.tasks.get? id).map (·.name)).getD ""

/-- Reads a script that ends as given. -/
def TaskScript.ofJson? (ending : ScriptEnd) (v : Value) : Option TaskScript := do
  let gated ← flag v "gate"
  let gate ← if gated then some <$> flag v "honor" else pure none
  return {
    before := ← items v "progress" ofBitsText?
    gate := gate
    after := ← items v "after" ofBitsText?
    ending := ending }

end Linkage

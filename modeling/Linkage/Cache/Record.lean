import Linkage.Cache.Script
import Linkage.Json.Value

/-!
# Records of caches

What callers of a cache get, as JSON values.
-/

namespace Linkage

open Json (Value)

def CacheRefusal.toJson (r : CacheRefusal) : Value :=
  let kind := match r with
    | .cancelled _ => "Cancelled"
    | .closed _ => "Closed"
  .failure kind r.message

/-- The failure of a call as a record. -/
def BuildFailure.answerJson : BuildFailure → Value
  | .notFound reason => .record [("not_found", .text reason)]
  | .failed message cause =>
    .record [("failed", .text message), ("cause", Value.ofOption .text cause)]

def CacheAnswer.toJson : CacheAnswer String String → Value
  | .found handle =>
    .record [("value", .text handle.value), ("key", .text handle.key), ("is_found", .bool true)]
  | .failed failure => failure.answerJson
  | .refused refusal => refusal.toJson
  | .lost => (BuildFailure.failed BuildFailure.disappeared none).answerJson

/-- A call as a record: its answer, or what it waits for. -/
def ScriptedCache.callJson (s : ScriptedCache String String) (call : Nat) : Value :=
  let shown := match s.system.answers.get? call, s.system.calls.get? call with
    | some answer, _ => answer.toJson
    | none, some ⟨_, .building _⟩ => .record [("pending", .text "building")]
    | none, _ => .record [("pending", .text "waiting")]
  shown.plus [("get", .text ((s.callers.get? call).getD ""))]

end Linkage

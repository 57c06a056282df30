import Linkage.Proofs.Recheck.Marks
import Linkage.Proofs.Task.Queue

/-!
# Tasks and results of a re-check

The tasks that a re-check has are those that its rounds have submitted and that were accepted. For each there
is something that hears of it, which knows the request that the task is for: what it stores, it stores for this
request.

* **`accepted`**, **`stored`** — the tasks of a run and the results that are stored in it, in order;
* **`Does`**, **`does_step`** — what an event does to the tasks, to what hears of them and to the results;
* **`Traced`**, **`Traced.step`** — results go from their tasks to their requests, which every event
  preserves.
-/

namespace Linkage

namespace TaskSystem

variable {κ β ρ : Type} {s : TaskSystem κ β ρ} {past : List (Nat × TaskResult ρ)}

/-- A task was accepted and has no result. -/
def IsUnfinished (s : TaskSystem κ β ρ) (id : Nat) : Prop :=
  ∃ t, s.scheduler.tasks.get? id = some t ∧ t.result = none

/-- A task has ended with a result. -/
def HasResult (s : TaskSystem κ β ρ) (id : Nat) (result : TaskResult ρ) : Prop :=
  ∃ t, s.scheduler.tasks.get? id = some t ∧ t.result = some result

theorem Sound.isUnfinished_iff (hs : s.Sound past) {id : Nat} (hknown : s.IsKnown id) :
    s.IsUnfinished id ↔ endsOf past id = [] := by
  obtain ⟨t, ht⟩ := hknown
  rw [(hs.task_spec ht).1]
  unfold IsUnfinished
  rw [ht]
  cases hresult : t.result <;> simp [hresult]

theorem Sound.hasResult_iff (hs : s.Sound past) {id : Nat} (hknown : s.IsKnown id)
    {result : TaskResult ρ} : s.HasResult id result ↔ (id, result) ∈ past := by
  obtain ⟨t, ht⟩ := hknown
  rw [← mem_endsOf, (hs.task_spec ht).1, Option.mem_toList]
  unfold HasResult
  rw [ht]
  simp

end TaskSystem

namespace RecheckSystem

variable {s : RecheckSystem} {past : List (Nat × TaskResult VerificationResult)}

/-! ## Tasks and results of a run -/

/-- The task that an event submits for a request, if it is accepted. -/
def acceptedBy (s : RecheckSystem) : RecheckStep → List (QueuedTask Nat VerificationRequest)
  | .advance round =>
    match s.rounds.get? round with
    | some ⟨.submitting request left, _⟩ =>
      s.tasks.acceptedBy (.submit request.taskName (left.length + 1) request true)
    | _ => []
  | _ => []

/-- The tasks that are accepted in a run, in order. -/
def accepted (s : RecheckSystem) : List RecheckStep → List (QueuedTask Nat VerificationRequest)
  | [] => []
  | event :: rest => s.acceptedBy event ++ (s.step event).accepted rest

/-- The result that an event stores, with the task that it comes from. -/
def storedBy (s : RecheckSystem) : RecheckStep → List (Nat × VerificationResult)
  | .hear id =>
    match s.sinks.get? id with
    | some ⟨_, .called (.ok result)⟩ => [(id, result)]
    | _ => []
  | _ => []

/-- The results that are stored in a run, in order. -/
def stored (s : RecheckSystem) : List RecheckStep → List (Nat × VerificationResult)
  | [] => []
  | event :: rest => s.storedBy event ++ (s.step event).stored rest

/-- What an event may do to the tasks, to what hears of them and to the results. -/
inductive Does (s : RecheckSystem) (event : RecheckStep) (s' : RecheckSystem) : Prop
  | quiet (haccepted : s.acceptedBy event = []) (hstored : s.storedBy event = [])
      (hended : s.endedBy event = []) (htasks : s'.tasks = s.tasks) (hsinks : s'.sinks = s.sinks)
      (hresults : s'.recheck.results = s.recheck.results)
  | accepts (t : QueuedTask Nat VerificationRequest) (haccepted : s.acceptedBy event = [t])
      (hstored : s.storedBy event = []) (hended : s.endedBy event = [])
      (hsubmitted : s.tasks.acceptedBy (.submit t.body.taskName t.key t.body true) = [t])
      (htasks : s'.tasks = s.tasks.step (.submit t.body.taskName t.key t.body true))
      (hsinks : s'.sinks = s.sinks.put t.id ⟨t.body.key, .waiting⟩)
      (hresults : s'.recheck.results = s.recheck.results)
  | stores (id : Nat) (key : RequestKey) (result : VerificationResult)
      (hsink : s.sinks.get? id = some ⟨key, .called (.ok result)⟩)
      (haccepted : s.acceptedBy event = []) (hstored : s.storedBy event = [(id, result)])
      (hended : s.endedBy event = []) (htasks : s'.tasks = s.tasks)
      (hsinks : s'.sinks = s.sinks.put id ⟨key, .kept⟩)
      (hresults : s'.recheck.results = s.recheck.results.put key result)
  | releases (id : Nat) (key : RequestKey) (stage : SinkStage) (hsink : s.sinks.get? id = some ⟨key, stage⟩)
      (hstage : ∀ result, stage ≠ .called (.ok result))
      (haccepted : s.acceptedBy event = []) (hstored : s.storedBy event = [])
      (hended : s.endedBy event = []) (htasks : s'.tasks = s.tasks)
      (hsinks : s'.sinks = s.sinks.put id ⟨key, .released⟩)
      (hresults : s'.recheck.results = s.recheck.results)
  | forgets (key : RequestKey) (hevent : event = .forget key) (htasks : s'.tasks = s.tasks)
      (hsinks : s'.sinks = s.sinks) (hresults : s'.recheck.results = s.recheck.results.erase key)
  | works (event' : TaskStep Nat VerificationRequest VerificationResult) (hevent : event = .task event')
      (htasks : s'.tasks = s.tasks.step event')
      (hsinks : s'.sinks = (s.tasks.endedBy event').foldl call s.sinks)
      (hresults : s'.recheck.results = s.recheck.results)

theorem answer_eq (s : RecheckSystem) (request : VerificationRequest) (priority : Nat) :
    s.answer request priority = if s.tasks.scheduler.isShutDown then .error .schedulerShutDown
      else .ok s.tasks.scheduler.nextId := by
  unfold answer Scheduler.submit
  split <;> rfl

/-- A round goes on. -/
theorem does_advance {round : Nat} {r : RecheckRound} (hr : s.rounds.get? round = some r) :
    s.Does (.advance round) (s.advance round r) := by
  obtain ⟨stage, n⟩ := r
  match stage with
  | .testing [] => exact .quiet (by simp only [acceptedBy, hr]) rfl rfl rfl rfl rfl
  | .testing (request :: left) => exact .quiet (by simp only [acceptedBy, hr]) rfl rfl rfl rfl rfl
  | .marking request left =>
      unfold RecheckSystem.advance
      simp only
      split
      · rename_i hreserve
        exact .quiet (by simp only [acceptedBy, hr]) rfl rfl rfl rfl (Recheck.reserve_granted hreserve).1
      · rename_i hreserve
        rw [Recheck.reserve_refused hreserve]
        exact .quiet (by simp only [acceptedBy, hr]) rfl rfl rfl rfl rfl
  | .submitting request left =>
      unfold RecheckSystem.advance
      simp only [answer_eq]
      by_cases hdown : s.tasks.scheduler.isShutDown = true
      · simp only [hdown]
        exact .quiet (by simp [acceptedBy, hr, TaskSystem.acceptedBy, hdown]) rfl rfl rfl rfl rfl
      · simp only [hdown]
        exact .accepts ⟨s.tasks.scheduler.nextId, left.length + 1, request⟩
          (by simp [acceptedBy, hr, TaskSystem.acceptedBy, hdown]) rfl rfl
          (by simp [TaskSystem.acceptedBy, hdown]) rfl rfl rfl
  | .retracting request => exact .quiet (by simp only [acceptedBy, hr]) rfl rfl rfl rfl rfl

/-- What hears of a task goes on. -/
theorem does_hear {id : Nat} {sink : RecheckSink} (hsink : s.sinks.get? id = some sink) :
    s.Does (.hear id) (s.hear id sink) := by
  obtain ⟨key, stage⟩ := sink
  match stage with
  | .waiting | .released => exact .quiet rfl (by simp only [storedBy, hsink]) rfl rfl rfl rfl
  | .called (.ok result) =>
      exact .stores id key result hsink rfl (by simp only [storedBy, hsink]) rfl rfl rfl rfl
  | .called (.error e) =>
      exact .releases id key _ hsink (fun _ h => by cases h) rfl (by simp only [storedBy, hsink]) rfl rfl rfl rfl
  | .kept =>
      exact .releases id key _ hsink (fun _ h => by cases h) rfl (by simp only [storedBy, hsink]) rfl rfl rfl rfl

/-- Every event does something of the kind. -/
theorem does_step (s : RecheckSystem) (event : RecheckStep) : s.Does event (s.step event) := by
  cases event with
  | begin round plan =>
      simp only [RecheckSystem.step]
      split <;> exact .quiet rfl rfl rfl rfl rfl rfl
  | advance round =>
      cases hr : s.rounds.get? round with
      | none =>
          simp only [RecheckSystem.step, hr]
          exact .quiet (by simp only [acceptedBy, hr]) rfl rfl rfl rfl rfl
      | some r =>
          simp only [RecheckSystem.step, hr]
          exact does_advance hr
  | hear id =>
      cases hsink : s.sinks.get? id with
      | none =>
          simp only [RecheckSystem.step, hsink]
          exact .quiet rfl (by simp only [storedBy, hsink]) rfl rfl rfl rfl
      | some sink =>
          simp only [RecheckSystem.step, hsink]
          exact does_hear hsink
  | forget key => exact .forgets key rfl rfl rfl rfl
  | task event => exact .works event rfl rfl rfl rfl

/-- What hears of a task that ends is told what it comes to. -/
theorem get?_call (sinks : Table Nat RecheckSink) (id : Nat) (result : TaskResult VerificationResult)
    (id' : Nat) : (call sinks (id, result)).get? id' =
      if id' = id then (sinks.get? id').map ({ · with stage := .called result }) else sinks.get? id' := by
  unfold call
  by_cases hid : id' = id
  · subst hid
    rw [if_pos rfl]
    cases hsink : sinks.get? id' <;> simp [hsink]
  · rw [if_neg hid]
    cases hsink : sinks.get? id <;> simp [hid]

/-! ## From tasks to requests -/

/-- A system that has accepted the `tasks` and stored the `results`, after the ends of the `past`. -/
structure Traced (s : RecheckSystem) (past : List (Nat × TaskResult VerificationResult))
    (tasks : List (QueuedTask Nat VerificationRequest)) (results : List (Nat × VerificationResult)) :
    Prop where
  ids : tasks.Pairwise (·.id < ·.id)
  known : ∀ t ∈ tasks, s.tasks.IsKnown t.id
  /-- What is to be done for a task is what was submitted. -/
  queued : ∀ t ∈ tasks, ∀ u ∈ s.tasks.scheduler.queue, u.id = t.id → u = t
  sinks : ∀ t ∈ tasks, ∃ stage, s.sinks.get? t.id = some ⟨t.body.key, stage⟩
  heard : ∀ id key stage, s.sinks.get? id = some ⟨key, stage⟩ → ∃ t ∈ tasks, t.id = id ∧ t.body.key = key
  called : ∀ id key result, s.sinks.get? id = some ⟨key, .called result⟩ → (id, result) ∈ past
  /-- A result is on its way or has been stored. -/
  delivered : ∀ t ∈ tasks, ∀ result, (t.id, .ok result) ∈ past →
    s.sinks.get? t.id = some ⟨t.body.key, .called (.ok result)⟩ ∨ (t.id, result) ∈ results
  ended : ∀ id result, (id, result) ∈ results → (id, .ok result) ∈ past
  results : ∀ key result, s.recheck.results.get? key = some result →
    ∃ t ∈ tasks, t.body.key = key ∧ (t.id, result) ∈ results

section Steps

variable {event : RecheckStep} {tasks : List (QueuedTask Nat VerificationRequest)}
  {results : List (Nat × VerificationResult)}

/-- What happens around the tasks. -/
theorem Traced.quiet (h : s.Traced past tasks results) {s' : RecheckSystem} (htasks : s'.tasks = s.tasks)
    (hsinks : s'.sinks = s.sinks)
    (hresults : ∀ key result, s'.recheck.results.get? key = some result →
      s.recheck.results.get? key = some result) : s'.Traced past tasks results where
  ids := h.ids
  known := htasks ▸ h.known
  queued := htasks ▸ h.queued
  sinks := hsinks ▸ h.sinks
  heard := hsinks ▸ h.heard
  called := hsinks ▸ h.called
  delivered := hsinks ▸ h.delivered
  ended := h.ended
  results key result hresult := h.results key result (hresults key result hresult)

/-- What hears of a task goes on. -/
theorem Traced.hear (h : s.Traced past tasks results) {s' : RecheckSystem} {id : Nat} {key : RequestKey}
    {stage stage' : SinkStage} {more : List (Nat × VerificationResult)}
    (hsink : s.sinks.get? id = some ⟨key, stage⟩) (hstage' : ∀ result, stage' ≠ .called result)
    (htasks : s'.tasks = s.tasks) (hsinks : s'.sinks = s.sinks.put id ⟨key, stage'⟩)
    (hmore : ∀ result, stage = .called (.ok result) → (id, result) ∈ more)
    (hended : ∀ id result, (id, result) ∈ more → (id, .ok result) ∈ past)
    (hresults : ∀ key' result, s'.recheck.results.get? key' = some result →
      s.recheck.results.get? key' = some result ∨ key' = key ∧ (id, result) ∈ more) :
    s'.Traced past tasks (results ++ more) where
  ids := h.ids
  known := htasks ▸ h.known
  queued := htasks ▸ h.queued
  sinks t ht := by
    obtain ⟨stage'', hold⟩ := h.sinks t ht
    rw [hsinks, Table.get?_put]
    by_cases hid : t.id = id
    · rw [hid, hsink] at hold
      injection hold with hold
      injection hold with hkey _
      rw [if_pos hid, hkey]
      exact ⟨stage', rfl⟩
    · rw [if_neg hid]
      exact ⟨stage'', hold⟩
  heard id' key' stage'' hsink' := by
    rw [hsinks] at hsink'
    rcases Table.get?_put_cases hsink' with ⟨rfl, heq⟩ | ⟨-, hold⟩
    · injection heq with hkey _
      exact hkey ▸ h.heard id' key stage hsink
    · exact h.heard id' key' stage'' hold
  called id' key' result hsink' := by
    rw [hsinks] at hsink'
    rcases Table.get?_put_cases hsink' with ⟨-, heq⟩ | ⟨-, hold⟩
    · injection heq with _ hstage
      exact absurd hstage.symm (hstage' result)
    · exact h.called id' key' result hold
  delivered t ht result hresult := by
    rcases h.delivered t ht result hresult with hcalled | hstored
    · by_cases hid : t.id = id
      · rw [hid, hsink] at hcalled
        injection hcalled with hcalled
        injection hcalled with _ hstage
        exact Or.inr (List.mem_append_right _ (hid ▸ hmore result hstage))
      · rw [hsinks, Table.get?_put, if_neg hid]
        exact Or.inl hcalled
    · exact Or.inr (List.mem_append_left _ hstored)
  ended id' result hmem := by
    rcases List.mem_append.mp hmem with hmem | hmem
    · exact h.ended id' result hmem
    · exact hended id' result hmem
  results key' result hresult := by
    rcases hresults key' result hresult with hold | ⟨rfl, hnew⟩
    · obtain ⟨t, ht, hkey, hstored⟩ := h.results key' result hold
      exact ⟨t, ht, hkey, List.mem_append_left _ hstored⟩
    · obtain ⟨t, ht, rfl, hkey⟩ := h.heard id key' stage hsink
      exact ⟨t, ht, hkey, List.mem_append_right _ hnew⟩

/-- A task is accepted, of which something will hear. -/
theorem Traced.accept (h : s.Traced past tasks results) (hs : s.Sound past) {s' : RecheckSystem}
    {t : QueuedTask Nat VerificationRequest}
    (hsubmitted : s.tasks.acceptedBy (.submit t.body.taskName t.key t.body true) = [t])
    (htasks : s'.tasks = s.tasks.step (.submit t.body.taskName t.key t.body true))
    (hsinks : s'.sinks = s.sinks.put t.id ⟨t.body.key, .waiting⟩)
    (hresults : s'.recheck.results = s.recheck.results) :
    s'.Traced past (tasks ++ [t]) results := by
  obtain ⟨hnew, hqueue, hknown, hfree⟩ := hs.tasks.accepted_spec hsubmitted
  rw [← htasks] at hqueue hknown
  -- its number tells it from all tasks before, so that nothing changes that hears of them
  have hlt : ∀ u ∈ tasks, u.id < t.id := fun u hu => hnew ▸ hs.tasks.lt_of_isKnown (h.known u hu)
  have hothers : ∀ u ∈ tasks, s'.sinks.get? u.id = s.sinks.get? u.id := by
    intro u hu
    rw [hsinks, Table.get?_put, if_neg (Nat.ne_of_lt (hlt u hu))]
  have hself : s'.sinks.get? t.id = some ⟨t.body.key, .waiting⟩ := by
    rw [hsinks, Table.get?_put, if_pos rfl]
  exact {
    ids := by
      refine List.pairwise_append.mpr ⟨h.ids, List.pairwise_singleton .., ?_⟩
      intro u hu v hv
      exact List.mem_singleton.mp hv ▸ hlt u hu
    known := by
      intro u hu
      rcases List.mem_append.mp hu with hu | hu
      · exact htasks ▸ hs.tasks.isKnown_step (h.known u hu) _
      · exact List.mem_singleton.mp hu ▸ hknown
    queued := by
      intro u hu v hv hid
      rw [hqueue] at hv
      rcases List.mem_append.mp hu with hu | hu <;> rcases List.mem_append.mp hv with hv | hv
      · exact h.queued u hu v hv hid
      · rw [List.mem_singleton.mp hv] at hid
        exact absurd hid.symm (Nat.ne_of_lt (hlt u hu))
      · rw [List.mem_singleton.mp hu, hnew] at hid
        exact absurd hid (Nat.ne_of_lt (hs.tasks.lt_of_waiting hv))
      · rw [List.mem_singleton.mp hu, List.mem_singleton.mp hv]
    sinks := by
      intro u hu
      rcases List.mem_append.mp hu with hu | hu
      · rw [hothers u hu]
        exact h.sinks u hu
      · rw [List.mem_singleton.mp hu]
        exact ⟨.waiting, hself⟩
    heard := by
      intro id key stage hsink
      rw [hsinks] at hsink
      rcases Table.get?_put_cases hsink with ⟨rfl, heq⟩ | ⟨-, hold⟩
      · injection heq with hkey _
        exact ⟨t, List.mem_append_right _ List.mem_cons_self, rfl, hkey.symm⟩
      · obtain ⟨u, hu, hid, hkey⟩ := h.heard id key stage hold
        exact ⟨u, List.mem_append_left _ hu, hid, hkey⟩
    called := by
      intro id key result hsink
      rw [hsinks] at hsink
      rcases Table.get?_put_cases hsink with ⟨-, heq⟩ | ⟨-, hold⟩
      · injection heq with _ hstage
        cases hstage
      · exact h.called id key result hold
    delivered := by
      intro u hu result hresult
      rcases List.mem_append.mp hu with hu | hu
      · rw [hothers u hu]
        exact h.delivered u hu result hresult
      · rw [List.mem_singleton.mp hu] at hresult
        exact absurd hresult (hfree _)
    ended := h.ended
    results := by
      intro key result hresult
      rw [hresults] at hresult
      obtain ⟨u, hu, hkey, hstored⟩ := h.results key result hresult
      exact ⟨u, List.mem_append_left _ hu, hkey, hstored⟩ }

/-- What is to be done for a task does not change. -/
theorem Traced.queued_step (h : s.Traced past tasks results) (hs : s.Sound past)
    (event : TaskStep Nat VerificationRequest VerificationResult) {t u : QueuedTask Nat VerificationRequest}
    (ht : t ∈ tasks) (hu : u ∈ (s.tasks.step event).scheduler.queue) (hid : u.id = t.id) : u = t := by
  cases hs.tasks.serves event with
  | quiet hqueue | starts _ hqueue | refuses _ hqueue =>
      rw [hqueue] at hu
      exact h.queued t ht u hu hid
  | takes _ _ hqueue | withdraws _ _ _ hqueue =>
      rw [hqueue] at hu
      exact h.queued t ht u (List.mem_of_mem_filter hu) hid
  | accepts hqueue =>
      rw [hqueue] at hu
      rcases List.mem_append.mp hu with hu | hu
      · exact h.queued t ht u hu hid
      · have hlt := hs.tasks.lt_of_isKnown (h.known t ht)
        rw [← hid, (TaskSystem.id_of_acceptedBy hu).1] at hlt
        exact absurd hlt (Nat.lt_irrefl _)
  | drains hqueue =>
      rw [hqueue] at hu
      cases hu

/-- Something happens to the tasks. What hears of one that ends is told so. -/
theorem Traced.work (h : s.Traced past tasks results) (hs : s.Sound past)
    (event : TaskStep Nat VerificationRequest VerificationResult) :
    (s.step (.task event)).Traced (past ++ s.tasks.endedBy event) tasks results := by
  have hknown : ∀ t ∈ tasks, (s.tasks.step event).IsKnown t.id :=
    fun t ht => hs.tasks.isKnown_step (h.known t ht) event
  have hqueued := fun t ht u hu => h.queued_step (t := t) (u := u) hs event ht hu
  rcases s.tasks.endedBy_cases event with hends | ⟨id, result, hends⟩
  · have hsinks : (s.step (.task event)).sinks = s.sinks := by
      show (s.tasks.endedBy event).foldl call s.sinks = s.sinks
      rw [hends, List.foldl_nil]
    rw [hends, List.append_nil]
    exact { h with
      known := hknown
      queued := hqueued
      sinks := hsinks ▸ h.sinks
      heard := hsinks ▸ h.heard
      called := hsinks ▸ h.called
      delivered := hsinks ▸ h.delivered }
  · have htasks := hs.tasks.step event
    rw [hends] at htasks ⊢
    have hsinks : ∀ id', (s.step (.task event)).sinks.get? id' = if id' = id then
        (s.sinks.get? id').map ({ · with stage := .called result }) else s.sinks.get? id' := by
      intro id'
      show ((s.tasks.endedBy event).foldl call s.sinks).get? id' = _
      rw [hends]
      exact get?_call s.sinks id result id'
    refine ⟨h.ids, hknown, hqueued, ?_, ?_, ?_, ?_, ?_, h.results⟩
    · intro t ht
      obtain ⟨stage, hsink⟩ := h.sinks t ht
      rw [hsinks, hsink]
      split
      · exact ⟨.called result, rfl⟩
      · exact ⟨stage, rfl⟩
    · intro id' key stage hsink
      rw [hsinks] at hsink
      split at hsink
      · obtain ⟨⟨key', stage'⟩, hold, heq⟩ := Option.map_eq_some_iff.mp hsink
        injection heq with hkey _
        exact hkey ▸ h.heard id' key' stage' hold
      · exact h.heard id' key stage hsink
    · intro id' key result' hsink
      rw [hsinks] at hsink
      split at hsink
      · rename_i hid
        obtain ⟨sink, -, heq⟩ := Option.map_eq_some_iff.mp hsink
        injection heq with _ hstage
        injection hstage with hresult
        rw [hid, ← hresult]
        exact List.mem_append_right _ List.mem_cons_self
      · exact List.mem_append_left _ (h.called id' key result' hsink)
    · intro t ht result' hresult
      rw [hsinks]
      rcases List.mem_append.mp hresult with hold | hnew
      · -- a task that has ended does not end once more
        have hid : t.id ≠ id := by
          rintro rfl
          have hends := TaskSystem.mem_endsOf.mpr hold
          rw [htasks.first_end] at hends
          cases hends
        rw [if_neg hid]
        exact h.delivered t ht result' hold
      · injection List.mem_singleton.mp hnew with hid hresult
        obtain ⟨stage, hsink⟩ := h.sinks t ht
        rw [if_pos hid, hsink, ← hresult]
        exact Or.inl rfl
    · intro id' result' hmem
      exact List.mem_append_left _ (h.ended id' result' hmem)

end Steps

/-- Every event takes results from their tasks to their requests. -/
theorem Traced.step {tasks : List (QueuedTask Nat VerificationRequest)}
    {results : List (Nat × VerificationResult)} (h : s.Traced past tasks results) (hs : s.Sound past)
    (event : RecheckStep) :
    (s.step event).Traced (past ++ s.endedBy event) (tasks ++ s.acceptedBy event)
      (results ++ s.storedBy event) := by
  cases s.does_step event with
  | quiet haccepted hstored hended htasks hsinks hresults =>
      rw [haccepted, hstored, hended, List.append_nil, List.append_nil, List.append_nil]
      exact h.quiet htasks hsinks fun key result hresult => hresults ▸ hresult
  | accepts t haccepted hstored hended hsubmitted htasks hsinks hresults =>
      rw [haccepted, hstored, hended, List.append_nil, List.append_nil]
      exact h.accept hs hsubmitted htasks hsinks hresults
  | stores id key result hsink haccepted hstored hended htasks hsinks hresults =>
      rw [haccepted, hstored, hended, List.append_nil, List.append_nil]
      refine h.hear hsink (fun _ h => by cases h) htasks hsinks ?_ ?_ ?_
      · intro result' heq
        injection heq with heq
        injection heq with heq
        exact heq ▸ List.mem_cons_self
      · intro id' result' hmem
        injection List.mem_singleton.mp hmem with hid hresult
        rw [hid, hresult]
        exact h.called id key (.ok result) hsink
      · intro key' result' hresult
        rw [hresults] at hresult
        rcases Table.get?_put_cases hresult with ⟨hkey, rfl⟩ | ⟨-, hold⟩
        · exact Or.inr ⟨hkey, List.mem_cons_self⟩
        · exact Or.inl hold
  | releases id key stage hsink hstage haccepted hstored hended htasks hsinks hresults =>
      rw [haccepted, hstored, hended, List.append_nil, List.append_nil]
      refine h.hear hsink (fun _ h => by cases h) htasks hsinks ?_ ?_ ?_
      · intro result heq
        exact absurd heq (hstage result)
      · intro _ _ hmem
        cases hmem
      · intro key' result hresult
        rw [hresults] at hresult
        exact Or.inl hresult
  | forgets key hevent htasks hsinks hresults =>
      subst hevent
      rw [show s.acceptedBy (.forget key) = [] from rfl, show s.storedBy (.forget key) = [] from rfl,
        show s.endedBy (.forget key) = [] from rfl, List.append_nil, List.append_nil, List.append_nil]
      refine h.quiet htasks hsinks ?_
      intro key' result hresult
      rw [hresults] at hresult
      exact (Table.get?_erase_cases hresult).2
  | works event' hevent =>
      subst hevent
      rw [show s.acceptedBy (.task event') = [] from rfl, show s.storedBy (.task event') = [] from rfl,
        List.append_nil, List.append_nil]
      exact h.work hs event'

theorem Traced.run {tasks : List (QueuedTask Nat VerificationRequest)}
    {results : List (Nat × VerificationResult)} (h : s.Traced past tasks results) (hs : s.Sound past)
    (events : List RecheckStep) :
    ∃ past', (s.run events).Sound past' ∧
      (s.run events).Traced past' (tasks ++ s.accepted events) (results ++ s.stored events) := by
  induction events generalizing s past tasks results with
  | nil =>
      rw [accepted, stored, List.append_nil, List.append_nil]
      exact ⟨past, hs, h⟩
  | cons event rest ih =>
      rw [accepted, stored, ← List.append_assoc, ← List.append_assoc]
      exact ih (h.step hs event) (hs.step event)

end RecheckSystem

end Linkage

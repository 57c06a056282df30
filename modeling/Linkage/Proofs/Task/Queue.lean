import Linkage.Proofs.Task.Conduct
import Linkage.Proofs.Task.Order

/-!
# What goes into a queue and comes out

The queue of a scheduler grows by submissions. A task leaves it when a worker takes it because it goes first,
when a call that has cancelled it takes it out, or when the scheduler is shut down; the tasks that are left
stay in the order of their submission.

* **`accepted`** — the tasks of a run, in order of submission;
* **`Serves`**, **`Sound.serves`** — what an event does to the queue, and to the tasks that workers have taken;
* **`Lined`**, **`Lined.step`** — the queue is in order of submission, which every event preserves.
-/

namespace Linkage

variable {κ β ρ : Type}

/-- The task that is told to have started. -/
def TaskEvent.started? : TaskEvent ρ → Option Nat
  | .started id => some id
  | .progressed _ _ | .ended _ _ => none

/-- The task that a worker has taken and not started. -/
def WorkerStage.held? : WorkerStage → Option Nat
  | .holding id => some id
  | .idle | .executing _ | .done _ | .gone => none

namespace Scheduler

/-- The tasks that have started, in order. -/
def starts (s : Scheduler κ β ρ) : List Nat := s.events.filterMap TaskEvent.started?

theorem starts_raise (s : Scheduler κ β ρ) (id : Nat) (fraction : Float) :
    (s.raise id fraction).starts = s.starts ∧ (s.raise id fraction).order = s.order := by
  unfold raise
  split
  · exact ⟨rfl, rfl⟩
  · split
    · exact ⟨rfl, rfl⟩
    · simp only
      split
      · simp [starts, tell, modifyTask, TaskEvent.started?]
      · exact ⟨rfl, rfl⟩

theorem starts_finish (s : Scheduler κ β ρ) (id : Nat) (result : TaskResult ρ) :
    (s.finish id result).starts = s.starts ∧ (s.finish id result).order = s.order := by
  have hraised : (if result.toOption.isSome then s.raise id 1.0 else s).starts = s.starts ∧
      (if result.toOption.isSome then s.raise id 1.0 else s).order = s.order := by
    split
    · exact s.starts_raise id 1.0
    · exact ⟨rfl, rfl⟩
  rw [finish_eq]
  unfold reported
  split
  · refine ⟨?_, hraised.2⟩
    show (_ ++ [TaskEvent.ended id result]).filterMap TaskEvent.started? = _
    rw [List.filterMap_append]
    exact (List.append_nil _).trans hraised.1
  · exact hraised

theorem starts_start (s : Scheduler κ β ρ) (now id : Nat) :
    (s.start now id).2.starts = s.starts ++ (if (s.start now id).1 then [id] else []) ∧
      (s.start now id).2.order = s.order := by
  unfold start
  cases hget : s.tasks.get? id with
  | none => simp
  | some t =>
      cases hcheck : (t.token.poll now).check with
      | error e =>
          obtain ⟨hstarts, horder⟩ := starts_finish (ρ := ρ) (s.modifyTask id fun t' =>
            { t' with token := t.token.poll now }) id (.error e)
          simp only [hcheck]
          exact ⟨hstarts.trans (List.append_nil _).symm, horder⟩
      | ok _ =>
          simp only [hcheck]
          refine ⟨?_, rfl⟩
          show (s.events ++ [TaskEvent.started id]).filterMap TaskEvent.started? = _
          rw [List.filterMap_append]
          rfl

/-- What a worker takes goes first, and the others stay in the queue. -/
theorem pop_eq_some_iff {s s' : Scheduler κ β ρ} {t : QueuedTask κ β} :
    s.pop = some (t, s') ↔ s.isShutDown = false ∧ first? s.order s.queue = some t ∧
      s' = { s with queue := s.queue.filter (·.id ≠ t.id), running := s.running ++ [t.id] } := by
  unfold pop
  by_cases hdown : s.isShutDown = true
  · simp [hdown]
  · rw [if_neg hdown, Option.map_eq_some_iff]
    constructor
    · rintro ⟨first, hfirst, heq⟩
      injection heq with hsame hrest
      subst hsame
      exact ⟨Bool.not_eq_true _ ▸ hdown, hfirst, hrest.symm⟩
    · rintro ⟨-, hfirst, rfl⟩
      exact ⟨t, hfirst, rfl⟩

end Scheduler

namespace TaskSystem

variable {s s' : TaskSystem κ β ρ} {past : List (Nat × TaskResult ρ)}
  {submitted : List (QueuedTask κ β)}

/-! ## What events do to the queue -/

/-- The task that an event adds to the queue. -/
def acceptedBy (s : TaskSystem κ β ρ) : TaskStep κ β ρ → List (QueuedTask κ β)
  | .submit _ key body _ =>
    if s.scheduler.isShutDown then [] else [⟨s.scheduler.nextId, key, body⟩]
  | _ => []

/-- The tasks that are accepted in a run, in order. -/
def accepted (s : TaskSystem κ β ρ) : List (TaskStep κ β ρ) → List (QueuedTask κ β)
  | [] => []
  | event :: rest => s.acceptedBy event ++ (s.step event).accepted rest

/-- The tasks that workers have taken and not started. -/
def held (s : TaskSystem κ β ρ) : List Nat := s.workers.filterMap WorkerStage.held?

/-- A task was accepted. -/
def IsKnown (s : TaskSystem κ β ρ) (id : Nat) : Prop := ∃ t, s.scheduler.tasks.get? id = some t

/-- The token of a task is cancelled. -/
def IsCancelled (s : TaskSystem κ β ρ) (id : Nat) : Prop :=
  ∃ t, s.scheduler.tasks.get? id = some t ∧ t.token.isCancelled = true

/-- What an event may do to the queue and to the tasks that workers have taken. -/
inductive Serves (s : TaskSystem κ β ρ) (event : TaskStep κ β ρ) (s' : TaskSystem κ β ρ) : Prop
  | quiet (hqueue : s'.scheduler.queue = s.scheduler.queue)
      (hstarts : s'.scheduler.starts = s.scheduler.starts) (hheld : s'.held.Perm s.held)
  | accepts (hqueue : s'.scheduler.queue = s.scheduler.queue ++ s.acceptedBy event)
      (hsubmit : ∃ name key body tells, event = .submit name key body tells)
      (hstarts : s'.scheduler.starts = s.scheduler.starts) (hheld : s'.held.Perm s.held)
  | takes (t : QueuedTask κ β) (hfirst : Scheduler.first? s.scheduler.order s.scheduler.queue = some t)
      (hqueue : s'.scheduler.queue = s.scheduler.queue.filter (·.id ≠ t.id))
      (hstarts : s'.scheduler.starts = s.scheduler.starts) (hheld : s'.held.Perm (t.id :: s.held))
  | starts (id : Nat) (hqueue : s'.scheduler.queue = s.scheduler.queue)
      (hstarts : s'.scheduler.starts = s.scheduler.starts ++ [id])
      (hheld : s.held.Perm (id :: s'.held))
  | refuses (id : Nat) (hqueue : s'.scheduler.queue = s.scheduler.queue)
      (hstarts : s'.scheduler.starts = s.scheduler.starts) (hheld : s.held.Perm (id :: s'.held))
      (hcancelled : s'.IsCancelled id)
  | withdraws (call id : Nat) (hcall : s.cancels.get? call = some (.flipped id))
      (hqueue : s'.scheduler.queue = s.scheduler.queue.filter (·.id ≠ id))
      (hstarts : s'.scheduler.starts = s.scheduler.starts) (hheld : s'.held.Perm s.held)
  | drains (hqueue : s'.scheduler.queue = []) (hdown : s'.scheduler.isShutDown = true)
      (hstarts : s'.scheduler.starts = s.scheduler.starts) (hheld : s'.held.Perm s.held)

/-- A worker goes on to another stage. -/
theorem perm_held_set {workers : List WorkerStage} {worker : Nat} {old : WorkerStage}
    (hold : workers[worker]? = some old) (new : WorkerStage) :
    (old.held?.toList ++ (workers.set worker new).filterMap WorkerStage.held?).Perm
      (new.held?.toList ++ workers.filterMap WorkerStage.held?) := by
  obtain ⟨hlt, rfl⟩ := List.getElem?_eq_some_iff.mp hold
  have hcons : ∀ (stage : WorkerStage) (stages : List WorkerStage),
      (stage :: stages).filterMap WorkerStage.held? =
        stage.held?.toList ++ stages.filterMap WorkerStage.held? := by
    intro stage stages
    cases stage <;> rfl
  have hset := (List.set_perm_cons_eraseIdx hlt new).filterMap WorkerStage.held?
  have hget := (List.getElem_cons_eraseIdx_perm hlt).filterMap WorkerStage.held?
  rw [hcons] at hset hget
  refine (hset.append_left _).trans ?_
  refine List.perm_append_comm_assoc _ _ _ |>.trans ?_
  exact hget.append_left _

/-- Where no task is held before or after, a worker that goes on changes nothing of the kind. -/
theorem held_set {worker : Nat} {old new : WorkerStage} (hold : s.workers[worker]? = some old)
    (hheld : old.held? = none) (hheld' : new.held? = none) :
    ((s.workers.set worker new).filterMap WorkerStage.held?).Perm s.held := by
  have hperm := perm_held_set hold new
  rwa [hheld, hheld'] at hperm

theorem isCancelled_iff {id : Nat} :
    s.IsCancelled id ↔ ∃ v, (s.scheduler.sight id).view = some v ∧ v.cancelled = true := by
  unfold IsCancelled Scheduler.sight
  constructor
  · rintro ⟨t, ht, hcancelled⟩
    exact ⟨t.view, congrArg (Option.map ScheduledTask.view) ht, hcancelled⟩
  · rintro ⟨v, hv, hcancelled⟩
    obtain ⟨t, ht, rfl⟩ := Option.map_eq_some_iff.mp hv
    exact ⟨t, ht, hcancelled⟩

/-- A task that waits is counted. -/
theorem waiting_pos {t : QueuedTask κ β} (ht : t ∈ s.scheduler.queue) :
    0 < s.scheduler.queue.countP (·.id == t.id) := List.countP_pos_iff.mpr ⟨t, ht, by simp⟩

/-- A task that waits is at the beginning of its life. -/
theorem Sound.life_of_waiting (hs : s.Sound past) {t : QueuedTask κ β} (ht : t ∈ s.scheduler.queue) :
    ∃ tells cancelled, s.standing past t.id = (⟨.queued, tells, cancelled⟩ : TaskLife ρ).standing := by
  refine hs.life_of_queued ?_
  have hwaits := waiting_pos ht
  unfold queued
  omega

theorem Sound.isKnown_step (hs : s.Sound past) {id : Nat} (h : s.IsKnown id)
    (event : TaskStep κ β ρ) : (s.step event).IsKnown id := by
  obtain ⟨t, ht⟩ := h
  obtain ⟨life, hlife, -⟩ := hs.life_of_task ht
  obtain ⟨life', hlife', -⟩ := (hs.step_lives event).2 id life hlife
  obtain ⟨t', ht', -⟩ := task_of_life hlife'
  exact ⟨t', ht'⟩

/-- An event that cannot happen. -/
theorem Serves.of_idle {event : TaskStep κ β ρ} (hstep : s.step event = s) :
    s.Serves event (s.step event) := by
  rw [hstep]
  exact .quiet rfl rfl (List.Perm.refl _)

/-- A worker takes a task. -/
theorem serves_pop (s : TaskSystem κ β ρ) (worker : Nat) :
    s.Serves (.pop worker) (s.step (.pop worker)) := by
  rcases hstage : s.workers[worker]? with _ | stage
  · exact .of_idle (by simp only [step, hstage])
  · rcases hpop : s.scheduler.pop with _ | ⟨t, scheduler⟩
    · exact .of_idle (by cases stage <;> simp only [step, hstage, hpop])
    · cases stage with
      | idle =>
          have hstep : s.step (.pop worker) = { s with
              scheduler := scheduler, workers := s.workers.set worker (.holding t.id) } := by
            simp only [step, hstage, hpop]
          obtain ⟨-, hfirst, rfl⟩ := Scheduler.pop_eq_some_iff.mp hpop
          rw [hstep]
          exact .takes t hfirst rfl rfl (perm_held_set hstage (.holding t.id))
      | _ => exact .of_idle (by simp only [step, hstage])

/-- A worker starts the task that it has taken, or finds it cancelled. -/
theorem Sound.start_cases (hs : s.Sound past) {worker id : Nat}
    (hstage : s.workers[worker]? = some (.holding id)) :
    (s.step (.start worker)).scheduler.queue = s.scheduler.queue ∧
      ((s.step (.start worker)).scheduler.starts = s.scheduler.starts ++ [id] ∧
          (s.step (.start worker)).workers = s.workers.set worker (.executing id) ∨
        (s.step (.start worker)).scheduler.starts = s.scheduler.starts ∧
          (s.step (.start worker)).workers = s.workers.set worker (.done id) ∧
          (s.step (.start worker)).IsCancelled id) := by
  have hstep : s.step (.start worker) = s.start worker id := by
    simp only [TaskSystem.step, hstage]
  obtain ⟨tells, cancelled, hlife⟩ := hs.life_of_queued (queued_of_holding hstage)
  have hview : (s.scheduler.sight id).view = some ⟨.queued, none, cancelled, tells⟩ :=
    congrArg (·.sight.view) hlife
  have hstarts := (s.scheduler.starts_start s.now id).1
  rw [hstep]
  refine ⟨(s.scheduler.frame_start s.now id).1, ?_⟩
  unfold TaskSystem.start
  cases hrefusal : s.scheduler.refusal? s.now id with
  | none =>
      obtain ⟨-, hbegun, -⟩ := Scheduler.start_begun hrefusal hview
      rw [hbegun] at hstarts
      simp only [hbegun]
      exact Or.inl ⟨hstarts, rfl⟩
  | some e =>
      obtain ⟨hnot, -, hsight⟩ := Scheduler.start_refused hrefusal
      rw [hnot] at hstarts
      simp only [hnot]
      have hafter : ((s.scheduler.start s.now id).2.sight id).view =
          some ⟨.ofResult (.error e : TaskResult ρ), some (.error e), true, tells⟩ := by
        rw [hsight, if_pos rfl]
        simp [TaskSight.finish, TaskSight.modify, hview]
      exact Or.inr ⟨hstarts.trans (List.append_nil _), rfl, isCancelled_iff.mpr ⟨_, hafter, rfl⟩⟩

/-- A worker comes to start a task. -/
theorem Sound.serves_start (hs : s.Sound past) (worker : Nat) :
    s.Serves (.start worker) (s.step (.start worker)) := by
  rcases hstage : s.workers[worker]? with _ | stage
  · exact .of_idle (by simp only [TaskSystem.step, hstage])
  · cases stage with
    | holding id =>
        -- it holds the task no longer, whatever comes of it
        obtain ⟨hqueue, ⟨hstarts, hworkers⟩ | ⟨hstarts, hworkers, hcancelled⟩⟩ := hs.start_cases hstage
        · refine .starts id hqueue hstarts ?_
          unfold held
          rw [hworkers]
          exact (perm_held_set hstage (.executing id)).symm
        · refine .refuses id hqueue hstarts ?_ hcancelled
          unfold held
          rw [hworkers]
          exact (perm_held_set hstage (.done id)).symm
    | _ => exact .of_idle (by simp only [TaskSystem.step, hstage])

/-- What a task does that a worker executes, and what comes after it. -/
theorem serves_worker (s : TaskSystem κ β ρ) (worker : Nat) :
    (∀ fraction, s.Serves (.raise worker fraction) (s.step (.raise worker fraction))) ∧
      s.Serves (.poll worker) (s.step (.poll worker)) ∧
      (∀ result, s.Serves (.finish worker result) (s.step (.finish worker result))) ∧
      s.Serves (.retire worker) (s.step (.retire worker)) ∧
      s.Serves (.leave worker) (s.step (.leave worker)) := by
  rcases hstage : s.workers[worker]? with _ | stage
  · exact ⟨fun _ => .of_idle (by simp only [step, hstage]), .of_idle (by simp only [step, hstage]),
      fun _ => .of_idle (by simp only [step, hstage]), .of_idle (by simp only [step, hstage]),
      .of_idle (by simp only [step, hstage])⟩
  · refine ⟨?_, ?_, ?_, ?_, ?_⟩
    · intro fraction
      cases stage with
      | executing id =>
          have hstep : s.step (.raise worker fraction) =
              { s with scheduler := s.scheduler.raise id fraction } := by simp only [step, hstage]
          rw [hstep]
          exact .quiet (s.scheduler.alike_raise id fraction).queue
            (s.scheduler.starts_raise id fraction).1 (List.Perm.refl _)
      | _ => exact .of_idle (by simp only [step, hstage])
    · cases stage with
      | executing id =>
          have hstep : s.step (.poll worker) = s.poll id := by simp only [step, hstage]
          rw [hstep]
          exact .quiet rfl rfl (List.Perm.refl _)
      | _ => exact .of_idle (by simp only [step, hstage])
    · intro result
      cases stage with
      | executing id =>
          have hstep : s.step (.finish worker result) = { s with
              scheduler := s.scheduler.finish id result, workers := s.workers.set worker (.done id) } := by
            simp only [step, hstage]
          rw [hstep]
          exact .quiet (s.scheduler.frame_finish id result).1 (s.scheduler.starts_finish id result).1
            (held_set hstage rfl rfl)
      | _ => exact .of_idle (by simp only [step, hstage])
    · cases stage with
      | done id =>
          have hstep : s.step (.retire worker) =
              { s.drop id with workers := s.workers.set worker .idle } := by
            simp only [step, hstage]
          rw [hstep]
          exact .quiet rfl rfl (held_set hstage rfl rfl)
      | _ => exact .of_idle (by simp only [step, hstage])
    · cases stage with
      | idle =>
          cases hdown : s.scheduler.isShutDown with
          | false => exact .of_idle (by simp only [step, hstage, hdown])
          | true =>
              have hstep : s.step (.leave worker) =
                  { s with workers := s.workers.set worker .gone } := by
                simp only [step, hstage, hdown]
              rw [hstep]
              exact .quiet rfl rfl (held_set hstage rfl rfl)
      | _ => exact .of_idle (by simp only [step, hstage])

/-- A call that cancels a task goes on. -/
theorem serves_advance (s : TaskSystem κ β ρ) (call : Nat) :
    s.Serves (.advance call) (s.step (.advance call)) := by
  rcases hcall : s.cancels.get? call with _ | stage
  · exact .of_idle (by simp only [step, hcall])
  · have hstep : s.step (.advance call) = s.advance call stage := by simp only [step, hcall]
    rw [hstep]
    cases stage with
    | called id | withdrawn id => exact .quiet rfl rfl (List.Perm.refl _)
    | flipped id =>
        rcases s.advance_flipped call id with ⟨-, heq⟩ | heq <;> rw [heq]
        · exact .withdraws call id hcall rfl rfl (List.Perm.refl _)
        · exact .quiet rfl rfl (List.Perm.refl _)
    | dropped id =>
        exact .quiet (s.scheduler.frame_finish id _).1 (s.scheduler.starts_finish id _).1
          (List.Perm.refl _)

/-- The call that shuts the scheduler down goes on. -/
theorem serves_proceed (s : TaskSystem κ β ρ) : s.Serves .proceed (s.step .proceed) := by
  rcases hstage : s.shutting with _ | stage
  · exact .of_idle (by simp only [step, hstage])
  · have hstep : s.step .proceed = s.proceed stage := by simp only [step, hstage]
    rw [hstep]
    cases stage with
    | ending waiting => cases waiting <;> exact .quiet rfl rfl (List.Perm.refl _)
    | telling active => cases active <;> exact .quiet rfl rfl (List.Perm.refl _)
    | dropped id waiting =>
        exact .quiet (s.scheduler.frame_finish id _).1 (s.scheduler.starts_finish id _).1
          (List.Perm.refl _)
    | joining =>
        simp only [proceed]
        split <;> exact .quiet rfl rfl (List.Perm.refl _)
    | returned => exact .quiet rfl rfl (List.Perm.refl _)

/-- Every event does something of the kind. -/
theorem Sound.serves (hs : s.Sound past) (event : TaskStep κ β ρ) :
    s.Serves event (s.step event) := by
  cases event with
  | elapse ms | limit timeout | listen => exact .quiet rfl rfl (List.Perm.refl _)
  | submit name key body tells =>
      by_cases hdown : s.scheduler.isShutDown = true
      · refine .of_idle ?_
        simp [TaskSystem.step, TaskSystem.submit, Scheduler.submit, hdown]
      · have hstep : s.step (.submit name key body tells) = _ := rfl
        simp only [TaskSystem.step, TaskSystem.submit, Scheduler.submit, hdown] at hstep ⊢
        refine .accepts ?_ ⟨name, key, body, tells, rfl⟩ rfl (List.Perm.refl _)
        simp [acceptedBy, hdown]
  | pop worker => exact serves_pop s worker
  | start worker => exact hs.serves_start worker
  | raise worker fraction => exact (serves_worker s worker).1 fraction
  | poll worker => exact (serves_worker s worker).2.1
  | finish worker result => exact (serves_worker s worker).2.2.1 result
  | retire worker => exact (serves_worker s worker).2.2.2.1
  | leave worker => exact (serves_worker s worker).2.2.2.2
  | cancel call id | cancelActive call id =>
      simp only [TaskSystem.step, TaskSystem.enter]
      repeat' split
      all_goals exact .quiet rfl rfl (List.Perm.refl _)
  | advance call => exact serves_advance s call
  | shutDown =>
      by_cases hdown : s.scheduler.isShutDown = true
      · exact .of_idle (if_pos hdown)
      · have hstep : s.step .shutDown = { s with
            scheduler := s.scheduler.drain.2
            shutting := some (.ending s.scheduler.drain.1) } := if_neg hdown
        rw [hstep]
        exact .drains rfl rfl rfl (List.Perm.refl _)
  | proceed => exact serves_proceed s

/-- How keys are compared does not change, nor how many workers there are. -/
theorem order_step (s : TaskSystem κ β ρ) (event : TaskStep κ β ρ) :
    (s.step event).scheduler.order = s.scheduler.order ∧
      (s.step event).workers.length = s.workers.length := by
  cases event with
  | elapse ms | limit timeout | listen => exact ⟨rfl, rfl⟩
  | submit name key body tells =>
      simp only [step, submit, Scheduler.submit]
      by_cases hdown : s.scheduler.isShutDown = true <;> simp [hdown]
  | pop worker =>
      simp only [step]
      split
      · rename_i hpop
        obtain ⟨-, -, rfl⟩ := Scheduler.pop_eq_some_iff.mp hpop
        exact ⟨rfl, List.length_set⟩
      · exact ⟨rfl, rfl⟩
  | start worker =>
      simp only [step]
      split
      · exact ⟨(Scheduler.starts_start _ _ _).2, List.length_set⟩
      · exact ⟨rfl, rfl⟩
  | raise worker fraction =>
      simp only [step]
      split
      · exact ⟨(Scheduler.starts_raise _ _ _).2, rfl⟩
      · exact ⟨rfl, rfl⟩
  | poll worker =>
      simp only [step]
      split <;> exact ⟨rfl, rfl⟩
  | finish worker result =>
      simp only [step]
      split
      · exact ⟨(Scheduler.starts_finish _ _ _).2, List.length_set⟩
      · exact ⟨rfl, rfl⟩
  | retire worker | leave worker =>
      simp only [step]
      split
      · exact ⟨rfl, List.length_set⟩
      · exact ⟨rfl, rfl⟩
  | cancel call id | cancelActive call id =>
      simp only [step, enter]
      repeat' split
      all_goals exact ⟨rfl, rfl⟩
  | advance call =>
      simp only [step]
      split
      · rename_i stage _
        cases stage with
        | called id | withdrawn id => exact ⟨rfl, rfl⟩
        | flipped id =>
            rcases s.advance_flipped call id with ⟨-, heq⟩ | heq <;> rw [heq] <;> exact ⟨rfl, rfl⟩
        | dropped id => exact ⟨(Scheduler.starts_finish _ _ _).2, rfl⟩
      · exact ⟨rfl, rfl⟩
  | shutDown =>
      simp only [step]
      split <;> exact ⟨rfl, rfl⟩
  | proceed =>
      simp only [step]
      split
      · rename_i stage _
        cases stage with
        | ending waiting => cases waiting <;> exact ⟨rfl, rfl⟩
        | telling active => cases active <;> exact ⟨rfl, rfl⟩
        | dropped id waiting => exact ⟨(Scheduler.starts_finish _ _ _).2, rfl⟩
        | joining =>
            simp only [proceed]
            split <;> exact ⟨rfl, rfl⟩
        | returned => exact ⟨rfl, rfl⟩
      · exact ⟨rfl, rfl⟩

/-! ## The order of submission -/

/-- The queue of a system in which the tasks `submitted` have been accepted in this order. -/
structure Lined (s : TaskSystem κ β ρ) (submitted : List (QueuedTask κ β)) : Prop where
  queue : s.scheduler.queue.Sublist submitted
  ids : submitted.Pairwise (·.id < ·.id)
  below : ∀ t ∈ submitted, t.id < s.scheduler.nextId

/-- A task that is accepted gets the next number. -/
theorem id_of_acceptedBy {event : TaskStep κ β ρ} {t : QueuedTask κ β} (ht : t ∈ s.acceptedBy event) :
    t.id = s.scheduler.nextId ∧ (s.step event).scheduler.nextId = s.scheduler.nextId + 1 := by
  unfold acceptedBy at ht
  split at ht
  · rename_i name key body tells
    by_cases hdown : s.scheduler.isShutDown = true
    · simp [hdown] at ht
    · simp only [hdown] at ht
      rw [List.mem_singleton.mp ht]
      exact ⟨rfl, by simp [step, submit, Scheduler.submit, hdown]⟩
  · cases ht

/-- What was accepted has a number that is taken. -/
theorem Sound.lt_of_isKnown (hs : s.Sound past) {id : Nat} (hknown : s.IsKnown id) :
    id < s.scheduler.nextId := by
  by_contra hle
  obtain ⟨t, ht⟩ := hknown
  have hview : (s.scheduler.sight id).view = none :=
    congrArg (·.sight.view) (hs.newer id (Nat.le_of_not_lt hle))
  rw [Scheduler.view_eq_none_iff.mp hview] at ht
  cases ht

theorem Sound.lt_of_waiting (hs : s.Sound past) {t : QueuedTask κ β} (ht : t ∈ s.scheduler.queue) :
    t.id < s.scheduler.nextId := by
  obtain ⟨tells, cancelled, hlife⟩ := hs.life_of_waiting ht
  obtain ⟨known, hknown, -⟩ := task_of_life hlife
  exact hs.lt_of_isKnown ⟨known, hknown⟩

/-- A task that is accepted is new, and waits behind all others. -/
theorem Sound.accepted_spec (hs : s.Sound past) {event : TaskStep κ β ρ} {t : QueuedTask κ β}
    (haccepted : s.acceptedBy event = [t]) :
    t.id = s.scheduler.nextId ∧ (s.step event).scheduler.queue = s.scheduler.queue ++ [t] ∧
      (s.step event).IsKnown t.id ∧ ∀ result, (t.id, result) ∉ past := by
  have hid := (id_of_acceptedBy (haccepted.symm ▸ List.mem_cons_self)).1
  have hnew : ∀ result, (t.id, result) ∉ past := by
    intro result hmem
    have hnone : endsOf past t.id = [] := congrArg (·.ends) (hs.newer t.id (Nat.le_of_eq hid.symm))
    have hends := mem_endsOf.mpr hmem
    rw [hnone] at hends
    cases hends
  cases event with
  | submit name key body tells =>
      by_cases hdown : s.scheduler.isShutDown = true
      · simp [acceptedBy, hdown] at haccepted
      · have hsame : (⟨s.scheduler.nextId, key, body⟩ : QueuedTask κ β) = t := by
          simpa [acceptedBy, hdown] using haccepted
        refine ⟨hid, ?_, ?_, hnew⟩
        · simp [TaskSystem.step, TaskSystem.submit, Scheduler.submit, hdown, hsame]
        · simp [IsKnown, TaskSystem.step, TaskSystem.submit, Scheduler.submit, hdown, hid]
  | _ => cases haccepted

/-- Every event keeps the queue in order of submission. -/
theorem Lined.step (h : s.Lined submitted) (hs : s.Sound past) (event : TaskStep κ β ρ) :
    (s.step event).Lined (submitted ++ s.acceptedBy event) where
  queue := by
    have hkept : ∀ kept : List (QueuedTask κ β), kept.Sublist s.scheduler.queue →
        kept.Sublist (submitted ++ s.acceptedBy event) :=
      fun kept hsub => (hsub.trans h.queue).trans (List.sublist_append_left ..)
    cases hs.serves event with
    | quiet hqueue | starts _ hqueue | refuses _ hqueue =>
        rw [hqueue]
        exact hkept _ (List.Sublist.refl _)
    | accepts hqueue =>
        rw [hqueue]
        exact h.queue.append (List.Sublist.refl _)
    | takes t _ hqueue | withdraws _ _ _ hqueue =>
        rw [hqueue]
        exact hkept _ List.filter_sublist
    | drains hqueue =>
        rw [hqueue]
        exact List.nil_sublist _
  ids := by
    refine List.pairwise_append.mpr ⟨h.ids, ?_, ?_⟩
    · unfold acceptedBy
      repeat' split
      all_goals simp
    · intro t ht u hu
      rw [(id_of_acceptedBy hu).1]
      exact h.below t ht
  below t ht := by
    rcases List.mem_append.mp ht with ht | ht
    · exact Nat.lt_of_lt_of_le (h.below t ht) (hs.nextId_le_step event)
    · obtain ⟨hid, hnext⟩ := id_of_acceptedBy ht
      omega

theorem Lined.run (h : s.Lined submitted) (hs : s.Sound past) (events : List (TaskStep κ β ρ)) :
    (s.run events).Lined (submitted ++ s.accepted events) := by
  induction events generalizing s past submitted with
  | nil => simpa [accepted, TaskSystem.run] using h
  | cons event rest ih =>
      rw [accepted, ← List.append_assoc]
      exact ih (h.step hs event) (hs.step event)

theorem lined_ofWorkers (order : κ → κ → Ordering) (workers : Nat) :
    (ofWorkers order workers : TaskSystem κ β ρ).Lined [] :=
  ⟨List.Sublist.refl _, List.Pairwise.nil, by simp⟩

end TaskSystem

end Linkage

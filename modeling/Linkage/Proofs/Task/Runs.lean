import Linkage.Proofs.Task.Progress

/-!
# Every event takes every task on

* **`Orderly`** — every event keeps what is in order apart from the tasks;
* **`Sound.goesOn`** — an event that accepts no task takes all tasks on with their lives;
* **`Sound.submit_cases`** — a submission adds a task at the beginning of its life;
* **`Sound.step_lives`** — so every event keeps a system in order, and **`sound_run`** follows by
  induction on the events of a run.
-/

namespace Linkage.TaskSystem

variable {κ β ρ : Type} {s s' : TaskSystem κ β ρ} {past past' : List (Nat × TaskResult ρ)}

/-! ## What is in order apart from the tasks -/

/-- As long as a worker is there, the call that shuts the scheduler down has not returned. -/
theorem Orderly.not_returned (ho : s.Orderly) {worker : Nat} {stage : WorkerStage}
    (h : s.workers[worker]? = some stage) (hstage : stage ≠ .gone) :
    s.shutting ≠ some .returned := by
  intro hreturned
  exact hstage (ho.departed hreturned stage (List.mem_of_getElem? h))

/-- A worker acts. -/
theorem Orderly.worker (ho : s.Orderly) {worker : Nat} {old new : WorkerStage}
    {scheduler : Scheduler κ β ρ} (h : s.workers[worker]? = some old) (hold : old ≠ .gone)
    (hdown : scheduler.isShutDown = s.scheduler.isShutDown)
    (hqueue : scheduler.isShutDown = true → s.scheduler.queue = [] → scheduler.queue = [])
    (active : List Nat) :
    Orderly { s with
      scheduler := scheduler
      workers := s.workers.set worker new
      active := active } := by
  refine ⟨ho.cancelsDistinct, hdown.trans ho.closing, ?_, ?_⟩
  · intro hclosed
    exact hqueue hclosed (ho.drained (hdown.symm.trans hclosed))
  · intro hreturned
    exact absurd hreturned (ho.not_returned h hold)

/-- A call that cancels a task goes on. -/
theorem Orderly.advance (ho : s.Orderly) {call : Nat} {stage : CancelStage}
    (hcall : s.cancels.get? call = some stage) : (s.advance call stage).Orderly := by
  have hreplace := fun new => ho.cancelsDistinct.replace hcall new
  have herase := ho.cancelsDistinct.erase call
  match stage with
  | .called id => exact { ho with cancelsDistinct := hreplace _ }
  | .flipped id =>
      rcases s.advance_flipped call id with ⟨-, heq⟩ | heq
      · rw [heq]
        refine { ho with cancelsDistinct := hreplace _, drained := ?_ }
        intro hdown
        show s.scheduler.queue.filter _ = []
        rw [ho.drained hdown]
        rfl
      · rw [heq]
        exact { ho with cancelsDistinct := herase }
  | .withdrawn id => exact { ho with cancelsDistinct := hreplace _ }
  | .dropped id =>
      obtain ⟨hqueue, hdown, -⟩ :=
        s.scheduler.frame_finish id (.error (.cancelled Scheduler.byRequest))
      refine ⟨herase, hdown.trans ho.closing, ?_, ho.departed⟩
      intro hclosed
      exact hqueue.trans (ho.drained (hdown.symm.trans hclosed))

/-- The call that shuts the scheduler down goes on. -/
theorem Orderly.proceed (ho : s.Orderly) {stage : ShutDownStage}
    (hstage : s.shutting = some stage) : (s.proceed stage).Orderly := by
  have hsome : s.scheduler.isShutDown = true := by
    rw [ho.closing, hstage]
    rfl
  match stage with
  | .ending (id :: waiting) =>
      exact ⟨ho.cancelsDistinct, hsome, ho.drained, fun h => by cases h⟩
  | .ending [] => exact ⟨ho.cancelsDistinct, hsome, ho.drained, fun h => by cases h⟩
  | .dropped id waiting =>
      obtain ⟨hqueue, hdown, -⟩ := s.scheduler.frame_finish id (.error .schedulerShutDown)
      refine ⟨ho.cancelsDistinct, hdown.trans hsome, ?_, fun h => by cases h⟩
      intro _
      exact hqueue.trans (ho.drained hsome)
  | .telling (id :: active) =>
      exact ⟨ho.cancelsDistinct, hsome, ho.drained, fun h => by cases h⟩
  | .telling [] => exact ⟨ho.cancelsDistinct, hsome, ho.drained, fun h => by cases h⟩
  | .joining =>
      show Orderly
        (if s.workers.all (· == .gone) then { s with shutting := some .returned } else s)
      split
      · rename_i hgone
        refine ⟨ho.cancelsDistinct, hsome, ho.drained, ?_⟩
        intro _ stage hmem
        exact beq_iff_eq.mp (List.all_eq_true.mp hgone stage hmem)
      · exact ho
  | .returned => exact ho

theorem Orderly.enter (ho : s.Orderly) (call id : Nat) : (s.enter call id).Orderly := by
  unfold TaskSystem.enter
  split
  · exact ho
  · rename_i hfree
    have hnone := (Table.contains_eq_false _ _).mp (Bool.not_eq_true _ ▸ hfree)
    exact { ho with cancelsDistinct := ho.cancelsDistinct.put hnone _ }

/-! ## Submissions -/

/-- A task is accepted; the others stay where they are. -/
theorem Sound.submit_cases (hs : s.Sound past) (name : String) (key : κ) (body : β)
    (tellsResult : Bool) :
    (s.scheduler.isShutDown = true ∧ s.submit name key body tellsResult = s) ∨
    (s.scheduler.isShutDown = false ∧
      (s.submit name key body tellsResult).Orderly ∧
      (s.submit name key body tellsResult).scheduler.nextId = s.scheduler.nextId + 1 ∧
      (s.submit name key body tellsResult).standing past s.scheduler.nextId =
        (⟨.queued, tellsResult, false⟩ : TaskLife ρ).standing ∧
      ∀ id, id ≠ s.scheduler.nextId →
        (s.submit name key body tellsResult).standing past id = s.standing past id) := by
  rcases s.scheduler.submit_cases s.now name key body tellsResult with ⟨hdown, heq⟩ |
    ⟨hopen, hanswer, hqueue, hdown, hnext, hsight⟩
  · refine Or.inl ⟨hdown, ?_⟩
    unfold TaskSystem.submit
    rw [heq]
  · refine Or.inr ⟨hopen, ?_⟩
    have hsubmit : s.submit name key body tellsResult =
        { s with
          scheduler := (s.scheduler.submit s.now name key body tellsResult).2
          active := s.active ++ [s.scheduler.nextId] } := by
      unfold TaskSystem.submit
      rw [← Prod.eta (s.scheduler.submit s.now name key body tellsResult)]
      simp only [hanswer]
    have hnew : s.standing past s.scheduler.nextId = .unknown := hs.newer _ (Nat.le_refl _)
    have hqueued : ∀ id, TaskSystem.queued
        { s with
          scheduler := (s.scheduler.submit s.now name key body tellsResult).2
          active := s.active ++ [s.scheduler.nextId] } id =
        s.queued id + if id = s.scheduler.nextId then 1 else 0 := by
      intro id
      unfold queued
      rw [hqueue, List.countP_append, List.countP_singleton]
      by_cases hid : id = s.scheduler.nextId
      · simp [hid]
        omega
      · simp [hid, Ne.symm hid]
    rw [hsubmit]
    refine ⟨⟨hs.orderly.cancelsDistinct, ?_, ?_, hs.orderly.departed⟩, hnext, ?_, ?_⟩
    · show (s.scheduler.submit s.now name key body tellsResult).2.isShutDown = _
      rw [hdown, ← hopen]
      exact hs.orderly.closing
    · intro hclosed
      have hclosed : (s.scheduler.submit s.now name key body tellsResult).2.isShutDown = true :=
        hclosed
      rw [hdown] at hclosed
      cases hclosed
    · have hunseen : s.scheduler.sight s.scheduler.nextId = ⟨none, 0, []⟩ :=
        congrArg (·.sight) hnew
      refine standing_eq ?_ ?_ (congrArg (·.removed) hnew) (congrArg (·.executing) hnew)
        (congrArg (·.ends) hnew)
      · rw [hsight, if_pos rfl, hunseen]
        rfl
      · rw [hqueued, if_pos rfl]
        have hzero : s.queued s.scheduler.nextId = 0 := congrArg (·.queued) hnew
        rw [hzero]
        rfl
    · intro id hid
      refine standing_eq ?_ ?_ rfl rfl rfl
      · show (s.scheduler.submit s.now name key body tellsResult).2.sight id = _
        rw [hsight, if_neg hid]
        rfl
      · rw [hqueued, if_neg hid]
        rfl

/-! ## Runs -/

/-- What an event does that accepts no task. -/
def GoesOn (s : TaskSystem κ β ρ) (past : List (Nat × TaskResult ρ)) (event : TaskStep κ β ρ) :
    Prop :=
  s.LivesOn past (s.step event) (past ++ s.endedBy event) ∧ (s.step event).Orderly

/-- An event that ends no task. -/
theorem GoesOn.of_endless {event : TaskStep κ β ρ} (hstep : s.step event = s')
    (hends : s.endedBy event = []) (hlives : s.LivesOn past s' past) (ho : s'.Orderly) :
    s.GoesOn past event := by
  unfold GoesOn
  rw [hstep, hends, List.append_nil]
  exact ⟨hlives, ho⟩

/-- An event that cannot happen. -/
theorem GoesOn.of_idle {event : TaskStep κ β ρ} (ho : s.Orderly) (hstep : s.step event = s)
    (hends : s.endedBy event = []) : s.GoesOn past event :=
  .of_endless hstep hends (LivesOn.of_eq rfl (fun _ => rfl)) ho

/-- An idle worker takes a task. -/
theorem Sound.goesOn_pop (hs : s.Sound past) (worker : Nat) : s.GoesOn past (.pop worker) := by
  have ho := hs.orderly
  rcases hstage : s.workers[worker]? with _ | stage
  · exact .of_idle ho (by simp only [step, hstage]) rfl
  · rcases hpop : s.scheduler.pop with _ | ⟨t, scheduler⟩
    · exact .of_idle ho (by cases stage <;> simp only [step, hstage, hpop]) rfl
    · cases stage with
      | idle =>
          obtain ⟨-, -, hqueue, hdown, -, -⟩ := Scheduler.pop_eq_some hpop
          have hstep : s.step (.pop worker) = { s with
              scheduler := scheduler, workers := s.workers.set worker (.holding t.id) } := by
            simp only [step, hstage, hpop]
          refine .of_endless hstep rfl (hs.livesOn_pop hstage hpop) ?_
          refine ho.worker hstage (fun h => by cases h) hdown ?_ s.active
          intro _ hempty
          rw [hqueue, hempty]
          rfl
      | _ => exact .of_idle ho (by simp only [step, hstage]) rfl

/-- A worker starts the task that it has taken. -/
theorem Sound.goesOn_start (hs : s.Sound past) (worker : Nat) :
    s.GoesOn past (.start worker) := by
  have ho := hs.orderly
  rcases hstage : s.workers[worker]? with _ | stage
  · exact .of_idle ho (by simp only [step, hstage]) (by simp only [endedBy, hstage])
  · cases stage with
    | holding id =>
        obtain ⟨hqueue, hdown, -⟩ := s.scheduler.frame_start s.now id
        have hstep : s.step (.start worker) = s.start worker id := by simp only [step, hstage]
        unfold GoesOn
        rw [hstep]
        refine ⟨hs.livesOn_start hstage, ?_⟩
        exact ho.worker hstage (fun h => by cases h) hdown (fun _ h => hqueue.trans h) s.active
    | _ => exact .of_idle ho (by simp only [step, hstage]) (by simp only [endedBy, hstage])

/-- A task raises its progress. -/
theorem Sound.goesOn_raise (hs : s.Sound past) (worker : Nat) (fraction : Float) :
    s.GoesOn past (.raise worker fraction) := by
  have ho := hs.orderly
  rcases hstage : s.workers[worker]? with _ | stage
  · exact .of_idle ho (by simp only [step, hstage]) rfl
  · cases stage with
    | executing id =>
        have halike := s.scheduler.alike_raise id fraction
        have hstep : s.step (.raise worker fraction) =
            { s with scheduler := s.scheduler.raise id fraction } := by simp only [step, hstage]
        refine .of_endless hstep rfl (livesOn_alike halike) ⟨ho.cancelsDistinct,
          halike.isShutDown.trans ho.closing, ?_, ho.departed⟩
        intro hdown
        exact halike.queue.trans (ho.drained (halike.isShutDown.symm.trans hdown))
    | _ => exact .of_idle ho (by simp only [step, hstage]) rfl

/-- A task looks at its token. -/
theorem Sound.goesOn_poll (hs : s.Sound past) (worker : Nat) : s.GoesOn past (.poll worker) := by
  have ho := hs.orderly
  rcases hstage : s.workers[worker]? with _ | stage
  · exact .of_idle ho (by simp only [step, hstage]) rfl
  · cases stage with
    | executing id =>
        have hstep : s.step (.poll worker) = s.poll id := by simp only [step, hstage]
        exact .of_endless hstep rfl (livesOn_poll id) { ho with }
    | _ => exact .of_idle ho (by simp only [step, hstage]) rfl

/-- A task comes to its end. -/
theorem Sound.goesOn_finish (hs : s.Sound past) (worker : Nat) (result : TaskResult ρ) :
    s.GoesOn past (.finish worker result) := by
  have ho := hs.orderly
  rcases hstage : s.workers[worker]? with _ | stage
  · exact .of_idle ho (by simp only [step, hstage]) (by simp only [endedBy, hstage])
  · cases stage with
    | executing id =>
        obtain ⟨hqueue, hdown, -⟩ := s.scheduler.frame_finish id result
        have hstep : s.step (.finish worker result) = { s with
            scheduler := s.scheduler.finish id result
            workers := s.workers.set worker (.done id) } := by simp only [step, hstage]
        have hends : s.endedBy (.finish worker result) = [(id, result)] := by
          simp only [endedBy, hstage]
        unfold GoesOn
        rw [hstep, hends]
        refine ⟨hs.livesOn_finish hstage result, ?_⟩
        exact ho.worker hstage (fun h => by cases h) hdown (fun _ h => hqueue.trans h) s.active
    | _ => exact .of_idle ho (by simp only [step, hstage]) (by simp only [endedBy, hstage])

/-- A worker is through with its task. -/
theorem Sound.goesOn_retire (hs : s.Sound past) (worker : Nat) :
    s.GoesOn past (.retire worker) := by
  have ho := hs.orderly
  rcases hstage : s.workers[worker]? with _ | stage
  · exact .of_idle ho (by simp only [step, hstage]) rfl
  · cases stage with
    | done id =>
        have hstep : s.step (.retire worker) =
            { s.drop id with workers := s.workers.set worker .idle } := by
          simp only [step, hstage]
        refine .of_endless hstep rfl (livesOn_worker hstage (by simp) _) ?_
        exact ho.worker hstage (fun h => by cases h) rfl (fun _ h => h) _
    | _ => exact .of_idle ho (by simp only [step, hstage]) rfl

/-- A worker goes. -/
theorem Sound.goesOn_leave (hs : s.Sound past) (worker : Nat) :
    s.GoesOn past (.leave worker) := by
  have ho := hs.orderly
  rcases hstage : s.workers[worker]? with _ | stage
  · exact .of_idle ho (by simp only [step, hstage]) rfl
  · cases stage with
    | idle =>
        cases hdown : s.scheduler.isShutDown with
        | false => exact .of_idle ho (by simp only [step, hstage, hdown]) rfl
        | true =>
            have hstep : s.step (.leave worker) =
                { s with workers := s.workers.set worker .gone } := by
              simp only [step, hstage, hdown]
            refine .of_endless hstep rfl (livesOn_worker hstage (by simp) s.active) ?_
            exact ho.worker hstage (fun h => by cases h) rfl (fun _ h => h) s.active
    | _ => exact .of_idle ho (by simp only [step, hstage]) rfl

/-- Someone cancels a task, by its handle or by its number. -/
theorem Sound.goesOn_enter (hs : s.Sound past) (call id : Nat) :
    s.GoesOn past (.cancel call id) ∧ s.GoesOn past (.cancelActive call id) := by
  have henter : ∀ {event : TaskStep κ β ρ} (known : Bool),
      s.step event = (if known then s.enter call id else s) → s.endedBy event = [] →
        s.GoesOn past event := by
    intro event known hstep hends
    cases known with
    | true => exact .of_endless hstep hends (livesOn_enter call id) (hs.orderly.enter call id)
    | false => exact .of_idle hs.orderly hstep hends
  exact ⟨henter (s.scheduler.tasks.contains id) rfl rfl, henter (s.active.contains id) rfl rfl⟩

/-- A call that cancels a task goes on. -/
theorem Sound.goesOn_advance (hs : s.Sound past) (call : Nat) :
    s.GoesOn past (.advance call) := by
  rcases hcall : s.cancels.get? call with _ | stage
  · exact .of_idle hs.orderly (by simp only [step, hcall]) (by simp only [endedBy, hcall])
  · have hstep : s.step (.advance call) = s.advance call stage := by simp only [step, hcall]
    unfold GoesOn
    rw [hstep]
    exact ⟨hs.livesOn_advance hcall, hs.orderly.advance hcall⟩

/-- The scheduler is shut down. -/
theorem Sound.goesOn_shutDown (hs : s.Sound past) : s.GoesOn past .shutDown := by
  by_cases hdown : s.scheduler.isShutDown = true
  · exact .of_idle hs.orderly (if_pos hdown) rfl
  · have hstep : s.step .shutDown = { s with
        scheduler := s.scheduler.drain.2
        shutting := some (.ending s.scheduler.drain.1) } := if_neg hdown
    refine .of_endless hstep rfl (hs.livesOn_drain (Bool.not_eq_true _ ▸ hdown)) ?_
    exact ⟨hs.orderly.cancelsDistinct, rfl, fun _ => rfl, fun h => by cases h⟩

/-- The call that shuts the scheduler down goes on. -/
theorem Sound.goesOn_proceed (hs : s.Sound past) : s.GoesOn past .proceed := by
  rcases hstage : s.shutting with _ | stage
  · exact .of_idle hs.orderly (by simp only [step, hstage]) (by simp only [endedBy, hstage])
  · have hstep : s.step .proceed = s.proceed stage := by simp only [step, hstage]
    unfold GoesOn
    rw [hstep]
    exact ⟨hs.livesOn_proceed hstage, hs.orderly.proceed hstage⟩

/-- Only a submission accepts a task. -/
theorem Sound.goesOn (hs : s.Sound past) {event : TaskStep κ β ρ}
    (hevent : ∀ name key body tells, event ≠ .submit name key body tells) :
    s.GoesOn past event := by
  -- what is set for later tasks is not seen of those there are
  have hsettings : ∀ {event : TaskStep κ β ρ}, s.endedBy event = [] →
      (∀ id, (s.step event).standing past id = s.standing past id) →
      (s.step event).scheduler.nextId = s.scheduler.nextId → (s.step event).Orderly →
      s.GoesOn past event :=
    fun hends hsame hnext ho => .of_endless rfl hends (LivesOn.of_eq hnext hsame) ho
  have ho := hs.orderly
  cases event with
  | elapse ms => exact hsettings rfl (fun _ => rfl) rfl { ho with }
  | limit timeout => exact hsettings rfl (fun _ => rfl) rfl { ho with }
  | listen => exact hsettings rfl (fun _ => rfl) rfl { ho with }
  | submit name key body tells => exact absurd rfl (hevent name key body tells)
  | pop worker => exact hs.goesOn_pop worker
  | start worker => exact hs.goesOn_start worker
  | raise worker fraction => exact hs.goesOn_raise worker fraction
  | poll worker => exact hs.goesOn_poll worker
  | finish worker result => exact hs.goesOn_finish worker result
  | retire worker => exact hs.goesOn_retire worker
  | leave worker => exact hs.goesOn_leave worker
  | cancel call id => exact (hs.goesOn_enter call id).1
  | cancelActive call id => exact (hs.goesOn_enter call id).2
  | advance call => exact hs.goesOn_advance call
  | shutDown => exact hs.goesOn_shutDown
  | proceed => exact hs.goesOn_proceed

/-- Every event keeps a system in order and takes every task on with its life. -/
theorem Sound.step_lives (hs : s.Sound past) (event : TaskStep κ β ρ) :
    (s.step event).Sound (past ++ s.endedBy event) ∧
      ∀ id (life : TaskLife ρ), s.standing past id = life.standing →
        ∃ life' : TaskLife ρ,
          (s.step event).standing (past ++ s.endedBy event) id = life'.standing ∧
            life.Next life' := by
  by_cases hsubmit : ∃ name key body tells, event = .submit name key body tells
  · obtain ⟨name, key, body, tells, rfl⟩ := hsubmit
    show (s.submit name key body tells).Sound (past ++ []) ∧ _
    rw [show s.endedBy (.submit name key body tells) = [] from rfl, List.append_nil]
    -- the number of a task that is accepted stood for none before
    rcases hs.submit_cases name key body tells with ⟨-, heq⟩ | ⟨-, ho, hnext, hnew, hothers⟩
    · rw [show s.step (.submit name key body tells) = s from heq, heq]
      exact ⟨hs, fun id life hlife => ⟨life, hlife, .stay life⟩⟩
    · refine ⟨⟨ho, ?_, ?_⟩, ?_⟩
      · intro id
        by_cases hid : id = s.scheduler.nextId
        · rw [hid]
          exact Or.inr ⟨_, hnew⟩
        · rw [hothers id hid]
          exact hs.lives id
      · intro id hid
        rw [hnext] at hid
        rw [hothers id (by omega)]
        exact hs.newer id (by omega)
      · intro id life hlife
        refine ⟨life, ?_, .stay life⟩
        refine (hothers id ?_).trans hlife
        rintro rfl
        rw [hs.newer _ (Nat.le_refl _)] at hlife
        exact life.view_standing (congrArg (·.sight.view) hlife).symm
  · have hgoes : s.GoesOn past event := by
      refine hs.goesOn ?_
      intro name key body tells heq
      exact hsubmit ⟨name, key, body, tells, heq⟩
    exact ⟨hs.of_livesOn hgoes.1 hgoes.2, hgoes.1.goesOn⟩

/-- Numbers of tasks are not given again. -/
theorem Sound.nextId_le_step (hs : s.Sound past) (event : TaskStep κ β ρ) :
    s.scheduler.nextId ≤ (s.step event).scheduler.nextId := by
  by_cases hsubmit : ∃ name key body tells, event = .submit name key body tells
  · obtain ⟨name, key, body, tells, rfl⟩ := hsubmit
    show _ ≤ (s.submit name key body tells).scheduler.nextId
    rcases hs.submit_cases name key body tells with ⟨-, heq⟩ | ⟨-, -, hnext, -, -⟩
    · exact Nat.le_of_eq (congrArg (·.scheduler.nextId) heq).symm
    · omega
  · refine Nat.le_of_eq (hs.goesOn ?_).1.nextId.symm
    intro name key body tells heq
    exact hsubmit ⟨name, key, body, tells, heq⟩

theorem Sound.step (hs : s.Sound past) (event : TaskStep κ β ρ) :
    (s.step event).Sound (past ++ s.endedBy event) := (hs.step_lives event).1

/-- A run from a system that is in order ends in one. -/
theorem Sound.run (hs : s.Sound past) (events : List (TaskStep κ β ρ)) :
    (s.run events).Sound (past ++ s.ended events) := by
  induction events generalizing s past with
  | nil =>
      rw [ended, List.append_nil]
      exact hs
  | cons event rest ih =>
      rw [ended, ← List.append_assoc]
      exact ih (hs.step event)

/-- A system in which nothing has happened. -/
theorem sound_ofWorkers (order : κ → κ → Ordering) (workers : Nat) :
    (ofWorkers order workers : TaskSystem κ β ρ).Sound [] := by
  have hstanding : ∀ id, (ofWorkers order workers : TaskSystem κ β ρ).standing [] id = .unknown := by
    intro id
    refine standing_eq rfl ?_ rfl ?_ rfl
    · show 0 + (List.replicate workers WorkerStage.idle).count (.holding id) = 0
      rw [List.count_replicate, if_neg (by simp)]
    · show (List.replicate workers WorkerStage.idle).count (.executing id) = 0
      rw [List.count_replicate, if_neg (by simp)]
  exact ⟨⟨List.nodup_nil, rfl, fun _ => rfl, fun h => (by cases h)⟩,
    fun id => Or.inl (hstanding id), fun id _ => hstanding id⟩

/-- Every run of a system that begins with idle workers ends in one that is in order. -/
theorem sound_run (order : κ → κ → Ordering) (workers : Nat) (events : List (TaskStep κ β ρ)) :
    ((ofWorkers order workers : TaskSystem κ β ρ).run events).Sound
      ((ofWorkers order workers : TaskSystem κ β ρ).ended events) :=
  (sound_ofWorkers order workers).run events

end Linkage.TaskSystem

import Linkage.Proofs.Task.Changes

/-!
# What takes tasks on

Each step is about one task at most, but for the call that shuts the scheduler down and removes all
that wait at once.

* **`livesOn_of_worker`** — a worker takes its task on, with **`Sound.livesOn_start`** and
  **`Sound.livesOn_finish`**;
* **`Sound.livesOn_withdraw`**, **`Sound.livesOn_drain`**, **`Sound.livesOn_abort`** — tasks are taken
  out of the queue by those who abort them;
* **`Sound.livesOn_advance`**, **`Sound.livesOn_proceed`** — calls that go on.
-/

namespace Linkage.TaskSystem

variable {κ β ρ : Type} {s s' : TaskSystem κ β ρ} {past past' : List (Nat × TaskResult ρ)}

/-! ## Events that move tasks on -/

/-- A worker takes a task, which is queued before and after. -/
theorem Sound.livesOn_pop (hs : s.Sound past) {worker : Nat} {t : QueuedTask κ β}
    {scheduler : Scheduler κ β ρ} (hidle : s.workers[worker]? = some .idle)
    (hpop : s.scheduler.pop = some (t, scheduler)) :
    s.LivesOn past
      { s with scheduler := scheduler, workers := s.workers.set worker (.holding t.id) } past := by
  obtain ⟨-, hmem, hqueue, -, hnext, hsight⟩ := Scheduler.pop_eq_some hpop
  have hfirst : 0 < s.scheduler.queue.countP (·.id == t.id) :=
    List.countP_pos_iff.mpr ⟨t, hmem, by simp⟩
  have hpos : 0 < s.queued t.id := Nat.lt_of_lt_of_le hfirst (Nat.le_add_right _ _)
  obtain ⟨tells, cancelled, hlife⟩ := hs.life_of_queued hpos
  have hone : s.queued t.id = 1 := congrArg (·.queued) hlife
  refine LivesOn.of_eq hnext ?_
  intro id
  have hholding := count_set hidle (.holding t.id) (.holding id)
  have hexecuting := count_set hidle (.holding t.id) (.executing id)
  simp only [reduceCtorEq, if_false, WorkerStage.holding.injEq, Nat.add_zero] at hholding hexecuting
  refine standing_eq (hsight id) ?_ rfl hexecuting rfl
  show scheduler.queue.countP _ + (s.workers.set worker _).count _ = s.queued id
  rw [hqueue, countP_filter_ids]
  by_cases hid : id = t.id
  · subst hid
    rw [if_pos rfl] at hholding ⊢
    unfold queued at hone ⊢
    omega
  · rw [if_neg (Ne.symm hid)] at hholding
    rw [if_neg hid]
    unfold queued
    omega

/-- A worker that has a task goes from one stage to another, and the task on with its life. -/
theorem livesOn_of_worker {worker id : Nat} {old new : WorkerStage} {life life' : TaskLife ρ}
    {scheduler : Scheduler κ β ρ} (hold : s.workers[worker]? = some old)
    (hlife : s.standing past id = life.standing) (hgoes : life.Next life')
    (hqueue : scheduler.queue = s.scheduler.queue) (hnext : scheduler.nextId = s.scheduler.nextId)
    (hsight : scheduler.sight id = life'.standing.sight)
    (hends : endsOf past' id = life'.standing.ends)
    (hremoved : life.standing.removed = life'.standing.removed)
    (hholding : life'.standing.queued + (if old = .holding id then 1 else 0) =
      life.standing.queued + (if new = .holding id then 1 else 0))
    (hexecuting : life'.standing.executing + (if old = .executing id then 1 else 0) =
      life.standing.executing + (if new = .executing id then 1 else 0))
    (hothers : ∀ other, other ≠ id →
      scheduler.sight other = s.scheduler.sight other ∧ endsOf past' other = endsOf past other ∧
        (old = .holding other ↔ new = .holding other) ∧
        (old = .executing other ↔ new = .executing other)) :
    s.LivesOn past { s with scheduler := scheduler, workers := s.workers.set worker new } past' := by
  -- the queue is as before, so a task is counted elsewhere only as far as the worker moves
  have hcount : ∀ other, TaskSystem.queued
      { s with scheduler := scheduler, workers := s.workers.set worker new } other +
        (if old = .holding other then 1 else 0) =
      s.queued other + (if new = .holding other then 1 else 0) := by
    intro other
    have hset := count_set hold new (.holding other)
    show scheduler.queue.countP _ + (s.workers.set worker new).count _ + _ =
      s.scheduler.queue.countP _ + s.workers.count _ + _
    rw [hqueue]
    omega
  have hqueued : s.queued id = life.standing.queued := congrArg (·.queued) hlife
  have hruns : s.executing id = life.standing.executing := congrArg (·.executing) hlife
  refine LivesOn.of_life hlife ?_ hgoes hnext ?_
  · have hcount := hcount id
    have hset := count_set hold new (.executing id)
    refine standing_eq hsight ?_ ((congrArg (·.removed) hlife).trans hremoved) ?_ hends
    · omega
    · show (s.workers.set worker new).count (.executing id) = _
      unfold executing at hruns
      omega
  · intro other hother
    obtain ⟨hsame, hsameEnds, hholds, hexecutes⟩ := hothers other hother
    have hcount := hcount other
    have hset := count_set hold new (.executing other)
    simp only [hholds, Nat.add_right_cancel_iff] at hcount
    simp only [hexecutes, Nat.add_right_cancel_iff] at hset
    exact standing_eq hsame hcount rfl hset hsameEnds

theorem Sound.livesOn_start (hs : s.Sound past) {worker id : Nat}
    (hold : s.workers[worker]? = some (.holding id)) :
    s.LivesOn past (s.start worker id) (past ++ s.endedBy (.start worker)) := by
  obtain ⟨tells, cancelled, hlife⟩ := hs.life_of_queued (queued_of_holding hold)
  have hsight : s.scheduler.sight id = ⟨some ⟨.queued, none, cancelled, tells⟩, 0, []⟩ :=
    congrArg (·.sight) hlife
  have hends : endsOf past id = [] := congrArg (·.ends) hlife
  obtain ⟨hqueue, -, hnext⟩ := s.scheduler.frame_start s.now id
  simp only [TaskSystem.start, endedBy, hold]
  cases hrefusal : s.scheduler.refusal? s.now id with
  | some e =>
      -- the token was cancelled while the worker held the task
      obtain ⟨hstarted, -, hafter⟩ := Scheduler.start_refused hrefusal
      simp only [hstarted]
      refine livesOn_of_worker hold hlife (.refused tells cancelled e) hqueue hnext ?_ ?_ rfl ?_ ?_ ?_
      · rw [hafter, if_pos rfl, hsight]
        cases tells <;> rfl
      · rw [endsOf_concat, hends, if_pos rfl]
        rfl
      · simp [TaskLife.standing]
      · simp [TaskLife.standing]
      · intro other hother
        rw [hafter, if_neg hother, endsOf_concat, if_neg hother, List.append_nil]
        simp [Ne.symm hother]
  | none =>
      obtain ⟨hopen, hstarted, hafter⟩ :=
        Scheduler.start_begun hrefusal (congrArg (·.view) hsight)
      have hopen : cancelled = false := hopen
      subst hopen
      simp only [hstarted, List.append_nil]
      refine livesOn_of_worker hold hlife (.started tells) hqueue hnext ?_ hends rfl ?_ ?_ ?_
      · rw [hafter, if_pos rfl, hsight]
        rfl
      · simp [TaskLife.standing]
      · simp [TaskLife.standing]
      · intro other hother
        rw [hafter, if_neg hother]
        simp [Ne.symm hother]

theorem Sound.livesOn_finish (hs : s.Sound past) {worker id : Nat}
    (hold : s.workers[worker]? = some (.executing id)) (result : TaskResult ρ) :
    s.LivesOn past
      { s with
        scheduler := s.scheduler.finish id result
        workers := s.workers.set worker (.done id) } (past ++ [(id, result)]) := by
  obtain ⟨tells, cancelled, hlife⟩ := hs.life_of_executing (executing_of_worker hold)
  have hsight : s.scheduler.sight id = ⟨some ⟨.running, none, cancelled, tells⟩, 1, []⟩ :=
    congrArg (·.sight) hlife
  have hends : endsOf past id = [] := congrArg (·.ends) hlife
  have hafter := s.scheduler.sight_finish id result
  obtain ⟨hqueue, -, hnext⟩ := s.scheduler.frame_finish id result
  refine livesOn_of_worker hold hlife (.finished tells cancelled result) hqueue hnext ?_ ?_ rfl
    ?_ ?_ ?_
  · rw [hafter, if_pos rfl, hsight]
    cases tells <;> rfl
  · rw [endsOf_concat, hends, if_pos rfl]
    rfl
  · simp [TaskLife.standing]
  · simp [TaskLife.standing]
  · intro other hother
    rw [hafter, if_neg hother, endsOf_concat, if_neg hother, List.append_nil]
    simp [Ne.symm hother]

/-- A call that cancels a task takes it out of the queue. -/
theorem Sound.livesOn_withdraw (hs : s.Sound past) {call id : Nat}
    (hcall : s.cancels.get? call = some (.flipped id))
    (hthere : s.scheduler.queue.any (·.id == id) = true) :
    s.LivesOn past
      { s with
        scheduler := (s.scheduler.withdraw id).2
        cancels := s.cancels.put call (.withdrawn id) } past := by
  obtain ⟨t, hmem, hid⟩ := List.any_eq_true.mp hthere
  have hfirst : 0 < s.scheduler.queue.countP (·.id == id) := List.countP_pos_iff.mpr ⟨t, hmem, hid⟩
  have hpos : 0 < s.queued id := Nat.lt_of_lt_of_le hfirst (Nat.le_add_right _ _)
  obtain ⟨tells, cancelled, hlife⟩ := hs.life_of_queued hpos
  have hone : s.queued id = 1 := congrArg (·.queued) hlife
  have hnone : s.removed id = 0 := congrArg (·.removed) hlife
  -- the task is counted with the call from now on, and the filter leaves it out of the queue
  have hcount : ∀ other, (s.cancels.put call (.withdrawn id)).values.countP
      (·.withdrawn? == some other) =
        s.cancels.values.countP (·.withdrawn? == some other) + if other = id then 1 else 0 := by
    intro other
    have hreplace := countP_replace hs.orderly hcall (.withdrawn id) other
    have hflipped : ((CancelStage.flipped id).withdrawn? == some other) = false := rfl
    have hwithdrawn : ((CancelStage.withdrawn id).withdrawn? == some other) =
        decide (other = id) := some_beq_some id other
    rw [hflipped, hwithdrawn] at hreplace
    simpa using hreplace
  have hqueue := countP_filter_ids s.scheduler.queue id
  refine LivesOn.of_life hlife ?_ (.removed tells cancelled) rfl ?_
  · refine standing_eq (congrArg (·.sight) hlife) ?_ ?_ (congrArg (·.executing) hlife)
      (congrArg (·.ends) hlife)
    · show (s.scheduler.queue.filter (·.id ≠ id)).countP _ + s.workers.count _ = 0
      rw [hqueue, if_pos rfl]
      unfold queued at hone
      omega
    · show (s.cancels.put call _).values.countP _ + s.shutWaiting.count id = 1
      rw [hcount, if_pos rfl]
      unfold removed at hnone
      omega
  · intro other hother
    refine standing_eq rfl ?_ ?_ rfl rfl
    · show (s.scheduler.queue.filter (·.id ≠ id)).countP _ + s.workers.count _ = s.queued other
      rw [hqueue, if_neg hother]
      rfl
    · show (s.cancels.put call _).values.countP _ + s.shutWaiting.count other = s.removed other
      rw [hcount, if_neg hother]
      rfl

/-- A call aborts a task that it has taken out of the queue. -/
theorem Sound.livesOn_abort (hs : s.Sound past) {id : Nat} (e : TaskError)
    (hpos : 0 < s.removed id) (hscheduler : s'.scheduler = s.scheduler.finish id (.error e))
    (hworkers : s'.workers = s.workers)
    (hremoved : ∀ other, s'.removed other + (if other = id then 1 else 0) = s.removed other) :
    s.LivesOn past s' (past ++ [(id, .error e)]) := by
  obtain ⟨tells, cancelled, hlife⟩ := hs.life_of_removed hpos
  have hsight : s.scheduler.sight id = ⟨some ⟨.queued, none, cancelled, tells⟩, 0, []⟩ :=
    congrArg (·.sight) hlife
  have hends : endsOf past id = [] := congrArg (·.ends) hlife
  have hone : s.removed id = 1 := congrArg (·.removed) hlife
  have hafter := s.scheduler.sight_finish id (.error e)
  obtain ⟨hqueue, -, hnext⟩ := s.scheduler.frame_finish id (.error e)
  rw [← hscheduler] at hafter hqueue hnext
  have hqueued : ∀ other, s'.queued other = s.queued other := by
    intro other
    unfold queued
    rw [hqueue, hworkers]
  have hexecuting : ∀ other, s'.executing other = s.executing other := by
    intro other
    unfold executing
    rw [hworkers]
  refine LivesOn.of_life hlife ?_ (.aborted tells cancelled e) hnext ?_
  · refine standing_eq ?_ ((hqueued id).trans (congrArg (·.queued) hlife)) ?_
      ((hexecuting id).trans (congrArg (·.executing) hlife)) ?_
    · rw [hafter, if_pos rfl, hsight]
      cases tells <;> rfl
    · have hremoved := hremoved id
      rw [if_pos rfl] at hremoved
      show s'.removed id = 0
      omega
    · rw [endsOf_concat, hends, if_pos rfl]
      rfl
  · intro other hother
    have hremoved := hremoved other
    rw [if_neg hother] at hremoved
    refine standing_eq ?_ (hqueued other) hremoved (hexecuting other) ?_
    · rw [hafter, if_neg hother]
      rfl
    · rw [endsOf_concat, if_neg hother, List.append_nil]
      rfl

/-- The call that shuts the scheduler down removes all that wait. -/
theorem Sound.livesOn_drain (hs : s.Sound past) (hopen : s.scheduler.isShutDown = false) :
    s.LivesOn past
      { s with
        scheduler := s.scheduler.drain.2
        shutting := some (.ending s.scheduler.drain.1) } past := by
  have hshutting : s.shutting = none := by
    have hclosing := hs.orderly.closing
    rw [hopen] at hclosing
    exact Option.not_isSome_iff_eq_none.mp (by rw [← hclosing]; exact Bool.false_ne_true)
  have hwaiting : s.shutWaiting = [] := by
    unfold shutWaiting
    rw [hshutting]
    rfl
  have hcount : ∀ id, (s.scheduler.queue.map (·.id)).count id =
      s.scheduler.queue.countP (·.id == id) := by
    intro id
    rw [List.count_eq_countP, List.countP_map]
    rfl
  -- tasks that are not in the queue stay where they are
  have hothers : ∀ id, s.scheduler.queue.countP (·.id == id) = 0 → TaskSystem.standing
      { s with
        scheduler := s.scheduler.drain.2
        shutting := some (.ending s.scheduler.drain.1) } past id = s.standing past id := by
    intro id hnone
    refine standing_eq rfl ?_ ?_ rfl rfl
    · show 0 + s.workers.count _ = s.scheduler.queue.countP _ + s.workers.count _
      rw [hnone]
    · show s.cancels.values.countP _ + (s.scheduler.queue.map (·.id)).count id =
        s.cancels.values.countP _ + s.shutWaiting.count id
      rw [hcount, hnone, hwaiting]
      rfl
  refine ⟨rfl, ?_, ?_⟩
  · intro id hunknown
    have hzero : s.queued id = 0 := congrArg (·.queued) hunknown
    have hnone : s.scheduler.queue.countP (·.id == id) = 0 :=
      Nat.eq_zero_of_le_zero (hzero ▸ Nat.le_add_right _ _)
    exact (hothers id hnone).trans hunknown
  · intro id life hlife
    by_cases hnone : s.scheduler.queue.countP (·.id == id) = 0
    · exact ⟨life, (hothers id hnone).trans hlife, .stay life⟩
    · -- a task in the queue is there once, and with nobody else
      have hpos : 0 < s.queued id :=
        Nat.lt_of_lt_of_le (Nat.pos_of_ne_zero hnone) (Nat.le_add_right _ _)
      obtain ⟨tells, cancelled, hqueued⟩ := hs.life_of_queued hpos
      have hsame := TaskLife.standing_injective (hlife.symm.trans hqueued)
      subst hsame
      have hone : s.queued id = 1 := congrArg (·.queued) hlife
      have hzero : s.removed id = 0 := congrArg (·.removed) hlife
      unfold queued at hone
      unfold removed at hzero
      refine ⟨⟨.removed, tells, cancelled⟩, ?_, .removed tells cancelled⟩
      refine standing_eq (congrArg (·.sight) hlife) ?_ ?_ (congrArg (·.executing) hlife)
        (congrArg (·.ends) hlife)
      · show 0 + s.workers.count _ = 0
        omega
      · show s.cancels.values.countP _ + (s.scheduler.queue.map (·.id)).count id = 1
        rw [hcount]
        omega

/-! ## Calls that go on -/

/-- A call that has cancelled a token takes the task out of the queue, or has nothing left to do. -/
theorem advance_flipped (s : TaskSystem κ β ρ) (call id : Nat) :
    (s.scheduler.queue.any (·.id == id) = true ∧
      s.advance call (.flipped id) =
        { s with
          scheduler := (s.scheduler.withdraw id).2
          cancels := s.cancels.put call (.withdrawn id) }) ∨
    s.advance call (.flipped id) = { s with cancels := s.cancels.erase call } := by
  by_cases hthere : s.scheduler.queue.any (·.id == id) = true
  · refine Or.inl ⟨hthere, ?_⟩
    simp only [advance, Scheduler.withdraw, hthere]
  · refine Or.inr ?_
    simp only [advance, Scheduler.withdraw, Bool.not_eq_true _ ▸ hthere]

theorem Sound.livesOn_advance (hs : s.Sound past) {call : Nat} {stage : CancelStage}
    (hcall : s.cancels.get? call = some stage) :
    s.LivesOn past (s.advance call stage) (past ++ s.endedBy (.advance call)) := by
  have ho := hs.orderly
  simp only [endedBy, hcall]
  cases stage with
  | called id =>
      rw [List.append_nil]
      refine livesOn_flip id rfl rfl ?_
      intro id'
      have hcount := countP_replace ho hcall (.flipped id) id'
      show (s.cancels.put call _).values.countP _ + s.shutWaiting.count id' = s.removed id'
      rw [Nat.add_right_cancel hcount]
      rfl
  | flipped id =>
      rw [List.append_nil]
      rcases s.advance_flipped call id with ⟨hthere, heq⟩ | heq
      · rw [heq]
        exact hs.livesOn_withdraw hcall hthere
      · rw [heq]
        exact livesOn_endCall ho hcall rfl
  | withdrawn id =>
      rw [List.append_nil]
      have hdropped : (CancelStage.dropped id).withdrawn? = (CancelStage.withdrawn id).withdrawn? :=
        rfl
      exact livesOn_cancel ho hcall hdropped _
  | dropped id =>
      refine hs.livesOn_abort (.cancelled Scheduler.byRequest) ?_ rfl rfl ?_
      · have hpos : 0 < s.cancels.values.countP (·.withdrawn? == some id) :=
          Table.countP_values_pos hcall (by simp [CancelStage.withdrawn?])
        exact Nat.lt_of_lt_of_le hpos (Nat.le_add_right _ _)
      · intro other
        have herase := Table.countP_values_erase ho.cancelsDistinct hcall
          (·.withdrawn? == some other)
        have hdropped : ((CancelStage.dropped id).withdrawn? == some other) =
            decide (other = id) := some_beq_some id other
        rw [hdropped] at herase
        show (s.cancels.erase call).values.countP _ + s.shutWaiting.count other + _ =
          s.cancels.values.countP _ + s.shutWaiting.count other
        simp only [decide_eq_true_eq] at herase
        omega

theorem Sound.livesOn_proceed (hs : s.Sound past) {stage : ShutDownStage}
    (hstage : s.shutting = some stage) :
    s.LivesOn past (s.proceed stage) (past ++ s.endedBy .proceed) := by
  have hwaiting : s.shutWaiting = stage.waiting := by
    unfold shutWaiting
    rw [hstage]
    rfl
  -- the call moves on with the tasks that it has
  have hquiet : ∀ {new : ShutDownStage} (active : List Nat), new.waiting = stage.waiting →
      s.LivesOn past { s with active := active, shutting := some new } past := by
    intro new active hsame
    exact livesOn_quiet rfl (fun _ => rfl) rfl (fun _ => rfl) (fun _ => rfl) (fun _ => rfl)
      (hsame.trans hwaiting.symm)
  simp only [endedBy, hstage]
  cases stage with
  | ending waiting =>
      rw [List.append_nil]
      cases waiting with
      | nil => exact hquiet _ rfl
      | cons id waiting => exact hquiet _ rfl
  | dropped id waiting =>
      have hremoved : ∀ other, s.removed other = s.cancels.values.countP (·.withdrawn? == some other) +
          (waiting.count other + if other = id then 1 else 0) := by
        intro other
        unfold removed
        rw [hwaiting]
        show _ + (id :: waiting).count other = _
        rw [List.count_cons]
        by_cases hother : other = id
        · simp [hother]
        · simp [hother, Ne.symm hother]
      refine hs.livesOn_abort .schedulerShutDown ?_ rfl rfl ?_
      · rw [hremoved, if_pos rfl]
        omega
      · intro other
        rw [hremoved]
        show s.cancels.values.countP _ + waiting.count other + _ = _
        omega
  | telling active =>
      rw [List.append_nil]
      cases active with
      | nil => exact hquiet _ rfl
      | cons id active =>
          refine livesOn_flip id rfl rfl ?_
          intro id'
          show s.cancels.values.countP _ + 0 = s.removed id'
          unfold removed
          rw [hwaiting]
          rfl
  | joining =>
      rw [List.append_nil]
      show s.LivesOn past
        (if s.workers.all (· == .gone) then { s with shutting := some .returned } else s) past
      split
      · exact hquiet s.active rfl
      · exact LivesOn.of_eq rfl (fun _ => rfl)
  | returned =>
      rw [List.append_nil]
      exact LivesOn.of_eq rfl (fun _ => rfl)

end Linkage.TaskSystem

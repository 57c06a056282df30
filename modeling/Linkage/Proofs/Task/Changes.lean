import Linkage.Proofs.Task.Lives

/-!
# What takes no task on

A task is counted in one place only, so that whoever has it knows that nobody else can end or start it. Most
of what workers, callers and tokens do leaves every task in its place.

* **`Sound.life_of_queued`**, **`Sound.life_of_removed`**, **`Sound.life_of_executing`** — the life of a task
  by the place in which it is counted;
* **`livesOn_quiet`** — workers and calls that move with the same tasks in their hands;
* **`livesOn_token`** — tokens that are cancelled.
-/

namespace Linkage.TaskSystem

variable {κ β ρ : Type} {s s' : TaskSystem κ β ρ} {past past' : List (Nat × TaskResult ρ)}

/-! ## Counting places -/

/-- A worker that is counted for another stage. -/
theorem count_set {workers : List WorkerStage} {worker : Nat} {old : WorkerStage}
    (h : workers[worker]? = some old) (new stage : WorkerStage) :
    (workers.set worker new).count stage + (if old = stage then 1 else 0) =
      workers.count stage + (if new = stage then 1 else 0) := by
  obtain ⟨hlt, hget⟩ := List.getElem?_eq_some_iff.mp h
  have hle := List.boole_getElem_le_count (a := stage) hlt
  rw [List.count_set hlt]
  simp only [hget, beq_iff_eq] at hle ⊢
  omega

/-- A task compared with another. -/
theorem some_beq_some (id other : Nat) : (some id == some other) = decide (other = id) := by
  by_cases hid : other = id
  · simp [hid]
  · simp [hid, Ne.symm hid]

/-- A call that is counted for another stage. -/
theorem countP_replace (ho : s.Orderly) {call : Nat} {old : CancelStage}
    (hold : s.cancels.get? call = some old) (new : CancelStage) (id : Nat) :
    (s.cancels.put call new).values.countP (·.withdrawn? == some id) +
        (if old.withdrawn? == some id then 1 else 0) =
      s.cancels.values.countP (·.withdrawn? == some id) +
        (if new.withdrawn? == some id then 1 else 0) :=
  Table.countP_values_replace ho.cancelsDistinct hold new (·.withdrawn? == some id)

/-- A task that is taken out of a queue. -/
theorem countP_filter_ids (queue : List (QueuedTask κ β)) (id other : Nat) :
    (queue.filter (·.id ≠ id)).countP (·.id == other) =
      if other = id then 0 else queue.countP (·.id == other) := by
  rw [List.countP_filter]
  by_cases hother : other = id
  · rw [if_pos hother, List.countP_eq_zero]
    intro t _
    simp [hother]
  · rw [if_neg hother]
    refine List.countP_congr ?_
    intro t _
    constructor
    · intro h
      exact (Bool.and_eq_true _ _ ▸ h).1
    · intro h
      have hid : t.id = other := by simpa using h
      simp [hid, hother]

/-- What there is to compare of two standings. -/
theorem standing_eq {id : Nat} {x : Standing ρ} (hsight : s.scheduler.sight id = x.sight)
    (hqueued : s.queued id = x.queued) (hremoved : s.removed id = x.removed)
    (hexecuting : s.executing id = x.executing) (hends : endsOf past id = x.ends) :
    s.standing past id = x := by
  unfold standing
  rw [hsight, hqueued, hremoved, hexecuting, hends]

namespace Sound

/-- A task that is counted somewhere has a life. -/
theorem exists_life (hs : s.Sound past) {id : Nat} (count : Standing ρ → Nat)
    (hunknown : count .unknown = 0) (h : 0 < count (s.standing past id)) :
    ∃ life : TaskLife ρ, s.standing past id = life.standing ∧ 0 < count life.standing := by
  rcases hs.lives id with hnone | ⟨life, hlife⟩
  · rw [hnone] at h
    omega
  · exact ⟨life, hlife, hlife ▸ h⟩

/-- A task in the queue or with a worker that has not started it is at the beginning of its life. -/
theorem life_of_queued (hs : s.Sound past) {id : Nat} (h : 0 < s.queued id) :
    ∃ tells cancelled,
      s.standing past id = (⟨.queued, tells, cancelled⟩ : TaskLife ρ).standing := by
  obtain ⟨life, hlife, hpos⟩ := hs.exists_life (·.queued) rfl h
  obtain ⟨tells, cancelled, rfl⟩ := TaskLife.eq_queued hpos
  exact ⟨tells, cancelled, hlife⟩

theorem life_of_removed (hs : s.Sound past) {id : Nat} (h : 0 < s.removed id) :
    ∃ tells cancelled,
      s.standing past id = (⟨.removed, tells, cancelled⟩ : TaskLife ρ).standing := by
  obtain ⟨life, hlife, hpos⟩ := hs.exists_life (·.removed) rfl h
  obtain ⟨tells, cancelled, rfl⟩ := TaskLife.eq_removed hpos
  exact ⟨tells, cancelled, hlife⟩

theorem life_of_executing (hs : s.Sound past) {id : Nat} (h : 0 < s.executing id) :
    ∃ tells cancelled,
      s.standing past id = (⟨.executing, tells, cancelled⟩ : TaskLife ρ).standing := by
  obtain ⟨life, hlife, hpos⟩ := hs.exists_life (·.executing) rfl h
  obtain ⟨tells, cancelled, rfl⟩ := TaskLife.eq_executing hpos
  exact ⟨tells, cancelled, hlife⟩

end Sound

/-- A worker that holds a task is counted. -/
theorem queued_of_holding {worker id : Nat} (h : s.workers[worker]? = some (.holding id)) :
    0 < s.queued id := by
  have hpos : 0 < s.workers.count (.holding id) :=
    List.count_pos_iff.mpr (List.mem_of_getElem? h)
  unfold queued
  omega

theorem executing_of_worker {worker id : Nat} (h : s.workers[worker]? = some (.executing id)) :
    0 < s.executing id :=
  List.count_pos_iff.mpr (List.mem_of_getElem? h)

/-! ## Events that move no task on -/

/-- Workers and calls move between stages in which they have the same tasks. -/
theorem livesOn_quiet (hnext : s'.scheduler.nextId = s.scheduler.nextId)
    (hsight : ∀ id, s'.scheduler.sight id = s.scheduler.sight id)
    (hqueue : s'.scheduler.queue = s.scheduler.queue)
    (hholding : ∀ id, s'.workers.count (.holding id) = s.workers.count (.holding id))
    (hexecuting : ∀ id, s'.workers.count (.executing id) = s.workers.count (.executing id))
    (hcancels : ∀ id, s'.cancels.values.countP (·.withdrawn? == some id) =
      s.cancels.values.countP (·.withdrawn? == some id))
    (hwaiting : s'.shutWaiting = s.shutWaiting) :
    s.LivesOn past s' past := by
  refine LivesOn.of_eq hnext ?_
  intro id
  refine standing_eq (hsight id) ?_ ?_ (hexecuting id) rfl
  · show s'.scheduler.queue.countP _ + s'.workers.count _ = s.queued id
    rw [hqueue, hholding]
    rfl
  · show s'.cancels.values.countP _ + s'.shutWaiting.count id = s.removed id
    rw [hcancels, hwaiting]
    rfl

/-- Only the scheduler changes, in what is not seen. -/
theorem livesOn_alike {scheduler : Scheduler κ β ρ} (h : s.scheduler.Alike scheduler) :
    s.LivesOn past { s with scheduler := scheduler } past :=
  livesOn_quiet h.nextId h.sight h.queue (fun _ => rfl) (fun _ => rfl) (fun _ => rfl) rfl

/-- A worker without a task moves to a stage in which it has none. -/
theorem livesOn_worker {worker : Nat} {old new : WorkerStage} (hold : s.workers[worker]? = some old)
    (hidle : ∀ id, old ≠ .holding id ∧ old ≠ .executing id ∧ new ≠ .holding id ∧
      new ≠ .executing id) (active : List Nat) :
    s.LivesOn past { s with workers := s.workers.set worker new, active := active } past := by
  refine livesOn_quiet rfl (fun _ => rfl) rfl ?_ ?_ (fun _ => rfl) rfl
  · intro id
    obtain ⟨hold', -, hnew, -⟩ := hidle id
    have hcount := count_set hold new (.holding id)
    rw [if_neg hold', if_neg hnew] at hcount
    exact hcount
  · intro id
    obtain ⟨-, hold', -, hnew⟩ := hidle id
    have hcount := count_set hold new (.executing id)
    rw [if_neg hold', if_neg hnew] at hcount
    exact hcount

/-- A call moves to a stage in which it has the same tasks to abort. -/
theorem livesOn_cancel (ho : s.Orderly) {call : Nat} {old new : CancelStage}
    (hold : s.cancels.get? call = some old) (hsame : new.withdrawn? = old.withdrawn?)
    (active : List Nat) :
    s.LivesOn past { s with cancels := s.cancels.put call new, active := active } past := by
  refine livesOn_quiet rfl (fun _ => rfl) rfl (fun _ => rfl) (fun _ => rfl) ?_ rfl
  intro id
  have hcount := countP_replace ho hold new id
  rw [hsame] at hcount
  exact Nat.add_right_cancel hcount

/-- A call ends that has nothing to abort. -/
theorem livesOn_endCall (ho : s.Orderly) {call : Nat} {old : CancelStage}
    (hold : s.cancels.get? call = some old) (hnone : old.withdrawn? = none) :
    s.LivesOn past { s with cancels := s.cancels.erase call } past := by
  refine livesOn_quiet rfl (fun _ => rfl) rfl (fun _ => rfl) (fun _ => rfl) ?_ rfl
  intro id
  have hcount := Table.countP_values_erase ho.cancelsDistinct hold (·.withdrawn? == some id)
  rw [hnone] at hcount
  exact hcount.symm

/-- A call comes in. -/
theorem livesOn_enter (call id : Nat) : s.LivesOn past (s.enter call id) past := by
  unfold enter
  split
  · exact LivesOn.of_eq rfl (fun _ => rfl)
  · rename_i hfree
    refine livesOn_quiet rfl (fun _ => rfl) rfl (fun _ => rfl) (fun _ => rfl) ?_ rfl
    intro id'
    have hnone := (Table.contains_eq_false _ _).mp (Bool.not_eq_true _ ▸ hfree)
    show (s.cancels.put call _).values.countP _ = _
    rw [Table.countP_values_put hnone]
    rfl

/-- The token of a task may be cancelled, and nothing else. -/
theorem livesOn_token (f : TaskView ρ → TaskView ρ) {id : Nat}
    (hf : ∀ v, f v = v ∨ f v = { v with cancelled := true })
    (hsight : ∀ id', s'.scheduler.sight id' =
      if id' = id then (s.scheduler.sight id).modify f else s.scheduler.sight id')
    (hqueue : s'.scheduler.queue = s.scheduler.queue)
    (hnext : s'.scheduler.nextId = s.scheduler.nextId) (hworkers : s'.workers = s.workers)
    (hremoved : ∀ id', s'.removed id' = s.removed id') :
    s.LivesOn past s' past := by
  have hstanding : ∀ id' x, s'.scheduler.sight id' = x →
      s'.standing past id' = { s.standing past id' with sight := x } := by
    intro id' x hx
    refine standing_eq hx ?_ (hremoved id') ?_ rfl
    · unfold queued
      rw [hqueue, hworkers]
      rfl
    · unfold executing
      rw [hworkers]
      rfl
  have hid := hsight id
  rw [if_pos rfl] at hid
  refine LivesOn.of_one id hnext ?_ ?_ ?_
  · intro other hother
    have hsame := hsight other
    rw [if_neg hother] at hsame
    exact hstanding other _ hsame
  · intro hunknown
    have hview : s.scheduler.sight id = ⟨none, 0, []⟩ := congrArg (·.sight) hunknown
    rw [hview] at hid
    rw [hstanding id _ hid, hunknown]
    rfl
  · intro life hlife
    have hlived : s.scheduler.sight id = life.standing.sight := congrArg (·.sight) hlife
    rw [hlived] at hid
    -- the view is that of a task, so the token is as before or cancelled
    obtain ⟨v, hv⟩ := Option.ne_none_iff_exists'.mp life.view_standing
    rcases hf v with hsame | hcancelled
    · refine ⟨life, ?_, .stay life⟩
      rw [hstanding id _ hid, hlife]
      unfold TaskSight.modify
      rw [hv, Option.map_some, hsame, ← hv]
    · refine ⟨{ life with cancelled := true }, ?_, .cancelled _ _ _⟩
      rw [hstanding id _ hid, hlife, life.standing_cancel]
      unfold TaskSight.modify
      rw [hv, Option.map_some, Option.map_some, hcancelled]

/-- Someone cancels the token of a task. -/
theorem livesOn_flip (id : Nat) {reason : String}
    (hscheduler : s'.scheduler = s.scheduler.flip id reason) (hworkers : s'.workers = s.workers)
    (hremoved : ∀ id', s'.removed id' = s.removed id') : s.LivesOn past s' past := by
  have hsight := s.scheduler.sight_flip id reason
  rw [← hscheduler] at hsight
  refine livesOn_token (fun v => { v with cancelled := true }) (fun _ => Or.inr rfl) hsight ?_ ?_
    hworkers hremoved
  · rw [hscheduler]
    rfl
  · rw [hscheduler]
    rfl

/-- A look at the token of a task cancels it if its time is over. -/
theorem livesOn_poll (id : Nat) : s.LivesOn past (s.poll id) past := by
  have hpoll : ∀ f : TaskView ρ → TaskView ρ, (∀ v, f v = v ∨ f v = { v with cancelled := true }) →
      (∀ t, s.scheduler.tasks.get? id = some t →
        TaskView.mk t.state t.result (t.token.poll s.now).isCancelled t.tellsResult = f t.view) →
      s.LivesOn past (s.poll id) past := by
    intro f hf hview
    exact livesOn_token f hf (s.scheduler.sight_modifyTask id hview) rfl rfl rfl (fun _ => rfl)
  by_cases hover : (s.scheduler.tasks.get? id).any (·.token.isOverdue s.now) = true
  · refine hpoll (fun v => { v with cancelled := true }) (fun _ => Or.inr rfl) ?_
    intro t hget
    rw [hget] at hover
    have hover : t.token.isOverdue s.now = true := hover
    unfold Token.poll
    rw [if_pos hover, Token.isCancelled_cancel]
    rfl
  · refine hpoll (fun v => v) (fun _ => Or.inl rfl) ?_
    intro t hget
    rw [hget] at hover
    have hover : ¬ t.token.isOverdue s.now = true := hover
    unfold Token.poll
    rw [if_neg hover]
    rfl

end Linkage.TaskSystem

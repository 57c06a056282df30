import Linkage.Proofs.Task.Runs
import Mathlib.Logic.Relation

/-!
# How tasks end

Of the three who may end a task — the worker that runs it, a call that cancels it, the call that shuts
the scheduler down — only the one that took it out of the queue does so.

* **`Sound.run_lives`** — in a run every task goes through a sequence of next points of its life;
* **`TaskLife.Barred`** — a task that was cancelled before it started, or removed from the queue, never
  starts;
* **`Conduct`**, **`conduct_run`** — every task ends once at most, with one result, which is the one
  that is told; in the end all have ended.
-/

namespace Linkage

variable {κ β ρ : Type}

/-- The states that a task may go through: queued, running and final, or queued and final. -/
def TaskState.Moves (state state' : TaskState) : Prop :=
  state' = state ∨ (state = .queued ∧ state' = .running) ∨
    (state.isFinal = false ∧ state'.isFinal = true)

theorem TaskState.isFinal_ofResult (result : TaskResult ρ) :
    (TaskState.ofResult result).isFinal = true := by
  cases result with
  | ok value => rfl
  | error e =>
      show (if e.isCancelled then TaskState.cancelled else TaskState.failed).isFinal = true
      split <;> rfl

namespace TaskLife

/-- How a life goes on in many steps. -/
abbrev Leads : TaskLife ρ → TaskLife ρ → Prop := Relation.ReflTransGen Next

/-- A task that does not start any more: it is cancelled, removed or ended before it has started. -/
def Barred (life : TaskLife ρ) : Prop :=
  match life.stage with
  | .queued => life.cancelled = true
  | .removed => True
  | .executing => False
  | .ended _ started => started = false

theorem Barred.next {life life' : TaskLife ρ} (h : life.Barred) (hgoes : life.Next life') :
    life'.Barred := by
  cases hgoes with
  | stay => exact h
  | cancelled stage tells cancelled => cases stage <;> first | exact rfl | exact h
  | removed => exact trivial
  | started => cases h
  | refused => exact rfl
  | aborted => exact rfl
  | finished => cases h

theorem Barred.leads {life life' : TaskLife ρ} (h : life.Barred) (hleads : life.Leads life') :
    life'.Barred := by
  induction hleads with
  | refl => exact h
  | tail _ hgoes ih => exact ih.next hgoes

/-- A task that is barred is not told to have started, and nobody executes it. -/
theorem Barred.standing {life : TaskLife ρ} (h : life.Barred) :
    life.standing.sight.starts = 0 ∧ life.standing.executing = 0 := by
  match life with
  | ⟨.queued, _, _⟩ | ⟨.removed, _, _⟩ => exact ⟨rfl, rfl⟩
  | ⟨.executing, _, _⟩ => cases h
  | ⟨.ended _ started, _, _⟩ =>
      have hstarted : started = false := h
      rw [hstarted]
      exact ⟨rfl, rfl⟩

/-- After its end nothing happens to a task but that its token is cancelled. -/
theorem eq_of_ended {result : TaskResult ρ} {started tells cancelled : Bool} {life' : TaskLife ρ}
    (hleads : Leads ⟨.ended result started, tells, cancelled⟩ life') :
    ∃ cancelled', life' = ⟨.ended result started, tells, cancelled'⟩ := by
  induction hleads with
  | refl => exact ⟨cancelled, rfl⟩
  | tail _ hgoes ih =>
      obtain ⟨cancelled', rfl⟩ := ih
      cases hgoes with
      | stay => exact ⟨cancelled', rfl⟩
      | cancelled => exact ⟨true, rfl⟩

/-- A task that has a result has ended. -/
theorem eq_ended {life : TaskLife ρ} {v : TaskView ρ} {result : TaskResult ρ}
    (hview : life.standing.sight.view = some v) (hresult : v.result = some result) :
    ∃ started, life = ⟨.ended result started, v.tellsResult, v.cancelled⟩ := by
  match life with
  | ⟨.queued, _, _⟩ | ⟨.removed, _, _⟩ | ⟨.executing, _, _⟩ =>
      injection hview with hview
      rw [← hview] at hresult
      cases hresult
  | ⟨.ended result' started, tells, cancelled⟩ =>
      injection hview with hview
      subst hview
      injection hresult with hresult
      subst hresult
      exact ⟨started, rfl⟩

/-- A life goes on through the states that a task may go through. -/
theorem Next.moves {life life' : TaskLife ρ} (hgoes : life.Next life') {v v' : TaskView ρ}
    (hv : life.standing.sight.view = some v) (hv' : life'.standing.sight.view = some v') :
    v.state.Moves v'.state := by
  cases hgoes with
  | stay =>
      rw [hv] at hv'
      injection hv' with hv'
      rw [hv']
      exact Or.inl rfl
  | cancelled stage tells cancelled =>
      cases stage <;>
      · injection hv with hv
        injection hv' with hv'
        rw [← hv, ← hv']
        exact Or.inl rfl
  | removed =>
      injection hv with hv
      injection hv' with hv'
      rw [← hv, ← hv']
      exact Or.inl rfl
  | started =>
      injection hv with hv
      injection hv' with hv'
      rw [← hv, ← hv']
      exact Or.inr (Or.inl ⟨rfl, rfl⟩)
  | refused tells cancelled e =>
      injection hv with hv
      injection hv' with hv'
      rw [← hv, ← hv']
      exact Or.inr (Or.inr ⟨rfl, TaskState.isFinal_ofResult (.error e : TaskResult ρ)⟩)
  | aborted tells cancelled e =>
      injection hv with hv
      injection hv' with hv'
      rw [← hv, ← hv']
      exact Or.inr (Or.inr ⟨rfl, TaskState.isFinal_ofResult (.error e : TaskResult ρ)⟩)
  | finished tells cancelled result =>
      injection hv with hv
      injection hv' with hv'
      rw [← hv, ← hv']
      exact Or.inr (Or.inr ⟨rfl, TaskState.isFinal_ofResult result⟩)

end TaskLife

namespace TaskSystem

variable {s : TaskSystem κ β ρ} {past : List (Nat × TaskResult ρ)}

/-! ## Tasks and their lives -/

theorem mem_endsOf {id : Nat} {result : TaskResult ρ} :
    result ∈ endsOf past id ↔ (id, result) ∈ past := by
  unfold endsOf
  rw [List.mem_map]
  constructor
  · rintro ⟨⟨other, _⟩, hmem, rfl⟩
    obtain ⟨hmem, hid⟩ := List.mem_filter.mp hmem
    have hid : other = id := by simpa using hid
    rw [← hid]
    exact hmem
  · intro hmem
    exact ⟨(id, result), List.mem_filter.mpr ⟨hmem, by simp⟩, rfl⟩

/-- A task that was accepted stands at a point of its life. -/
theorem Sound.life_of_task (hs : s.Sound past) {id : Nat} {t : ScheduledTask ρ}
    (ht : s.scheduler.tasks.get? id = some t) :
    ∃ life : TaskLife ρ, s.standing past id = life.standing ∧
      life.standing.sight.view = some t.view := by
  have hview : (s.scheduler.sight id).view = some t.view := by
    unfold Scheduler.sight
    rw [ht]
    rfl
  rcases hs.lives id with hunknown | ⟨life, hlife⟩
  · have hnone : (s.scheduler.sight id).view = none := congrArg (·.sight.view) hunknown
    rw [hview] at hnone
    cases hnone
  · have hsame : (s.scheduler.sight id).view = life.standing.sight.view :=
      congrArg (·.sight.view) hlife
    exact ⟨life, hlife, hsame.symm.trans hview⟩

/-- Where a life is there is a task. -/
theorem task_of_life {id : Nat} {life : TaskLife ρ} (hlife : s.standing past id = life.standing) :
    ∃ t, s.scheduler.tasks.get? id = some t ∧ life.standing.sight.view = some t.view := by
  have hview : (s.scheduler.sight id).view = life.standing.sight.view :=
    congrArg (·.sight.view) hlife
  obtain ⟨v, hv⟩ := Option.ne_none_iff_exists'.mp life.view_standing
  obtain ⟨t, ht, htv⟩ := Option.map_eq_some_iff.mp (hview.trans hv)
  exact ⟨t, ht, hv.trans (congrArg some htv.symm)⟩

/-- In a run every task goes on with its life. -/
theorem Sound.run_lives (hs : s.Sound past) {id : Nat} {life : TaskLife ρ}
    (hlife : s.standing past id = life.standing) (later : List (TaskStep κ β ρ)) :
    ∃ life' : TaskLife ρ,
      (s.run later).standing (past ++ s.ended later) id = life'.standing ∧ life.Leads life' := by
  induction later generalizing s past life with
  | nil =>
      refine ⟨life, ?_, .refl⟩
      rw [ended, List.append_nil]
      exact hlife
  | cons event rest ih =>
      obtain ⟨hs', hgoes⟩ := hs.step_lives event
      obtain ⟨life₁, hlife₁, hnext⟩ := hgoes id life hlife
      obtain ⟨life₂, hlife₂, hleads⟩ := ih hs' hlife₁
      refine ⟨life₂, ?_, .head hnext hleads⟩
      rw [ended, ← List.append_assoc]
      exact hlife₂

/-! ## Conduct -/

/-- Whatever happens, a task is not told to have started, and no worker executes it. -/
def NeverRuns (s : TaskSystem κ β ρ) (id : Nat) : Prop :=
  ∀ later, .started id ∉ (s.run later).scheduler.events ∧
    .executing id ∉ (s.run later).workers

/-- A call has taken a task out of the queue and is to abort it. -/
def IsRemoved (s : TaskSystem κ β ρ) (id : Nat) : Prop :=
  (∃ call stage, s.cancels.get? call = some stage ∧ stage.withdrawn? = some id) ∨
    id ∈ s.shutWaiting

/-- What tasks can count on in a system after the ends of the `past`. -/
structure Conduct (s : TaskSystem κ β ρ) (past : List (Nat × TaskResult ρ)) : Prop where
  /-- A task ends once at most. -/
  endsOnce : (past.map Prod.fst).Nodup
  /-- The result of a task is what it has come to. -/
  result : ∀ id t, s.scheduler.tasks.get? id = some t →
    ∀ result, t.result = some result ↔ (id, result) ∈ past
  /-- The result that is told is that of the task, and it is told once. -/
  told : ∀ id t, s.scheduler.tasks.get? id = some t →
    s.scheduler.events.filterMap (TaskEvent.resultOf id) =
      if t.tellsResult then t.result.toList else []
  /-- The state of a task that has ended is that of its result. -/
  state : ∀ id t, s.scheduler.tasks.get? id = some t →
    (∀ result, t.result = some result → t.state = .ofResult result) ∧
      (t.result = none → t.state.isFinal = false)
  moves : ∀ id t, s.scheduler.tasks.get? id = some t → ∀ event,
    ∃ t', (s.step event).scheduler.tasks.get? id = some t' ∧ t.state.Moves t'.state
  /-- An end is for good. -/
  final : ∀ id t result, s.scheduler.tasks.get? id = some t → t.result = some result → ∀ later,
    ∃ t', (s.run later).scheduler.tasks.get? id = some t' ∧ t'.result = some result ∧
      t'.state = t.state
  /-- A task whose token is cancelled before it starts does not run. -/
  cancelledFirst : ∀ id t, s.scheduler.tasks.get? id = some t → t.token.isCancelled = true →
    .started id ∉ s.scheduler.events → s.NeverRuns id
  /-- A task that is taken out of the queue to be aborted does not run. -/
  removedFirst : ∀ id, s.IsRemoved id → s.NeverRuns id
  /-- When the scheduler has been shut down and nobody is cancelling a task, all tasks have ended. -/
  closed : s.shutting = some .returned → (∀ call, s.cancels.get? call = none) →
    s.scheduler.queue = [] ∧
    (∀ id t, s.scheduler.tasks.get? id = some t →
      ∃ result, t.result = some result ∧ t.state = .ofResult result ∧ endsOf past id = [result]) ∧
    ∀ later now name key body tells,
      ((s.run later).scheduler.submit now name key body tells).1 = .error .schedulerShutDown

/-- A task that is barred never runs. -/
theorem Sound.neverRuns (hs : s.Sound past) {id : Nat} {life : TaskLife ρ}
    (hlife : s.standing past id = life.standing) (hbarred : life.Barred) : s.NeverRuns id := by
  intro later
  obtain ⟨life', hlife', hleads⟩ := hs.run_lives hlife later
  obtain ⟨hstarts, hexecuting⟩ := (hbarred.leads hleads).standing
  have hnone : (s.run later).scheduler.events.countP (TaskEvent.isStartOf id) = 0 :=
    (congrArg (·.sight.starts) hlife').trans hstarts
  have hnobody : (s.run later).workers.count (.executing id) = 0 :=
    (congrArg (·.executing) hlife').trans hexecuting
  refine ⟨?_, List.count_eq_zero.mp hnobody⟩
  intro hmem
  exact List.countP_eq_zero.mp hnone _ hmem (by simp [TaskEvent.isStartOf])

/-- A removed task is counted. -/
theorem removed_pos {id : Nat} (h : s.IsRemoved id) : 0 < s.removed id := by
  unfold removed
  rcases h with ⟨call, stage, hcall, hstage⟩ | hwaiting
  · have hpos : 0 < s.cancels.values.countP (·.withdrawn? == some id) :=
      Table.countP_values_pos hcall (by simp [hstage])
    omega
  · have hpos : 0 < s.shutWaiting.count id := List.count_pos_iff.mpr hwaiting
    omega

theorem shutting_advance (s : TaskSystem κ β ρ) (call : Nat) (stage : CancelStage) :
    (s.advance call stage).shutting = s.shutting := by
  match stage with
  | .called _ | .withdrawn _ | .dropped _ => rfl
  | .flipped id =>
      rcases s.advance_flipped call id with ⟨-, heq⟩ | heq
      · rw [heq]
      · rw [heq]

theorem isSome_shutting_proceed {stage : ShutDownStage} (h : s.shutting.isSome = true) :
    (s.proceed stage).shutting.isSome = true := by
  match stage with
  | .ending (_ :: _) | .ending [] | .dropped _ _ | .telling (_ :: _) | .telling [] => exact rfl
  | .joining =>
      show (if s.workers.all (· == .gone) then { s with shutting := some .returned }
        else s).shutting.isSome = true
      split
      · exact rfl
      · exact h
  | .returned => exact h

theorem shutting_enter (s : TaskSystem κ β ρ) (call id : Nat) :
    (s.enter call id).shutting = s.shutting := by
  unfold enter
  split <;> rfl

/-- The call that shuts the scheduler down is not taken back. -/
theorem isSome_shutting_step (h : s.shutting.isSome = true) (event : TaskStep κ β ρ) :
    (s.step event).shutting.isSome = true := by
  cases event with
  | submit name key body tells =>
      simp only [step, submit]
      split <;> exact h
  | advance call =>
      simp only [step]
      split
      · rw [shutting_advance]
        exact h
      · exact h
  | proceed =>
      simp only [step]
      split
      · exact isSome_shutting_proceed h
      · exact h
  | cancel call id =>
      simp only [step]
      split
      · rw [shutting_enter]
        exact h
      · exact h
  | cancelActive call id =>
      simp only [step]
      split
      · rw [shutting_enter]
        exact h
      · exact h
  | shutDown =>
      simp only [step]
      split
      · exact h
      · exact rfl
  | elapse ms => exact h
  | limit timeout => exact h
  | listen => exact h
  | pop worker | start worker | raise worker fraction | poll worker | finish worker result
  | retire worker | leave worker =>
      simp only [step]
      split <;> exact h

/-- A scheduler that is shut down stays so. -/
theorem Sound.isShutDown_run (hs : s.Sound past) (h : s.scheduler.isShutDown = true)
    (later : List (TaskStep κ β ρ)) : (s.run later).scheduler.isShutDown = true := by
  induction later generalizing s past with
  | nil => exact h
  | cons event rest ih =>
      refine ih (hs.step event) ?_
      rw [(hs.step event).orderly.closing]
      refine isSome_shutting_step ?_ event
      rw [← hs.orderly.closing]
      exact h

/-- What is to be seen of a task goes together with its result. -/
theorem Sound.task_spec (hs : s.Sound past) {id : Nat} {t : ScheduledTask ρ}
    (ht : s.scheduler.tasks.get? id = some t) :
    endsOf past id = t.result.toList ∧
      s.scheduler.events.filterMap (TaskEvent.resultOf id) =
        (if t.tellsResult then t.result.toList else []) ∧
      (∀ result, t.result = some result → t.state = .ofResult result) ∧
      (t.result = none → t.state.isFinal = false) := by
  obtain ⟨life, hlife, hview⟩ := hs.life_of_task ht
  have hends : endsOf past id = life.standing.ends := congrArg (·.ends) hlife
  have htold : s.scheduler.events.filterMap (TaskEvent.resultOf id) = life.standing.sight.told :=
    congrArg (·.sight.told) hlife
  rw [hends, htold]
  match life with
  | ⟨.queued, tells, _⟩ | ⟨.removed, tells, _⟩ | ⟨.executing, tells, _⟩ =>
      injection hview with hview
      injection hview with hstate hresult _ htells
      rw [← hstate, ← hresult, ← htells]
      refine ⟨rfl, (by cases tells <;> rfl), fun _ h => (by cases h), fun _ => rfl⟩
  | ⟨.ended result started, tells, _⟩ =>
      injection hview with hview
      injection hview with hstate hresult _ htells
      rw [← hstate, ← hresult, ← htells]
      refine ⟨rfl, rfl, ?_, fun h => by cases h⟩
      intro result' hsame
      injection hsame with hsame
      rw [hsame]

/-- A task ends once at most. -/
theorem Sound.endsOnce (hs : s.Sound past) : (past.map Prod.fst).Nodup := by
  refine List.nodup_iff_count_le_one.mpr ?_
  intro id
  have hlength : (past.map Prod.fst).count id = (endsOf past id).length := by
    unfold endsOf
    rw [List.count_eq_countP, List.countP_map, List.countP_eq_length_filter, List.length_map]
    rfl
  rw [hlength]
  rcases hs.lives id with hunknown | ⟨life, hlife⟩
  · have hends : endsOf past id = [] := congrArg (·.ends) hunknown
    rw [hends]
    exact Nat.zero_le 1
  · have hends : endsOf past id = life.standing.ends := congrArg (·.ends) hlife
    rw [hends]
    match life with
    | ⟨.queued, _, _⟩ | ⟨.removed, _, _⟩ | ⟨.executing, _, _⟩ => exact Nat.zero_le 1
    | ⟨.ended _ _, _, _⟩ => exact Nat.le_refl 1

/-- A task that ends has not ended before. -/
theorem Sound.first_end {id : Nat} {result : TaskResult ρ} (hs : s.Sound (past ++ [(id, result)])) :
    endsOf past id = [] := by
  have hnodup := hs.endsOnce
  rw [List.map_append] at hnodup
  obtain ⟨-, -, hdisjoint⟩ := List.nodup_append.mp hnodup
  have hnew : id ∉ past.map Prod.fst := fun hmem => hdisjoint id hmem id List.mem_cons_self rfl
  refine List.eq_nil_iff_forall_not_mem.mpr ?_
  intro result hmem
  exact hnew (List.mem_map_of_mem (mem_endsOf.mp hmem))

/-- A task whose token is cancelled before it is told to have started is barred. -/
theorem Sound.barred_of_cancelled (hs : s.Sound past) {id : Nat} {t : ScheduledTask ρ}
    (ht : s.scheduler.tasks.get? id = some t) (hcancelled : t.token.isCancelled = true)
    (hstarted : .started id ∉ s.scheduler.events) :
    ∃ life : TaskLife ρ, s.standing past id = life.standing ∧ life.Barred := by
  obtain ⟨life, hlife, hview⟩ := hs.life_of_task ht
  have hstarts : life.standing.sight.starts = 0 := by
    have hcount : s.scheduler.events.countP (TaskEvent.isStartOf id) =
        life.standing.sight.starts := congrArg (·.sight.starts) hlife
    rw [← hcount, List.countP_eq_zero]
    intro e he hstart
    cases e with
    | started other =>
        have hother : other = id := by simpa [TaskEvent.isStartOf] using hstart
        rw [hother] at he
        exact hstarted he
    | progressed _ _ => cases hstart
    | ended _ _ => cases hstart
  refine ⟨life, hlife, ?_⟩
  obtain ⟨stage, tells, cancelled⟩ := life
  cases stage with
  | queued =>
      injection hview with hview
      injection hview with _ _ hsame _
      exact hsame.trans hcancelled
  | removed => exact trivial
  | executing => cases hstarts
  | ended result started =>
      cases started with
      | false => exact rfl
      | true => cases hstarts

/-- When the scheduler has been shut down and nobody is cancelling a task, no task is anywhere. -/
theorem Sound.placeless (hs : s.Sound past) (hreturned : s.shutting = some .returned)
    (hcancels : ∀ call, s.cancels.get? call = none) (id : Nat) :
    s.queued id = 0 ∧ s.removed id = 0 ∧ s.executing id = 0 := by
  have ho := hs.orderly
  have hdown : s.scheduler.isShutDown = true := by
    rw [ho.closing, hreturned]
    rfl
  have hgone : ∀ stage, stage ≠ WorkerStage.gone → s.workers.count stage = 0 := by
    intro stage hstage
    refine List.count_eq_zero.mpr ?_
    intro hmem
    exact hstage (ho.departed hreturned stage hmem)
  have hentries : s.cancels.entries = [] := by
    refine Table.entries_eq_nil ?_
    intro call stage hcall
    rw [hcancels call] at hcall
    cases hcall
  refine ⟨?_, ?_, hgone _ (fun h => by cases h)⟩
  · unfold queued
    rw [ho.drained hdown, hgone _ (fun h => by cases h)]
    rfl
  · unfold removed shutWaiting Table.values
    rw [hentries, hreturned]
    rfl

/-- Then every task has ended, with the result that it has come to. -/
theorem Sound.ended_of_returned (hs : s.Sound past) (hreturned : s.shutting = some .returned)
    (hcancels : ∀ call, s.cancels.get? call = none) {id : Nat} {t : ScheduledTask ρ}
    (ht : s.scheduler.tasks.get? id = some t) :
    ∃ result, t.result = some result ∧ t.state = .ofResult result ∧ endsOf past id = [result] := by
  obtain ⟨hends, -, hstate, -⟩ := hs.task_spec ht
  obtain ⟨hqueued, hremoved, hexecuting⟩ := hs.placeless hreturned hcancels id
  obtain ⟨life, hlife, hview⟩ := hs.life_of_task ht
  -- a task that is nowhere has ended
  match life with
  | ⟨.queued, _, _⟩ =>
      have hone : s.queued id = 1 := congrArg (·.queued) hlife
      omega
  | ⟨.removed, _, _⟩ =>
      have hone : s.removed id = 1 := congrArg (·.removed) hlife
      omega
  | ⟨.executing, _, _⟩ =>
      have hone : s.executing id = 1 := congrArg (·.executing) hlife
      omega
  | ⟨.ended result _, _, _⟩ =>
      injection hview with hview
      injection hview with _ hresult _ _
      refine ⟨result, hresult.symm, hstate result hresult.symm, ?_⟩
      rw [hends, ← hresult]
      rfl

/-- Every event takes a task on with its life. -/
theorem Sound.moves_step (hs : s.Sound past) {id : Nat} {t : ScheduledTask ρ}
    (ht : s.scheduler.tasks.get? id = some t) (event : TaskStep κ β ρ) :
    ∃ t', (s.step event).scheduler.tasks.get? id = some t' ∧ t.state.Moves t'.state := by
  obtain ⟨life, hlife, hview⟩ := hs.life_of_task ht
  obtain ⟨life', hlife', hgoes⟩ := (hs.step_lives event).2 id life hlife
  obtain ⟨t', ht', hview'⟩ := task_of_life hlife'
  exact ⟨t', ht', hgoes.moves hview hview'⟩

/-- A task that has ended stays as it is. -/
theorem Sound.ended_run (hs : s.Sound past) {id : Nat} {t : ScheduledTask ρ}
    {result : TaskResult ρ} (ht : s.scheduler.tasks.get? id = some t) (hresult : t.result = some result)
    (later : List (TaskStep κ β ρ)) :
    ∃ t', (s.run later).scheduler.tasks.get? id = some t' ∧ t'.result = some result ∧
      t'.state = t.state := by
  obtain ⟨life, hlife, hview⟩ := hs.life_of_task ht
  obtain ⟨started, rfl⟩ := TaskLife.eq_ended hview hresult
  obtain ⟨life', hlife', hleads⟩ := hs.run_lives hlife later
  obtain ⟨cancelled', rfl⟩ := TaskLife.eq_of_ended hleads
  obtain ⟨t', ht', hview'⟩ := task_of_life hlife'
  injection hview' with hview'
  injection hview' with hstate hresult' _ _
  refine ⟨t', ht', hresult'.symm, ?_⟩
  rw [← hstate, (hs.task_spec ht).2.2.1 result hresult]

theorem Sound.conduct (hs : s.Sound past) : s.Conduct past where
  endsOnce := hs.endsOnce
  result := by
    intro id t ht result
    rw [← mem_endsOf, (hs.task_spec ht).1, Option.mem_toList]
  told _ _ ht := (hs.task_spec ht).2.1
  state _ _ ht := (hs.task_spec ht).2.2
  moves _ _ ht event := hs.moves_step ht event
  final _ _ _ ht hresult later := hs.ended_run ht hresult later
  cancelledFirst := by
    intro id t ht hcancelled hstarted
    obtain ⟨life, hlife, hbarred⟩ := hs.barred_of_cancelled ht hcancelled hstarted
    exact hs.neverRuns hlife hbarred
  removedFirst := by
    intro id hremoved
    obtain ⟨tells, cancelled, hlife⟩ := hs.life_of_removed (removed_pos hremoved)
    exact hs.neverRuns hlife trivial
  closed := by
    intro hreturned hcancels
    have hdown : s.scheduler.isShutDown = true := by
      rw [hs.orderly.closing, hreturned]
      rfl
    refine ⟨hs.orderly.drained hdown, fun id t ht => hs.ended_of_returned hreturned hcancels ht, ?_⟩
    intro later now name key body tells
    rcases (s.run later).scheduler.submit_cases now name key body tells with ⟨-, heq⟩ | ⟨hopen, -⟩
    · rw [heq]
    · rw [hs.isShutDown_run hdown later] at hopen
      cases hopen

/-- However many workers there are, whatever happens and in whatever order: of all who may end a task
only one does, with one result for good; a task that is cancelled before it starts does not run, and
after the scheduler was shut down none is left. -/
theorem conduct_run (order : κ → κ → Ordering) (workers : Nat) (events : List (TaskStep κ β ρ)) :
    ((ofWorkers order workers : TaskSystem κ β ρ).run events).Conduct
      ((ofWorkers order workers : TaskSystem κ β ρ).ended events) :=
  (sound_run order workers events).conduct

/-- A task that is cancelled when a worker has taken it already ends with the worker, and the call that
cancels it finds nothing to abort. -/
example : (ofWorkers (fun _ _ => .eq) 1 : TaskSystem Nat Unit Nat).ended
    [.submit "a" 0 () true, .cancel 7 1, .advance 7, .pop 0, .advance 7, .advance 7, .start 0] =
      [(1, .error (.cancelled "Cancelled by request"))] := by
  rfl

end TaskSystem

end Linkage

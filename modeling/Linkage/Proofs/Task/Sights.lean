import Linkage.Task.System
import Linkage.Proofs.Table

/-!
# What is to be seen of a task

Of a task one sees its state, its result, whether its token is cancelled, and what has been told of
it. Every step of a scheduler changes what is to be seen of one task at most, and in a way that
depends on nothing else.

* **`Scheduler.sight`** — what is to be seen of a task;
* **one lemma for each step** — the sight of every task after it, and the queue.
-/

namespace Linkage

variable {κ β ρ : Type}

/-- What the record of a task says. -/
structure TaskView (ρ : Type) where
  state : TaskState
  result : Option (TaskResult ρ)
  /-- Whether its token is cancelled. -/
  cancelled : Bool
  tellsResult : Bool

/-- What is to be seen of a task. -/
structure TaskSight (ρ : Type) where
  view : Option (TaskView ρ)
  /-- How often it was told that the task has started. -/
  starts : Nat
  /-- The results that have been told. -/
  told : List (TaskResult ρ)

def ScheduledTask.view (t : ScheduledTask ρ) : TaskView ρ :=
  ⟨t.state, t.result, t.token.isCancelled, t.tellsResult⟩

/-- Whether it is told that a task has started. -/
def TaskEvent.isStartOf (id : Nat) : TaskEvent ρ → Bool
  | .started other => other == id
  | _ => false

/-- The result of a task that is told. -/
def TaskEvent.resultOf (id : Nat) : TaskEvent ρ → Option (TaskResult ρ)
  | .ended other result => if other = id then some result else none
  | _ => none

namespace TaskSight

/-- A task that has not been accepted. -/
def unknown : TaskSight ρ := ⟨none, 0, []⟩

/-- The record of a task changes. -/
def modify (f : TaskView ρ → TaskView ρ) (x : TaskSight ρ) : TaskSight ρ :=
  { x with view := x.view.map f }

/-- A task starts. -/
def start (x : TaskSight ρ) : TaskSight ρ :=
  { x.modify fun v => { v with state := .running } with starts := x.starts + 1 }

/-- A task ends. -/
def finish (result : TaskResult ρ) (x : TaskSight ρ) : TaskSight ρ :=
  { x.modify fun v =>
      { v with state := .ofResult result, result := v.result <|> some result } with
    told := x.told ++ if x.view.any (·.tellsResult) then [result] else [] }

end TaskSight

namespace Scheduler

/-- What is to be seen of a task. -/
def sight (s : Scheduler κ β ρ) (id : Nat) : TaskSight ρ where
  view := (s.tasks.get? id).map ScheduledTask.view
  starts := s.events.countP (TaskEvent.isStartOf id)
  told := s.events.filterMap (TaskEvent.resultOf id)

/-! ## Changes of records and news -/

/-- What is to be seen depends on the records and on what was told. -/
theorem sight_congr {s s' : Scheduler κ β ρ} {id : Nat}
    (hview : (s'.tasks.get? id).map ScheduledTask.view = (s.tasks.get? id).map ScheduledTask.view)
    (hevents : s'.events = s.events) : s'.sight id = s.sight id := by
  unfold sight
  rw [hview, hevents]

/-- A change of the record of a task, as far as it is seen. -/
theorem sight_modifyTask (s : Scheduler κ β ρ) (id : Nat)
    {f : ScheduledTask ρ → ScheduledTask ρ} {g : TaskView ρ → TaskView ρ}
    (hfg : ∀ t, s.tasks.get? id = some t → (f t).view = g t.view) (id' : Nat) :
    (s.modifyTask id f).sight id' = if id' = id then (s.sight id).modify g else s.sight id' := by
  by_cases hid : id' = id
  · subst hid
    rw [if_pos rfl]
    have hview : ((s.modifyTask id' f).tasks.get? id').map ScheduledTask.view =
        ((s.tasks.get? id').map ScheduledTask.view).map g := by
      show ((s.tasks.modify id' f).get? id').map _ = _
      rw [Table.get?_modify, if_pos rfl]
      cases hget : s.tasks.get? id' with
      | none => rfl
      | some t => exact congrArg some (hfg t hget)
    unfold sight TaskSight.modify
    rw [hview]
    rfl
  · rw [if_neg hid]
    refine sight_congr ?_ rfl
    show ((s.tasks.modify id f).get? id').map _ = _
    rw [Table.get?_modify, if_neg hid]

/-- A change of the record of a task that is not seen. -/
theorem sight_modifyTask_unseen (s : Scheduler κ β ρ) (id : Nat)
    {f : ScheduledTask ρ → ScheduledTask ρ} (hf : ∀ t, (f t).view = t.view) (id' : Nat) :
    (s.modifyTask id f).sight id' = s.sight id' := by
  rw [sight_modifyTask s id (g := fun v => v) (fun t _ => hf t)]
  by_cases hid : id' = id
  · rw [if_pos hid, hid]
    unfold TaskSight.modify
    rw [Option.map_id']
  · rw [if_neg hid]

theorem sight_tell (s : Scheduler κ β ρ) (e : TaskEvent ρ) (id : Nat) :
    (s.tell e).sight id =
      { s.sight id with
        starts := (s.sight id).starts + if e.isStartOf id then 1 else 0
        told := (s.sight id).told ++ (e.resultOf id).toList } := by
  have hstarts : (s.events ++ [e]).countP (TaskEvent.isStartOf id) =
      s.events.countP (TaskEvent.isStartOf id) + if e.isStartOf id then 1 else 0 := by
    rw [List.countP_append, List.countP_singleton]
  have htold : (s.events ++ [e]).filterMap (TaskEvent.resultOf id) =
      s.events.filterMap (TaskEvent.resultOf id) ++ (e.resultOf id).toList := by
    rw [List.filterMap_append]
    cases h : e.resultOf id with
    | none => rw [List.filterMap_cons_none h, List.filterMap_nil, Option.toList_none]
    | some r => rw [List.filterMap_cons_some h, List.filterMap_nil, Option.toList_some]
  unfold sight tell
  simp only [hstarts, htold]

/-- A table of tasks says which tasks were accepted. -/
theorem view_eq_none_iff {s : Scheduler κ β ρ} {id : Nat} :
    (s.sight id).view = none ↔ s.tasks.get? id = none :=
  Option.map_eq_none_iff

/-! ## Progress -/

/-- Of two schedulers one sees the same, but for the progress of tasks. -/
structure Alike (s s' : Scheduler κ β ρ) : Prop where
  sight : ∀ id, s'.sight id = s.sight id
  queue : s'.queue = s.queue
  isShutDown : s'.isShutDown = s.isShutDown
  nextId : s'.nextId = s.nextId

theorem alike_raise (s : Scheduler κ β ρ) (id : Nat) (fraction : Float) :
    s.Alike (s.raise id fraction) := by
  unfold raise
  split
  · exact ⟨fun _ => rfl, rfl, rfl, rfl⟩
  · split
    · exact ⟨fun _ => rfl, rfl, rfl, rfl⟩
    · rename_i p _
      have hmodify := fun id' => s.sight_modifyTask_unseen id
        (f := fun t => { t with progress := p }) (fun _ => rfl) id'
      split
      · refine ⟨?_, rfl, rfl, rfl⟩
        intro id'
        rw [sight_tell, hmodify]
        simp [TaskEvent.isStartOf, TaskEvent.resultOf]
      · exact ⟨hmodify, rfl, rfl, rfl⟩

/-! ## Ends -/

/-- Whether the result of a task is told can be seen. -/
theorem any_tellsResult (s : Scheduler κ β ρ) (id : Nat) :
    (s.tasks.get? id).any (·.tellsResult) = (s.sight id).view.any (·.tellsResult) := by
  unfold sight
  rw [Option.any_map]
  rfl

/-- A scheduler in which a task has reached its final state, and nobody has been told. -/
def settled (s : Scheduler κ β ρ) (id : Nat) (result : TaskResult ρ) : Scheduler κ β ρ :=
  (if result.toOption.isSome then s.raise id 1.0 else s).modifyTask id fun t =>
    { t with state := TaskState.ofResult result }

/-- A scheduler in which the end of a task has been told. -/
def reported (s : Scheduler κ β ρ) (id : Nat) (result : TaskResult ρ) : Scheduler κ β ρ :=
  if ((s.settled id result).tasks.get? id).any (·.tellsResult) then
    (s.settled id result).tell (.ended id result)
  else s.settled id result

/-- A task ends in this order: its state, those who are told, its result. -/
theorem finish_eq (s : Scheduler κ β ρ) (id : Nat) (result : TaskResult ρ) :
    s.finish id result =
      { (s.reported id result).modifyTask id fun t =>
          { t with result := t.result <|> some result } with
        running := (s.reported id result).running.filter (· ≠ id) } := rfl

theorem alike_raised (s : Scheduler κ β ρ) (id : Nat) (result : TaskResult ρ) :
    s.Alike (if result.toOption.isSome then s.raise id 1.0 else s) := by
  split
  · exact s.alike_raise id 1.0
  · exact ⟨fun _ => rfl, rfl, rfl, rfl⟩

theorem sight_settled (s : Scheduler κ β ρ) (id : Nat) (result : TaskResult ρ) (id' : Nat) :
    (s.settled id result).sight id' =
      if id' = id then (s.sight id).modify fun v => { v with state := .ofResult result }
      else s.sight id' := by
  have halike := s.alike_raised id result
  unfold settled
  rw [sight_modifyTask _ id (g := fun v => { v with state := .ofResult result })
    (fun _ _ => rfl), halike.sight, halike.sight]

theorem sight_reported (s : Scheduler κ β ρ) (id : Nat) (result : TaskResult ρ) (id' : Nat) :
    (s.reported id result).sight id' =
      { (s.settled id result).sight id' with
        told := (s.sight id').told ++
          if id' = id ∧ (s.sight id).view.any (·.tellsResult) then [result] else [] } := by
  have hsettled := s.sight_settled id result
  -- whether the task is to be told of does not change as it ends
  have htells : ((s.settled id result).tasks.get? id).any (·.tellsResult) =
      (s.sight id).view.any (·.tellsResult) := by
    rw [any_tellsResult, hsettled id, if_pos rfl]
    unfold TaskSight.modify
    rw [Option.any_map]
  have htold : ((s.settled id result).sight id').told = (s.sight id').told := by
    rw [hsettled]
    by_cases hid : id' = id
    · rw [if_pos hid, hid]
      rfl
    · rw [if_neg hid]
  unfold reported
  rw [htells]
  by_cases hheard : (s.sight id).view.any (·.tellsResult) = true
  · rw [if_pos hheard, sight_tell, htold]
    by_cases hid : id' = id
    · simp [TaskEvent.isStartOf, TaskEvent.resultOf, hheard, hid]
    · simp [TaskEvent.isStartOf, TaskEvent.resultOf, hid, Ne.symm hid]
  · rw [if_neg hheard, if_neg (fun h => hheard h.2), List.append_nil, ← htold]

theorem sight_finish (s : Scheduler κ β ρ) (id : Nat) (result : TaskResult ρ) (id' : Nat) :
    (s.finish id result).sight id' =
      if id' = id then (s.sight id).finish result else s.sight id' := by
  have hfinish : (s.finish id result).sight id' = ((s.reported id result).modifyTask id fun t =>
      { t with result := t.result <|> some result }).sight id' := sight_congr rfl rfl
  rw [hfinish, sight_modifyTask _ id (g := fun v => { v with result := v.result <|> some result })
    (fun _ _ => rfl), sight_reported, sight_reported, sight_settled, sight_settled, if_pos rfl]
  by_cases hid : id' = id
  · subst hid
    simp [TaskSight.finish, TaskSight.modify, Function.comp_def]
  · simp [hid]

/-- An end leaves the queue alone. -/
theorem frame_finish (s : Scheduler κ β ρ) (id : Nat) (result : TaskResult ρ) :
    (s.finish id result).queue = s.queue ∧ (s.finish id result).isShutDown = s.isShutDown ∧
      (s.finish id result).nextId = s.nextId := by
  have halike := s.alike_raised id result
  rw [finish_eq]
  unfold reported
  split <;> exact ⟨halike.queue, halike.isShutDown, halike.nextId⟩

end Scheduler

/-! ## Tokens -/

/-- A token stays cancelled. -/
theorem Token.isCancelled_cancel (t : Token) (reason : String) :
    (t.cancel reason).isCancelled = true := by
  unfold Token.cancel Token.isCancelled
  cases t.reason <;> rfl

/-- A check fails if and only if the token is cancelled. -/
theorem Token.isCancelled_of_check {t : Token} {e : TaskError} (h : t.check = .error e) :
    t.isCancelled = true := by
  unfold Token.check at h
  unfold Token.isCancelled
  cases hreason : t.reason with
  | none =>
      rw [hreason] at h
      cases h
  | some reason => rfl

theorem Token.poll_of_check {t : Token} {now : Nat} (h : (t.poll now).check = .ok ()) :
    t.poll now = t ∧ t.isCancelled = false := by
  have hopen : (t.poll now).isCancelled = false := by
    unfold Token.check at h
    unfold Token.isCancelled
    cases hreason : (t.poll now).reason with
    | none => rfl
    | some reason =>
        rw [hreason] at h
        cases h
  have hsame : t.poll now = t := by
    unfold Token.poll at hopen ⊢
    split
    · rename_i hoverdue
      rw [if_pos hoverdue, t.isCancelled_cancel] at hopen
      cases hopen
    · rfl
  rw [hsame] at hopen
  exact ⟨hsame, hopen⟩

namespace Scheduler

/-! ## Starts -/

/-- A task that may not start ends at once. -/
theorem start_refused {s : Scheduler κ β ρ} {now id : Nat} {e : TaskError}
    (h : s.refusal? now id = some e) :
    (s.start now id).1 = false ∧ (s.sight id).view ≠ none ∧
      ∀ id', (s.start now id).2.sight id' =
        if id' = id then
          ((s.sight id).modify fun v => { v with cancelled := true }).finish (.error e)
        else s.sight id' := by
  unfold refusal? at h
  cases hget : s.tasks.get? id with
  | none =>
      rw [hget] at h
      cases h
  | some t =>
      rw [hget] at h
      cases hcheck : (t.token.poll now).check with
      | ok _ => simp [hcheck] at h
      | error e' =>
          simp only [Option.bind_some, hcheck, Option.some.injEq] at h
          subst h
          have hcancelled := Token.isCancelled_of_check hcheck
          have hpolled := s.sight_modifyTask id
            (f := fun t' => { t' with token := t.token.poll now })
            (g := fun v => { v with cancelled := true }) (by
              intro t' _
              show TaskView.mk _ _ (t.token.poll now).isCancelled _ = _
              rw [hcancelled]
              rfl)
          have hstart : s.start now id = (false, (s.modifyTask id fun t' =>
              { t' with token := t.token.poll now }).finish id (.error e')) := by
            unfold start
            simp only [hget, hcheck]
          rw [hstart]
          refine ⟨rfl, ?_, ?_⟩
          · intro hnone
            rw [view_eq_none_iff.mp hnone] at hget
            cases hget
          · intro id'
            rw [sight_finish, hpolled, hpolled, if_pos rfl]
            by_cases hid : id' = id
            · rw [if_pos hid, if_pos hid]
            · rw [if_neg hid, if_neg hid, if_neg hid]

/-- A task that may start was not cancelled. -/
theorem start_begun {s : Scheduler κ β ρ} {now id : Nat} {v : TaskView ρ}
    (h : s.refusal? now id = none) (hv : (s.sight id).view = some v) :
    v.cancelled = false ∧ (s.start now id).1 = true ∧
      ∀ id', (s.start now id).2.sight id' =
        if id' = id then (s.sight id).start else s.sight id' := by
  obtain ⟨t, hget, rfl⟩ := Option.map_eq_some_iff.mp hv
  unfold refusal? at h
  rw [hget] at h
  cases hcheck : (t.token.poll now).check with
  | error e => simp [hcheck] at h
  | ok _ =>
      obtain ⟨hsame, hopen⟩ := Token.poll_of_check hcheck
      have hpolled := s.sight_modifyTask id
        (f := fun t' => { t' with token := t.token.poll now }) (g := fun v => v) (by
          intro t' hget'
          rw [hget] at hget'
          injection hget' with hget'
          rw [hsame, ← hget'])
      have hstart : s.start now id = (true, ((s.modifyTask id fun t' =>
          { t' with token := t.token.poll now }).modifyTask id fun t' =>
            { t' with state := .running }).tell (.started id)) := by
        unfold start
        simp only [hget, hcheck]
      rw [hstart]
      refine ⟨hopen, rfl, ?_⟩
      intro id'
      rw [sight_tell, sight_modifyTask _ id (g := fun v => { v with state := .running })
        (fun _ _ => rfl), hpolled, hpolled, if_pos rfl]
      by_cases hid : id' = id
      · subst hid
        simp [TaskSight.start, TaskSight.modify, TaskEvent.isStartOf, TaskEvent.resultOf]
      · simp [hid, Ne.symm hid, TaskEvent.isStartOf, TaskEvent.resultOf]

/-- A start leaves the queue alone. -/
theorem frame_start (s : Scheduler κ β ρ) (now id : Nat) :
    (s.start now id).2.queue = s.queue ∧ (s.start now id).2.isShutDown = s.isShutDown ∧
      (s.start now id).2.nextId = s.nextId := by
  unfold start
  split
  · exact ⟨rfl, rfl, rfl⟩
  · simp only
    split
    · exact frame_finish _ id _
    · exact ⟨rfl, rfl, rfl⟩

/-! ## Tokens that are cancelled -/

/-- Flipping the token of a task is seen by that task only. -/
theorem sight_flip (s : Scheduler κ β ρ) (id : Nat) (reason : String) (id' : Nat) :
    (s.flip id reason).sight id' =
      if id' = id then (s.sight id).modify fun v => { v with cancelled := true }
      else s.sight id' := by
  refine s.sight_modifyTask id ?_ id'
  intro t _
  show TaskView.mk _ _ (t.token.cancel reason).isCancelled _ = _
  rw [Token.isCancelled_cancel]
  rfl

/-! ## The queue -/

/-- A submission that is accepted. -/
theorem submit_cases (s : Scheduler κ β ρ) (now : Nat) (name : String) (key : κ) (body : β)
    (tellsResult : Bool) :
    (s.isShutDown = true ∧
      s.submit now name key body tellsResult = (.error .schedulerShutDown, s)) ∨
    (s.isShutDown = false ∧ (s.submit now name key body tellsResult).1 = .ok s.nextId ∧
      (s.submit now name key body tellsResult).2.queue = s.queue ++ [⟨s.nextId, key, body⟩] ∧
      (s.submit now name key body tellsResult).2.isShutDown = false ∧
      (s.submit now name key body tellsResult).2.nextId = s.nextId + 1 ∧
      ∀ id, (s.submit now name key body tellsResult).2.sight id =
        if id = s.nextId then
          { s.sight id with view := some ⟨.queued, none, false, tellsResult⟩ }
        else s.sight id) := by
  unfold submit
  by_cases hdown : s.isShutDown = true
  · rw [if_pos hdown]
    exact Or.inl ⟨hdown, rfl⟩
  · rw [if_neg hdown]
    have hdown := Bool.not_eq_true _ ▸ hdown
    refine Or.inr ⟨hdown, rfl, rfl, hdown, rfl, ?_⟩
    intro id
    unfold sight
    show TaskSight.mk (((s.tasks.put s.nextId _).get? id).map ScheduledTask.view) _ _ = _
    rw [Table.get?_put]
    by_cases hid : id = s.nextId
    · rw [if_pos hid, if_pos hid]
      rfl
    · rw [if_neg hid, if_neg hid]

/-- The task that goes first is in the queue. -/
theorem mem_of_first? {order : κ → κ → Ordering} {queue : List (QueuedTask κ β)}
    {t : QueuedTask κ β} (h : first? order queue = some t) : t ∈ queue := by
  induction queue with
  | nil => cases h
  | cons head rest ih =>
      unfold first? at h
      cases hrest : first? order rest with
      | none =>
          rw [hrest] at h
          injection h with h
          rw [← h]
          exact List.mem_cons_self
      | some u =>
          rw [hrest] at h
          simp only at h
          split at h
          · exact List.mem_cons_of_mem _ (ih (hrest.trans h))
          · injection h with h
            rw [← h]
            exact List.mem_cons_self

/-- What a worker takes was in the queue of a scheduler that is not shut down. -/
theorem pop_eq_some {s s' : Scheduler κ β ρ} {t : QueuedTask κ β} (h : s.pop = some (t, s')) :
    s.isShutDown = false ∧ t ∈ s.queue ∧ s'.queue = s.queue.filter (·.id ≠ t.id) ∧
      s'.isShutDown = s.isShutDown ∧ s'.nextId = s.nextId ∧ ∀ id, s'.sight id = s.sight id := by
  unfold pop at h
  by_cases hdown : s.isShutDown = true
  · rw [if_pos hdown] at h
    cases h
  · rw [if_neg hdown] at h
    obtain ⟨first, hfirst, heq⟩ := Option.map_eq_some_iff.mp h
    injection heq with ht hs
    subst ht
    rw [← hs]
    exact ⟨Bool.not_eq_true _ ▸ hdown, mem_of_first? hfirst, rfl, rfl, rfl, fun _ => rfl⟩

end Scheduler

end Linkage

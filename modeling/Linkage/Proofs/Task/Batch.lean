import Linkage.Proofs.Task.Withdrawals

/-!
# In which order workers take tasks

Whatever is submitted, cancelled and taken, a worker that takes a task takes the one with the greatest key, of
several with equal keys the one that was submitted first, and a task that is cancelled leaves the order of the
others as it is. So a single worker that finds tasks in the queue starts them in the order of a stable sort,
without those that have been cancelled.

* **`Lined.course_step`** — tasks go through the hands of a single worker in the order in which they wait;
* **`Batch`**, **`Batch.step`** — how far it has come with the tasks that it found, after every event;
* **`Precedence`**, **`precedence_run`** — what workers take and what a single one starts, for every run of a
  system that begins with idle workers.
-/

namespace Linkage

variable {κ β ρ : Type}

namespace TaskSystem

variable {s s' : TaskSystem κ β ρ} {past : List (Nat × TaskResult ρ)}
  {submitted batch : List (QueuedTask κ β)} {before started : List Nat}

/-! ## A single worker -/

/-- The tasks of a batch, as a single worker gets through them: those that it has started since, the one that
it has taken, and those that still wait, in this order. -/
def course (s : TaskSystem κ β ρ) (started : List Nat) : List Nat :=
  started ++ s.held ++ (Scheduler.inOrder s.scheduler.order s.scheduler.queue).map QueuedTask.id

/-- How far a single worker has come with the tasks of a `batch`, after having `started` the tasks that it
has. -/
structure Batch (order : κ → κ → Ordering) (batch : List (QueuedTask κ β)) (before started : List Nat)
    (s : TaskSystem κ β ρ) : Prop where
  compares : s.scheduler.order = order
  single : s.workers.length = 1
  below : ∀ t ∈ batch, t.id < s.scheduler.nextId
  starts : s.scheduler.starts = before ++ started
  /-- Other tasks may come in between. -/
  sorted : ((s.course started).filter (· ∈ batch.map QueuedTask.id)).Sublist
    ((Scheduler.inOrder order batch).map QueuedTask.id)
  left : s.scheduler.isShutDown = false → ∀ t ∈ batch,
    t.id ∈ started ∨ t.id ∈ s.held ∨ t ∈ s.scheduler.queue ∨ s.IsCancelled t.id

/-- One worker has taken one task at most. -/
theorem length_held_le (s : TaskSystem κ β ρ) : s.held.length ≤ s.workers.length :=
  List.length_filterMap_le _ _

/-- There is but one order of so few. -/
theorem eq_of_perm {ids ids' : List Nat} (h : ids.Perm ids') (hlength : ids'.length ≤ 1) : ids = ids' := by
  match ids' with
  | [] => exact h.eq_nil
  | [_] => exact List.perm_singleton.mp h

theorem eq_of_perm_cons {ids ids' : List Nat} {id : Nat} (h : ids.Perm (id :: ids'))
    (hlength : ids.length ≤ 1) : ids = [id] ∧ ids' = [] := by
  have hcons := h.length_eq
  rw [List.length_cons] at hcons
  have hnone : ids' = [] := List.length_eq_zero_iff.mp (by omega)
  subst hnone
  exact ⟨List.perm_singleton.mp h, rfl⟩

section Single

variable {order : κ → κ → Ordering} [Std.TransCmp order]

variable (order) in
/-- A task that comes in does not change the order of a batch that it does not belong to. -/
theorem filter_inOrder_accepted (hl : s.Lined submitted) (hs : s.Sound past)
    (hbelow : ∀ t ∈ batch, t.id < s.scheduler.nextId) (event : TaskStep κ β ρ) :
    (Scheduler.inOrder order (s.scheduler.queue ++ s.acceptedBy event)).filter
        (fun t => t.id ∈ batch.map QueuedTask.id) =
      (Scheduler.inOrder order s.scheduler.queue).filter fun t => t.id ∈ batch.map QueuedTask.id := by
  have hids : (s.scheduler.queue ++ s.acceptedBy event).Pairwise (·.id < ·.id) :=
    (hl.step hs event).ids.sublist (hl.queue.append (List.Sublist.refl _))
  have hnew : (s.acceptedBy event).filter (fun t => t.id ∈ batch.map QueuedTask.id) = [] := by
    refine List.filter_eq_nil_iff.mpr ?_
    intro u hu hmem
    obtain ⟨t, ht, hid⟩ := List.mem_map.mp (of_decide_eq_true hmem)
    have hlt := hbelow t ht
    rw [hid, (id_of_acceptedBy hu).1] at hlt
    omega
  rw [← Scheduler.inOrder_filter hids, ← Scheduler.inOrder_filter (hl.ids.sublist hl.queue),
    List.filter_append, hnew, List.append_nil]

/-- What goes from one place in the course to the next does not change it; what leaves it does not change the
order of the others. -/
theorem Lined.course_step (hl : s.Lined submitted) (hs : s.Sound past) (horder : s.scheduler.order = order)
    (hsingle : s.workers.length = 1) (hbelow : ∀ t ∈ batch, t.id < s.scheduler.nextId)
    (started : List Nat) (event : TaskStep κ β ρ) :
    ∃ more, (s.step event).scheduler.starts = s.scheduler.starts ++ more ∧
      (((s.step event).course (started ++ more)).filter (· ∈ batch.map QueuedTask.id)).Sublist
        ((s.course started).filter (· ∈ batch.map QueuedTask.id)) := by
  have hids := hl.ids.sublist hl.queue
  have hheld : s.held.length ≤ 1 := hsingle ▸ s.length_held_le
  have hheld' : (s.step event).held.length ≤ 1 := by
    have hlength := (s.step event).length_held_le
    rw [(s.order_step event).2, hsingle] at hlength
    exact hlength
  unfold course
  rw [(s.order_step event).1, horder]
  cases hs.serves event with
  | quiet hqueue hstarts hperm =>
      refine ⟨[], by rw [hstarts, List.append_nil], ?_⟩
      rw [hqueue, eq_of_perm hperm hheld, List.append_nil]
  | accepts hqueue _ hstarts hperm =>
      -- the task that comes in may go before some of the batch, but it is not one of them
      refine ⟨[], by rw [hstarts, List.append_nil], ?_⟩
      have hsame := congrArg (List.map QueuedTask.id) (filter_inOrder_accepted order hl hs hbelow event)
      rw [hqueue, eq_of_perm hperm hheld, List.append_nil, List.filter_append,
        List.filter_append _ (List.map _ (Scheduler.inOrder order s.scheduler.queue)),
        List.filter_map, List.filter_map]
      exact (List.Sublist.refl _).append (hsame ▸ List.Sublist.refl _)
  | takes t hfirst hqueue hstarts hperm =>
      -- the worker has nothing else in its hands, so the first that waits comes right behind those started
      refine ⟨[], by rw [hstarts, List.append_nil], ?_⟩
      obtain ⟨htaken, hnone⟩ := eq_of_perm_cons hperm hheld'
      rw [horder] at hfirst
      rw [hqueue, htaken, hnone, Scheduler.inOrder_of_first? hids hfirst]
      simp
  | starts id hqueue hstarts hperm =>
      refine ⟨[id], hstarts, ?_⟩
      obtain ⟨htaken, hnone⟩ := eq_of_perm_cons hperm hheld
      rw [hqueue, hnone, htaken, List.append_nil]
  | refuses id hqueue hstarts hperm =>
      refine ⟨[], by rw [hstarts, List.append_nil], ?_⟩
      rw [hqueue, (eq_of_perm_cons hperm hheld).2, List.append_nil, List.append_nil, List.append_assoc]
      exact ((List.sublist_append_right ..).append_left _).filter _
  | withdraws call id hcall hqueue hstarts hperm =>
      refine ⟨[], by rw [hstarts, List.append_nil], ?_⟩
      rw [hqueue, eq_of_perm hperm hheld, List.append_nil, Scheduler.inOrder_filter hids]
      exact ((List.filter_sublist.map _).append_left _).filter _
  | drains hqueue hdown hstarts hperm =>
      refine ⟨[], by rw [hstarts, List.append_nil], ?_⟩
      rw [hqueue, eq_of_perm hperm hheld, List.append_nil,
        List.perm_nil.mp (Scheduler.perm_inOrder order [])]
      exact ((List.nil_sublist _).append_left _).filter _

/-- Every task of the batch is somewhere, unless it is cancelled. -/
theorem left_step (hs : s.Sound past) (hf : s.Flagged) {event : TaskStep κ β ρ} {more : List Nat}
    (hstarts : (s.step event).scheduler.starts = s.scheduler.starts ++ more)
    (hopen : (s.step event).scheduler.isShutDown = false) {t : QueuedTask κ β}
    (ht : t.id ∈ started ∨ t.id ∈ s.held ∨ t ∈ s.scheduler.queue ∨ s.IsCancelled t.id) :
    t.id ∈ started ++ more ∨ t.id ∈ (s.step event).held ∨ t ∈ (s.step event).scheduler.queue ∨
      (s.step event).IsCancelled t.id := by
  rcases ht with hstarted | hheld | hwaits | hcancelled
  · exact Or.inl (List.mem_append_left _ hstarted)
  · cases hs.serves event with
    | quiet _ _ hperm | accepts _ _ _ hperm | withdraws _ _ _ _ _ hperm =>
        exact Or.inr (Or.inl (hperm.mem_iff.mpr hheld))
    | takes _ _ _ _ hperm =>
        exact Or.inr (Or.inl (hperm.mem_iff.mpr (List.mem_cons_of_mem _ hheld)))
    | starts id _ hbegun hperm =>
        rcases List.mem_cons.mp (hperm.mem_iff.mp hheld) with hid | hheld
        · have hmore : more = [id] := List.append_cancel_left (hstarts.symm.trans hbegun)
          rw [hmore, hid]
          exact Or.inl (List.mem_append_right _ List.mem_cons_self)
        · exact Or.inr (Or.inl hheld)
    | refuses id _ _ hperm hcancelled =>
        rcases List.mem_cons.mp (hperm.mem_iff.mp hheld) with hid | hheld
        · rw [hid]
          exact Or.inr (Or.inr (Or.inr hcancelled))
        · exact Or.inr (Or.inl hheld)
    | drains _ hdown =>
        rw [hdown] at hopen
        cases hopen
  · cases hs.serves event with
    | quiet hqueue | starts _ hqueue | refuses _ hqueue =>
        rw [hqueue]
        exact Or.inr (Or.inr (Or.inl hwaits))
    | accepts hqueue =>
        rw [hqueue]
        exact Or.inr (Or.inr (Or.inl (List.mem_append_left _ hwaits)))
    | takes u _ hqueue _ hperm =>
        by_cases hid : t.id = u.id
        · exact Or.inr (Or.inl (hperm.mem_iff.mpr (hid ▸ List.mem_cons_self)))
        · rw [hqueue]
          exact Or.inr (Or.inr (Or.inl (List.mem_filter.mpr ⟨hwaits, decide_eq_true hid⟩)))
    | withdraws call id hcall hqueue =>
        -- who takes it out of the queue has cancelled it before
        by_cases hid : t.id = id
        · rw [hid]
          exact Or.inr (Or.inr (Or.inr (hs.isCancelled_step (hf.flipped call id hcall) event)))
        · rw [hqueue]
          exact Or.inr (Or.inr (Or.inl (List.mem_filter.mpr ⟨hwaits, decide_eq_true hid⟩)))
    | drains _ hdown =>
        rw [hdown] at hopen
        cases hopen
  · exact Or.inr (Or.inr (Or.inr (hs.isCancelled_step hcancelled event)))

/-- A scheduler that is open was so before. -/
theorem Sound.open_of_step (hs : s.Sound past) {event : TaskStep κ β ρ}
    (hopen : (s.step event).scheduler.isShutDown = false) : s.scheduler.isShutDown = false := by
  by_contra hdown
  have hclosed : (s.step event).scheduler.isShutDown = true :=
    hs.isShutDown_run (Bool.not_eq_false _ ▸ hdown) [event]
  rw [hclosed] at hopen
  cases hopen

/-- The worker goes on. -/
theorem Batch.step (h : s.Batch order batch before started) (hl : s.Lined submitted) (hs : s.Sound past)
    (hf : s.Flagged) (event : TaskStep κ β ρ) :
    ∃ started', (s.step event).Batch order batch before started' := by
  obtain ⟨more, hstarts, hcourse⟩ :=
    hl.course_step hs h.compares h.single h.below started event
  refine ⟨started ++ more, ?_, ?_, ?_, ?_, hcourse.trans h.sorted, ?_⟩
  · exact (s.order_step event).1.trans h.compares
  · exact (s.order_step event).2.trans h.single
  · intro t ht
    exact Nat.lt_of_lt_of_le (h.below t ht) (hs.nextId_le_step event)
  · rw [hstarts, h.starts, List.append_assoc]
  · intro hopen t ht
    exact left_step hs hf hstarts hopen (h.left (hs.open_of_step hopen) t ht)

theorem Batch.run (h : s.Batch order batch before started) (hl : s.Lined submitted) (hs : s.Sound past)
    (hf : s.Flagged) (later : List (TaskStep κ β ρ)) :
    ∃ started', (s.run later).Batch order batch before started' := by
  induction later generalizing s past submitted started with
  | nil => exact ⟨started, h⟩
  | cons event rest ih =>
      obtain ⟨started', h'⟩ := h.step hl hs hf event
      exact ih h' (hl.step hs event) (hs.step event) (hf.step hs event)

/-- A task that a worker has taken does not wait. -/
theorem Sound.not_mem_queue_of_held (hs : s.Sound past) {id : Nat} (hheld : id ∈ s.held) :
    id ∉ s.scheduler.queue.map QueuedTask.id := by
  intro hmem
  obtain ⟨t, hwaits, rfl⟩ := List.mem_map.mp hmem
  obtain ⟨stage, hstage, hholds⟩ := List.mem_filterMap.mp hheld
  have hholding : stage = .holding t.id := by
    cases stage with
    | holding _ => exact congrArg WorkerStage.holding (Option.some.inj hholds)
    | _ => cases hholds
  have hworker : 0 < s.workers.count (.holding t.id) := List.count_pos_iff.mpr (hholding ▸ hstage)
  have hqueue := waiting_pos hwaits
  have htwice : 1 < s.queued t.id := by
    unfold queued
    omega
  obtain ⟨tells, cancelled, hlife⟩ := hs.life_of_queued (Nat.zero_lt_of_lt htwice)
  have honce : s.queued t.id = 1 := congrArg (·.queued) hlife
  omega

omit [Std.TransCmp order] in
/-- A single worker finds the tasks that wait. -/
theorem Lined.finds (hl : s.Lined submitted) (hs : s.Sound past) (horder : s.scheduler.order = order)
    (hsingle : s.workers.length = 1) :
    s.Batch order s.scheduler.queue s.scheduler.starts [] where
  compares := horder
  single := hsingle
  below t ht := hl.below t (hl.queue.subset ht)
  starts := (List.append_nil _).symm
  sorted := by
    have hnone : s.held.filter (· ∈ s.scheduler.queue.map QueuedTask.id) = [] := by
      refine List.filter_eq_nil_iff.mpr ?_
      intro id hid hwaits
      exact hs.not_mem_queue_of_held hid (of_decide_eq_true hwaits)
    unfold course
    rw [List.nil_append, List.filter_append, hnone, List.nil_append, horder]
    exact List.filter_sublist
  left _ t ht := Or.inr (Or.inr (Or.inl ht))

/-- A task that is cancelled as long as it waits does not start. -/
theorem Sound.not_started_of_cancelled (hs : s.Sound past) {t : QueuedTask κ β} (ht : t ∈ s.scheduler.queue)
    (hcancelled : s.IsCancelled t.id) (later : List (TaskStep κ β ρ)) :
    t.id ∉ (s.run later).scheduler.starts := by
  obtain ⟨tells, cancelled, hlife⟩ := hs.life_of_waiting ht
  obtain ⟨known, hknown, hflag⟩ := hcancelled
  obtain ⟨known', hknown', hview⟩ := task_of_life hlife
  rw [hknown, Option.some.injEq] at hknown'
  subst hknown'
  have hbarred : (⟨.queued, tells, cancelled⟩ : TaskLife ρ).Barred :=
    (TaskLife.cancelled_of_view hview).symm.trans hflag
  intro hmem
  obtain ⟨event, hevent, hid⟩ := List.mem_filterMap.mp hmem
  cases event with
  | started id =>
      cases hid
      exact (hs.neverRuns hlife hbarred later).1 hevent
  | progressed _ _ | ended _ _ => cases hid

end Single

/-! ## The order of tasks -/

/-- What tasks can count on in a system that has accepted the tasks `submitted`, in this order. -/
structure Precedence (order : κ → κ → Ordering) (s : TaskSystem κ β ρ)
    (submitted : List (QueuedTask κ β)) : Prop where
  /-- Tasks wait in order of submission. -/
  queue : s.scheduler.queue.Sublist submitted
  ids : submitted.Pairwise (·.id < ·.id)
  /-- An idle worker takes a task if there is one. None that is left has a greater key, and those with an equal
  key were submitted later. -/
  pops : ∀ worker, s.workers[worker]? = some .idle → s.scheduler.isShutDown = false →
    s.scheduler.queue ≠ [] → ∃ t,
      (s.step (.pop worker)).workers = s.workers.set worker (.holding t.id) ∧
      s.scheduler.queue.Perm (t :: (s.step (.pop worker)).scheduler.queue) ∧
      (s.step (.pop worker)).scheduler.queue.Sublist s.scheduler.queue ∧
      ∀ u ∈ (s.step (.pop worker)).scheduler.queue,
        order t.key u.key = .gt ∨ order t.key u.key = .eq ∧ [t, u].Sublist submitted
  /-- A worker starts the task that it has taken unless this is cancelled. -/
  begins : ∀ worker id, s.workers[worker]? = some (.holding id) →
    (s.step (.start worker)).scheduler.starts = s.scheduler.starts ++ [id] ∨
      (s.step (.start worker)).IsCancelled id
  /-- A call that cancels a task takes no other out of the queue, and changes the order of none. -/
  withdraws : ∀ call id, s.cancels.get? call = some (.flipped id) →
    (s.step (.advance call)).scheduler.queue = s.scheduler.queue.filter (·.id ≠ id) ∧
    Scheduler.inOrder order (s.step (.advance call)).scheduler.queue =
      (Scheduler.inOrder order s.scheduler.queue).filter (·.id ≠ id)
  /-- In no other way does a task come into the queue or leave it. -/
  serves : ∀ event, s.Serves event (s.step event)
  /-- A heap of the tasks that wait has the one that goes first as its greatest, however it is arranged. -/
  heaps : ∀ heap : List (QueuedTask κ β), heap.Perm s.scheduler.queue →
    (∀ t, Scheduler.first? order s.scheduler.queue = some t ↔
      t ∈ heap ∧ ∀ u ∈ heap, QueuedTask.cmp order u t ≠ .gt) ∧
    ∀ id, (Scheduler.takeTask heap id).1 = s.scheduler.queue.find? (·.id == id) ∧
      (Scheduler.takeTask heap id).2.Perm (s.scheduler.queue.filter (·.id ≠ id))
  /-- A single worker starts the tasks that it finds in their order. It starts none that is cancelled when it
  finds them, and as long as the scheduler is open it leaves none out but those that are cancelled. -/
  batch : s.workers.length = 1 → ∀ later, ∃ started,
    (s.run later).scheduler.starts = s.scheduler.starts ++ started ∧
    (started.filter (· ∈ s.scheduler.queue.map QueuedTask.id)).Sublist
      ((Scheduler.inOrder order s.scheduler.queue).map QueuedTask.id) ∧
    (∀ t ∈ s.scheduler.queue, s.IsCancelled t.id → t.id ∉ started) ∧
    ((s.run later).scheduler.isShutDown = false → ∀ t ∈ s.scheduler.queue,
      t.id ∈ started ∨ t.id ∈ (s.run later).held ∨ t ∈ (s.run later).scheduler.queue ∨
        (s.run later).IsCancelled t.id)

/-- Of two tasks the one with the smaller number was submitted first. -/
theorem pair_sublist {t u : QueuedTask κ β} (hids : submitted.Pairwise (·.id < ·.id)) (ht : t ∈ submitted)
    (hu : u ∈ submitted) (hlt : t.id < u.id) : [t, u].Sublist submitted := by
  induction submitted with
  | nil => cases ht
  | cons head rest ih =>
      obtain ⟨hlater, hrest⟩ := List.pairwise_cons.mp hids
      rcases List.mem_cons.mp ht with rfl | ht' <;> rcases List.mem_cons.mp hu with rfl | hu'
      · exact absurd hlt (Nat.lt_irrefl _)
      · exact (List.singleton_sublist.mpr hu').cons_cons t
      · exact absurd (hlater t ht') (Nat.lt_asymm hlt)
      · exact (ih hrest ht' hu').cons head

section Precedence

variable {order : κ → κ → Ordering} [Std.TransCmp order]

theorem Lined.pops (hl : s.Lined submitted) (horder : s.scheduler.order = order) {worker : Nat}
    (hidle : s.workers[worker]? = some .idle) (hopen : s.scheduler.isShutDown = false)
    (hqueue : s.scheduler.queue ≠ []) :
    ∃ t, (s.step (.pop worker)).workers = s.workers.set worker (.holding t.id) ∧
      s.scheduler.queue.Perm (t :: (s.step (.pop worker)).scheduler.queue) ∧
      (s.step (.pop worker)).scheduler.queue.Sublist s.scheduler.queue ∧
      ∀ u ∈ (s.step (.pop worker)).scheduler.queue,
        order t.key u.key = .gt ∨ order t.key u.key = .eq ∧ [t, u].Sublist submitted := by
  have hids := hl.ids.sublist hl.queue
  obtain ⟨t, hfirst⟩ : ∃ t, Scheduler.first? order s.scheduler.queue = some t :=
    Option.ne_none_iff_exists'.mp fun hnone => hqueue (Scheduler.first?_eq_none.mp hnone)
  obtain ⟨hmem, hbefore⟩ := Scheduler.first?_spec hids hfirst
  have hgoes : Scheduler.first? s.scheduler.order s.scheduler.queue = some t := by
    rw [horder]
    exact hfirst
  have hpop := Scheduler.pop_eq_some_iff.mpr ⟨hopen, hgoes, rfl⟩
  simp only [TaskSystem.step, hidle, hpop]
  refine ⟨t, rfl, Scheduler.perm_cons_filter hids hmem, List.filter_sublist, ?_⟩
  intro u hu
  obtain ⟨hwaits, hne⟩ := List.mem_filter.mp hu
  refine (hbefore u hwaits ?_).imp_right ?_
  · rintro rfl
    simp at hne
  · rintro ⟨heq, hlt⟩
    exact ⟨heq, pair_sublist hl.ids (hl.queue.subset hmem) (hl.queue.subset hwaits) hlt⟩

theorem Lined.withdraws (hl : s.Lined submitted) {call id : Nat}
    (hcall : s.cancels.get? call = some (.flipped id)) :
    (s.step (.advance call)).scheduler.queue = s.scheduler.queue.filter (·.id ≠ id) ∧
      Scheduler.inOrder order (s.step (.advance call)).scheduler.queue =
        (Scheduler.inOrder order s.scheduler.queue).filter (·.id ≠ id) := by
  have hqueue : (s.step (.advance call)).scheduler.queue = s.scheduler.queue.filter (·.id ≠ id) := by
    simp only [TaskSystem.step, hcall]
    by_cases hthere : s.scheduler.queue.any (·.id == id) = true
    · simp only [advance, Scheduler.withdraw, hthere]
    · simp only [advance, Scheduler.withdraw, Bool.not_eq_true _ ▸ hthere]
      refine (List.filter_eq_self.mpr ?_).symm
      intro t ht
      refine decide_eq_true ?_
      intro hid
      exact hthere (List.any_eq_true.mpr ⟨t, ht, by simp [hid]⟩)
  rw [hqueue]
  exact ⟨rfl, Scheduler.inOrder_filter (hl.ids.sublist hl.queue) _⟩

theorem Lined.precedence (hl : s.Lined submitted) (hs : s.Sound past) (hf : s.Flagged)
    (horder : s.scheduler.order = order) : s.Precedence order submitted where
  queue := hl.queue
  ids := hl.ids
  pops worker hidle hopen hqueue := hl.pops horder hidle hopen hqueue
  begins worker id hholding := (hs.start_cases hholding).2.imp And.left (·.2.2)
  withdraws call id hcall := hl.withdraws hcall
  serves event := hs.serves event
  heaps heap hheap := by
    have hids := hl.ids.sublist hl.queue
    exact ⟨fun t => Scheduler.first?_eq_some_iff hids hheap, fun id => Scheduler.takeTask_perm hids hheap id⟩
  batch hsingle later := by
    obtain ⟨started, hbatch⟩ := (hl.finds hs horder hsingle).run hl hs hf later
    refine ⟨started, hbatch.starts, ?_, ?_, hbatch.left⟩
    · refine List.Sublist.trans (List.Sublist.filter _ ?_) hbatch.sorted
      unfold course
      rw [List.append_assoc]
      exact List.sublist_append_left _ _
    · intro t ht hcancelled hmem
      refine hs.not_started_of_cancelled ht hcancelled later ?_
      rw [hbatch.starts]
      exact List.mem_append_right _ hmem

theorem order_run (s : TaskSystem κ β ρ) (events : List (TaskStep κ β ρ)) :
    (s.run events).scheduler.order = s.scheduler.order := by
  induction events generalizing s with
  | nil => rfl
  | cons event rest ih => exact (ih (s.step event)).trans (s.order_step event).1

/-- However many workers there are and whatever is submitted, cancelled and taken, in whatever order: who takes
a task takes the one with the greatest key, of several with equal keys the one that was submitted first. -/
theorem precedence_run (order : κ → κ → Ordering) [Std.TransCmp order] (workers : Nat)
    (events : List (TaskStep κ β ρ)) :
    ((ofWorkers order workers : TaskSystem κ β ρ).run events).Precedence order
      ((ofWorkers order workers : TaskSystem κ β ρ).accepted events) := by
  have hlined := (lined_ofWorkers order workers).run (sound_ofWorkers order workers) events
  have hflagged := (flagged_ofWorkers order workers).run (sound_ofWorkers order workers) events
  exact hlined.precedence (sound_run order workers events) hflagged
    (order_run (ofWorkers order workers) events)

/-- Keys that are numbers. The task with the second number is cancelled before anyone takes it. -/
theorem precedence_compare :
    Std.TransCmp (compare : Nat → Nat → Ordering) ∧
      ((ofWorkers compare 1 : TaskSystem Nat Unit Unit).run
        [.submit "a" 4 () true, .submit "b" 7 () true, .submit "c" 7 () true, .cancel 0 2, .advance 0,
          .advance 0]).Precedence compare [⟨1, 4, ()⟩, ⟨2, 7, ()⟩, ⟨3, 7, ()⟩] :=
  ⟨inferInstance, precedence_run compare 1 _⟩

/-- A single worker finds four tasks, of which one is cancelled. -/
example : ((ofWorkers compare 1 : TaskSystem Nat Unit Unit).run
    ([.submit "a" 4 () true, .submit "b" 7 () true, .submit "c" 7 () true, .submit "d" 7 () true,
        .cancel 0 3, .advance 0, .advance 0] ++
      (List.replicate 3 [.pop 0, .start 0, .finish 0 (.error (.failed "")), .retire 0]).flatten)
    ).scheduler.starts = [2, 4, 1] := by
  rfl

end Precedence

end TaskSystem

end Linkage

import Linkage.Proofs.Task.Queue

/-!
# Tasks that are cancelled

A call that cancels a task cancels its token first and takes it out of the queue then. Whatever else happens
in between, the token stays cancelled.

* **`Sound.isCancelled_step`** — a task that is cancelled stays so;
* **`Flagged`**, **`Flagged.step`** — a call that takes a task out of the queue has cancelled its token.
-/

namespace Linkage

variable {κ β ρ : Type}

namespace TaskLife

/-- A token stays cancelled. -/
theorem Next.cancelled_of {life life' : TaskLife ρ} (h : life.Next life') (hcancelled : life.cancelled = true) :
    life'.cancelled = true := by
  cases h with
  | cancelled | refused => rfl
  | started => cases hcancelled
  | _ => exact hcancelled

theorem cancelled_of_view {life : TaskLife ρ} {v : TaskView ρ}
    (hv : life.standing.sight.view = some v) : v.cancelled = life.cancelled := by
  match life with
  | ⟨.queued, _, _⟩ | ⟨.removed, _, _⟩ | ⟨.executing, _, _⟩ | ⟨.ended _ _, _, _⟩ =>
      injection hv with hv
      rw [← hv]

end TaskLife

namespace TaskSystem

variable {s s' : TaskSystem κ β ρ} {past : List (Nat × TaskResult ρ)}
  {submitted batch : List (QueuedTask κ β)} {before started : List Nat}

/-! ## Tasks that are cancelled -/

theorem Sound.isCancelled_step (hs : s.Sound past) {id : Nat} (h : s.IsCancelled id)
    (event : TaskStep κ β ρ) : (s.step event).IsCancelled id := by
  obtain ⟨t, ht, hcancelled⟩ := h
  obtain ⟨life, hlife, hview⟩ := hs.life_of_task ht
  obtain ⟨life', hlife', hgoes⟩ := (hs.step_lives event).2 id life hlife
  obtain ⟨t', ht', hview'⟩ := task_of_life hlife'
  have hbefore : life.cancelled = true :=
    (TaskLife.cancelled_of_view hview).symm.trans hcancelled
  exact ⟨t', ht', (TaskLife.cancelled_of_view hview').trans (hgoes.cancelled_of hbefore)⟩

/-- Only tasks that were accepted are cancelled, and who takes one out of the queue has cancelled its token. -/
structure Flagged (s : TaskSystem κ β ρ) : Prop where
  active : ∀ id ∈ s.active, s.IsKnown id
  called : ∀ call id, s.cancels.get? call = some (.called id) → s.IsKnown id
  flipped : ∀ call id, s.cancels.get? call = some (.flipped id) → s.IsCancelled id

/-- A call that comes in begins with the task that it is for. -/
theorem cancels_enter {call call' id : Nat} {stage : CancelStage}
    (h : (s.enter call' id).cancels.get? call = some stage) :
    s.cancels.get? call = some stage ∨ stage = .called id := by
  unfold enter at h
  split at h
  · exact Or.inl h
  · rcases Table.get?_put_cases h with ⟨-, rfl⟩ | ⟨-, hold⟩
    · exact Or.inr rfl
    · exact Or.inl hold

/-- Where the calls that cancel tasks are after an event. -/
theorem cancels_step {event : TaskStep κ β ρ} {call : Nat} {stage : CancelStage}
    (h : (s.step event).cancels.get? call = some stage) :
    s.cancels.get? call = some stage ∨
      (∃ id, stage = .called id ∧ (s.IsKnown id ∨ id ∈ s.active)) ∨
      (∃ id, stage = .flipped id ∧ s.cancels.get? call = some (.called id) ∧ event = .advance call) ∨
      stage.withdrawn?.isSome = true := by
  cases event with
  | elapse ms | limit timeout | listen => exact Or.inl h
  | submit name key body tells | pop worker | start worker | raise worker fraction | poll worker
  | finish worker result | retire worker | leave worker | shutDown =>
      refine Or.inl ?_
      simp only [TaskSystem.step, TaskSystem.submit] at h
      split at h <;> exact h
  | cancel call' id =>
      simp only [TaskSystem.step] at h
      split at h
      · rename_i hknown
        rcases cancels_enter h with hold | rfl
        · exact Or.inl hold
        · exact Or.inr (Or.inl ⟨id, rfl, Or.inl (Option.isSome_iff_exists.mp hknown)⟩)
      · exact Or.inl h
  | cancelActive call' id =>
      simp only [TaskSystem.step] at h
      split at h
      · rename_i hactive
        rcases cancels_enter h with hold | rfl
        · exact Or.inl hold
        · exact Or.inr (Or.inl ⟨id, rfl, Or.inr (by simpa using hactive)⟩)
      · exact Or.inl h
  | advance call' =>
      rcases hcall : s.cancels.get? call' with _ | before
      · simp only [TaskSystem.step, hcall] at h
        exact Or.inl h
      · simp only [TaskSystem.step, hcall] at h
        cases before with
        | called id =>
            rcases Table.get?_put_cases h with ⟨rfl, rfl⟩ | ⟨-, hold⟩
            · exact Or.inr (Or.inr (Or.inl ⟨id, rfl, hcall, rfl⟩))
            · exact Or.inl hold
        | flipped id =>
            rcases s.advance_flipped call' id with ⟨-, heq⟩ | heq <;> rw [heq] at h
            · rcases Table.get?_put_cases h with ⟨-, rfl⟩ | ⟨-, hold⟩
              · exact Or.inr (Or.inr (Or.inr rfl))
              · exact Or.inl hold
            · exact Or.inl (Table.get?_erase_cases h).2
        | withdrawn id =>
            rcases Table.get?_put_cases h with ⟨-, rfl⟩ | ⟨-, hold⟩
            · exact Or.inr (Or.inr (Or.inr rfl))
            · exact Or.inl hold
        | dropped id => exact Or.inl (Table.get?_erase_cases h).2
  | proceed =>
      refine Or.inl ?_
      simp only [TaskSystem.step] at h
      split at h
      · rename_i stage' _
        cases stage' with
        | ending waiting => cases waiting <;> exact h
        | telling active => cases active <;> exact h
        | dropped _ _ | returned => exact h
        | joining =>
            simp only [TaskSystem.proceed] at h
            split at h <;> exact h
      · exact h

/-- A task counts as active only if it did before or has been accepted. -/
theorem active_step {event : TaskStep κ β ρ} {id : Nat} (h : id ∈ (s.step event).active) :
    id ∈ s.active ∨ (s.step event).IsKnown id := by
  cases event with
  | elapse ms | limit timeout | listen => exact Or.inl h
  | submit name key body tells =>
      by_cases hdown : s.scheduler.isShutDown = true
      · refine Or.inl ?_
        simpa [TaskSystem.step, TaskSystem.submit, Scheduler.submit, hdown] using h
      · simp only [TaskSystem.step, TaskSystem.submit, Scheduler.submit, hdown] at h
        rcases List.mem_append.mp h with hold | hnew
        · exact Or.inl hold
        · refine Or.inr ?_
          rw [List.mem_singleton.mp hnew]
          simp [IsKnown, TaskSystem.step, TaskSystem.submit, Scheduler.submit, hdown]
  | pop worker | start worker | raise worker fraction | poll worker | finish worker result
  | leave worker | shutDown =>
      refine Or.inl ?_
      simp only [TaskSystem.step] at h
      split at h <;> exact h
  | retire worker =>
      refine Or.inl ?_
      simp only [TaskSystem.step] at h
      split at h
      · exact List.mem_of_mem_filter h
      · exact h
  | cancel call id' | cancelActive call id' =>
      refine Or.inl ?_
      simp only [TaskSystem.step, TaskSystem.enter] at h
      repeat' split at h
      all_goals exact h
  | advance call =>
      refine Or.inl ?_
      simp only [TaskSystem.step] at h
      split at h
      · rename_i stage _
        cases stage with
        | called _ | dropped _ => exact h
        | flipped id' =>
            rcases s.advance_flipped call id' with ⟨-, heq⟩ | heq <;> rw [heq] at h <;> exact h
        | withdrawn _ => exact List.mem_of_mem_filter h
      · exact h
  | proceed =>
      refine Or.inl ?_
      simp only [TaskSystem.step] at h
      split at h
      · rename_i stage _
        cases stage with
        | ending waiting =>
            cases waiting with
            | nil => exact h
            | cons _ _ => exact List.mem_of_mem_filter h
        | telling active => cases active <;> exact h
        | dropped _ _ | returned => exact h
        | joining =>
            simp only [TaskSystem.proceed] at h
            split at h <;> exact h
      · exact h

/-- Every event keeps it so. -/
theorem Flagged.step (h : s.Flagged) (hs : s.Sound past) (event : TaskStep κ β ρ) :
    (s.step event).Flagged where
  active id hid := by
    rcases active_step hid with hid | hknown
    · exact hs.isKnown_step (h.active id hid) event
    · exact hknown
  called call id hcall := by
    rcases cancels_step hcall with hold | ⟨id', heq, hknown⟩ | ⟨id', heq, -⟩ | hwithdrawn
    · exact hs.isKnown_step (h.called call id hold) event
    · injection heq with heq
      subst heq
      exact hs.isKnown_step (hknown.elim (fun h => h) (h.active id)) event
    · cases heq
    · cases hwithdrawn
  flipped call id hcall := by
    rcases cancels_step hcall with hold | ⟨id', heq, -⟩ | ⟨id', heq, hcalled, rfl⟩ | hwithdrawn
    · exact hs.isCancelled_step (h.flipped call id hold) event
    · cases heq
    · injection heq with heq
      subst heq
      obtain ⟨t, ht⟩ := h.called call id hcalled
      have hstep : s.step (.advance call) = s.advance call (.called id) := by
        simp only [TaskSystem.step, hcalled]
      rw [hstep]
      refine ⟨{ t with token := t.token.cancel Scheduler.byRequest }, ?_, Token.isCancelled_cancel _ _⟩
      show (s.scheduler.tasks.modify id _).get? id = _
      rw [Table.get?_modify, if_pos rfl, ht]
      rfl
    · cases hwithdrawn

theorem Flagged.run (h : s.Flagged) (hs : s.Sound past) (events : List (TaskStep κ β ρ)) :
    (s.run events).Flagged := by
  induction events generalizing s past with
  | nil => exact h
  | cons event rest ih => exact ih (h.step hs event) (hs.step event)

theorem flagged_ofWorkers (order : κ → κ → Ordering) (workers : Nat) :
    (ofWorkers order workers : TaskSystem κ β ρ).Flagged where
  active id hid := by cases hid
  called call id hcall := by cases hcall
  flipped call id hcall := by cases hcall

end TaskSystem

end Linkage

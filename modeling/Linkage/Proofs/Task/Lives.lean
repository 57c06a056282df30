import Linkage.Proofs.Task.Sights

/-!
# The lives of tasks

A task is queued until it is removed from the queue to be aborted, or started by a worker, and it ends
once. What is to be seen of a task, where it is, and how it has ended go together: all of it follows
from the point of its life that the task has reached.

* **`TaskLife`** — the points of a life, with what is then to be seen (`TaskLife.standing`);
* **`TaskLife.Next`** — how a life goes on: the only ways there are;
* **`Sound`** — in a system every task that was accepted stands at a point of its life;
* **`LivesOn`** — from one system to another every task goes from a point of its life to a next one;
* **`Sound.of_livesOn`** — and the system stays in order then.

The ends of tasks are not part of a system; `ended` reads them off a run.
-/

namespace Linkage

variable {κ β ρ : Type}

/-- What is to be seen of a task, in how many places it is, and what it has come to. -/
structure Standing (ρ : Type) where
  sight : TaskSight ρ
  /-- In the queue, or with a worker that has not started it. -/
  queued : Nat
  /-- With a call that is to abort it. -/
  removed : Nat
  /-- With a worker that executes it. -/
  executing : Nat
  ends : List (TaskResult ρ)

/-- Where a task stands that was not accepted. -/
def Standing.unknown : Standing ρ := ⟨⟨none, 0, []⟩, 0, 0, 0, []⟩

/-- The points of a life. -/
inductive LifeStage (ρ : Type) where
  | queued
  | removed
  | executing
  | ended (result : TaskResult ρ) (started : Bool)

/-- A point of the life of a task. -/
structure TaskLife (ρ : Type) where
  stage : LifeStage ρ
  tellsResult : Bool
  /-- Whether its token is cancelled. -/
  cancelled : Bool

namespace TaskLife

/-- Where a task stands at a point of its life. -/
def standing : TaskLife ρ → Standing ρ
  | ⟨.queued, tells, cancelled⟩ => ⟨⟨some ⟨.queued, none, cancelled, tells⟩, 0, []⟩, 1, 0, 0, []⟩
  | ⟨.removed, tells, cancelled⟩ => ⟨⟨some ⟨.queued, none, cancelled, tells⟩, 0, []⟩, 0, 1, 0, []⟩
  | ⟨.executing, tells, cancelled⟩ =>
    ⟨⟨some ⟨.running, none, cancelled, tells⟩, 1, []⟩, 0, 0, 1, []⟩
  | ⟨.ended result started, tells, cancelled⟩ =>
    ⟨⟨some ⟨.ofResult result, some result, cancelled, tells⟩, started.toNat,
      if tells then [result] else []⟩, 0, 0, 0, [result]⟩

/-- How a life goes on in one step. -/
inductive Next : TaskLife ρ → TaskLife ρ → Prop
  | stay (life : TaskLife ρ) : Next life life
  | cancelled (stage : LifeStage ρ) (tells cancelled : Bool) :
      Next ⟨stage, tells, cancelled⟩ ⟨stage, tells, true⟩
  | removed (tells cancelled : Bool) :
      Next ⟨.queued, tells, cancelled⟩ ⟨.removed, tells, cancelled⟩
  | started (tells : Bool) : Next ⟨.queued, tells, false⟩ ⟨.executing, tells, false⟩
  /-- A worker comes to a task whose token is cancelled. -/
  | refused (tells cancelled : Bool) (e : TaskError) :
      Next ⟨.queued, tells, cancelled⟩ ⟨.ended (.error e) false, tells, true⟩
  | aborted (tells cancelled : Bool) (e : TaskError) :
      Next ⟨.removed, tells, cancelled⟩ ⟨.ended (.error e) false, tells, cancelled⟩
  | finished (tells cancelled : Bool) (result : TaskResult ρ) :
      Next ⟨.executing, tells, cancelled⟩ ⟨.ended result true, tells, cancelled⟩

/-! ## Telling the point of a life from where a task stands -/

theorem eq_queued {life : TaskLife ρ} (h : 0 < life.standing.queued) :
    ∃ tells cancelled, life = ⟨.queued, tells, cancelled⟩ := by
  match life with
  | ⟨.queued, tells, cancelled⟩ => exact ⟨tells, cancelled, rfl⟩
  | ⟨.removed, _, _⟩ | ⟨.executing, _, _⟩ | ⟨.ended _ _, _, _⟩ => cases h

theorem eq_removed {life : TaskLife ρ} (h : 0 < life.standing.removed) :
    ∃ tells cancelled, life = ⟨.removed, tells, cancelled⟩ := by
  match life with
  | ⟨.removed, tells, cancelled⟩ => exact ⟨tells, cancelled, rfl⟩
  | ⟨.queued, _, _⟩ | ⟨.executing, _, _⟩ | ⟨.ended _ _, _, _⟩ => cases h

theorem eq_executing {life : TaskLife ρ} (h : 0 < life.standing.executing) :
    ∃ tells cancelled, life = ⟨.executing, tells, cancelled⟩ := by
  match life with
  | ⟨.executing, tells, cancelled⟩ => exact ⟨tells, cancelled, rfl⟩
  | ⟨.queued, _, _⟩ | ⟨.removed, _, _⟩ | ⟨.ended _ _, _, _⟩ => cases h

/-- Only an accepted task has a record. -/
theorem view_standing (life : TaskLife ρ) : life.standing.sight.view ≠ none := by
  match life with
  | ⟨.queued, _, _⟩ | ⟨.removed, _, _⟩ | ⟨.executing, _, _⟩ | ⟨.ended _ _, _, _⟩ =>
    exact Option.some_ne_none _

/-- Where a task stands tells the point of its life. -/
theorem standing_injective : Function.Injective (standing : TaskLife ρ → Standing ρ) := by
  rintro ⟨stage, tells, cancelled⟩ ⟨stage', tells', cancelled'⟩ h
  -- points of different kinds differ in the counts or in the result
  cases stage <;> cases stage' <;> simp only [standing, Standing.mk.injEq, TaskSight.mk.injEq,
    Option.some.injEq, TaskView.mk.injEq, reduceCtorEq, false_and, and_false, Nat.one_ne_zero,
    Nat.zero_ne_one] at h
  case ended.ended result started result' started' =>
    obtain ⟨⟨⟨-, hresult, hcancelled, htells⟩, hstarted, -⟩, -⟩ := h
    have hstarted : started = started' := by
      cases started <;> cases started' <;> first | rfl | cases hstarted
    rw [hresult, hcancelled, htells, hstarted]
  all_goals
    obtain ⟨⟨⟨-, -, hcancelled, htells⟩, -⟩, -⟩ := h
    rw [hcancelled, htells]

/-- A token that is cancelled changes nothing else. -/
theorem standing_cancel (life : TaskLife ρ) :
    ({ life with cancelled := true } : TaskLife ρ).standing =
      { life.standing with
        sight := life.standing.sight.modify fun v => { v with cancelled := true } } := by
  match life with
  | ⟨.queued, _, _⟩ | ⟨.removed, _, _⟩ | ⟨.executing, _, _⟩ | ⟨.ended _ _, _, _⟩ => rfl

end TaskLife

namespace TaskSystem

/-! ## Where tasks are -/

/-- The tasks that the call that shuts the scheduler down is to abort. -/
def shutWaiting (s : TaskSystem κ β ρ) : List Nat := (s.shutting.map (·.waiting)).getD []

/-- How often a task is in the queue, or with a worker that has not started it. -/
def queued (s : TaskSystem κ β ρ) (id : Nat) : Nat :=
  s.scheduler.queue.countP (·.id == id) + s.workers.count (.holding id)

/-- How often a task is with a call that is to abort it. -/
def removed (s : TaskSystem κ β ρ) (id : Nat) : Nat :=
  s.cancels.values.countP (·.withdrawn? == some id) + s.shutWaiting.count id

/-- How many workers execute a task. -/
def executing (s : TaskSystem κ β ρ) (id : Nat) : Nat := s.workers.count (.executing id)

/-- What a task has come to, every time that it ended. -/
def endsOf (past : List (Nat × TaskResult ρ)) (id : Nat) : List (TaskResult ρ) :=
  (past.filter (·.1 == id)).map Prod.snd

theorem endsOf_concat (past : List (Nat × TaskResult ρ)) (id : Nat) (result : TaskResult ρ)
    (other : Nat) : endsOf (past ++ [(id, result)]) other =
      endsOf past other ++ if other = id then [result] else [] := by
  unfold endsOf
  rw [List.filter_append, List.map_append]
  congr 1
  by_cases hother : other = id
  · rw [if_pos hother, List.filter_cons_of_pos (by simp [hother])]
    rfl
  · rw [if_neg hother, List.filter_cons_of_neg (by simpa using Ne.symm hother)]
    rfl

/-- An event ends one task at most. -/
theorem endedBy_cases (s : TaskSystem κ β ρ) (event : TaskStep κ β ρ) :
    s.endedBy event = [] ∨ ∃ id result, s.endedBy event = [(id, result)] := by
  cases event with
  | start worker | finish worker result | advance call | proceed =>
      simp only [endedBy]
      repeat' split
      all_goals first | exact Or.inl rfl | exact Or.inr ⟨_, _, rfl⟩
  | _ => exact Or.inl rfl

/-- Where a task stands after the ends of the `past`. -/
def standing (s : TaskSystem κ β ρ) (past : List (Nat × TaskResult ρ)) (id : Nat) : Standing ρ :=
  ⟨s.scheduler.sight id, s.queued id, s.removed id, s.executing id, endsOf past id⟩

/-- What is in order apart from the tasks. -/
structure Orderly (s : TaskSystem κ β ρ) : Prop where
  cancelsDistinct : s.cancels.Distinct
  closing : s.scheduler.isShutDown = s.shutting.isSome
  drained : s.scheduler.isShutDown = true → s.scheduler.queue = []
  /-- The call that shuts the scheduler down does not return before the workers have gone. -/
  departed : s.shutting = some .returned → ∀ stage ∈ s.workers, stage = .gone

/-- A system that is in order after the ends of the `past`. -/
structure Sound (s : TaskSystem κ β ρ) (past : List (Nat × TaskResult ρ)) : Prop where
  orderly : s.Orderly
  lives : ∀ id, s.standing past id = .unknown ∨ ∃ life : TaskLife ρ, s.standing past id = life.standing
  newer : ∀ id, s.scheduler.nextId ≤ id → s.standing past id = .unknown

/-- From one system to the other no task is accepted, and all tasks go on with their lives. -/
structure LivesOn (s : TaskSystem κ β ρ) (past : List (Nat × TaskResult ρ)) (s' : TaskSystem κ β ρ)
    (past' : List (Nat × TaskResult ρ)) : Prop where
  nextId : s'.scheduler.nextId = s.scheduler.nextId
  unknown : ∀ id, s.standing past id = .unknown → s'.standing past' id = .unknown
  goesOn : ∀ id (life : TaskLife ρ), s.standing past id = life.standing →
    ∃ life' : TaskLife ρ, s'.standing past' id = life'.standing ∧ life.Next life'

section Steps

variable {s s' : TaskSystem κ β ρ} {past past' : List (Nat × TaskResult ρ)}

/-- Nothing happens to any task. -/
theorem LivesOn.of_eq (hnext : s'.scheduler.nextId = s.scheduler.nextId)
    (h : ∀ id, s'.standing past' id = s.standing past id) : s.LivesOn past s' past' :=
  ⟨hnext, fun id hid => (h id).trans hid,
    fun id life hlife => ⟨life, (h id).trans hlife, .stay life⟩⟩

/-- Something happens to one task, if it was accepted. -/
theorem LivesOn.of_one (id : Nat) (hnext : s'.scheduler.nextId = s.scheduler.nextId)
    (hothers : ∀ other, other ≠ id → s'.standing past' other = s.standing past other)
    (hunknown : s.standing past id = .unknown → s'.standing past' id = .unknown)
    (hone : ∀ life : TaskLife ρ, s.standing past id = life.standing →
      ∃ life' : TaskLife ρ, s'.standing past' id = life'.standing ∧ life.Next life') :
    s.LivesOn past s' past' := by
  refine ⟨hnext, ?_, ?_⟩
  · intro other hother
    by_cases hid : other = id
    · subst hid
      exact hunknown hother
    · exact (hothers other hid).trans hother
  · intro other life hlife
    by_cases hid : other = id
    · subst hid
      exact hone life hlife
    · exact ⟨life, (hothers other hid).trans hlife, .stay life⟩

/-- One task goes from a point of its life to a next one. -/
theorem LivesOn.of_life {id : Nat} {life life' : TaskLife ρ} (hlife : s.standing past id = life.standing)
    (hlife' : s'.standing past' id = life'.standing) (hgoes : life.Next life')
    (hnext : s'.scheduler.nextId = s.scheduler.nextId)
    (hothers : ∀ other, other ≠ id → s'.standing past' other = s.standing past other) :
    s.LivesOn past s' past' := by
  refine LivesOn.of_one id hnext hothers ?_ ?_
  · intro hunknown
    rw [hlife] at hunknown
    exact absurd (congrArg (·.sight.view) hunknown) life.view_standing
  · intro same hsame
    rw [hlife] at hsame
    rw [← TaskLife.standing_injective hsame]
    exact ⟨life', hlife', hgoes⟩

/-- A system stays in order when all tasks go on with their lives. -/
theorem Sound.of_livesOn (hs : s.Sound past) (h : s.LivesOn past s' past') (ho : s'.Orderly) :
    s'.Sound past' := by
  refine ⟨ho, ?_, ?_⟩
  · intro id
    rcases hs.lives id with hunknown | ⟨life, hlife⟩
    · exact Or.inl (h.unknown id hunknown)
    · obtain ⟨life', hlife', -⟩ := h.goesOn id life hlife
      exact Or.inr ⟨life', hlife'⟩
  · intro id hid
    rw [h.nextId] at hid
    exact h.unknown id (hs.newer id hid)

end Steps

end TaskSystem

end Linkage

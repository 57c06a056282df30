import Linkage.Proofs.Cache.Vacancy

/-!
# What calls get

There is one build for a key at a time, and its outcome goes to the call that builds and to all who
waited for it when it ended, however late they look and whatever happens before they do.

* **`step_of_other`** — an event leaves the calls alone that it is not about;
* **`Sound.waiter_step`** — a waiter goes on waiting, is cancelled while its build is under way, or
  gets what its build came to;
* **`Promised`** — what a waiter is left with once its build has ended, and keeps until it looks;
* **`Delivery`**, **`delivery_run`** — all of it, for every run of a system that begins empty.
-/

namespace Linkage

variable {κ α : Type}

/-- The call that an event is about. -/
def CacheEvent.call? : CacheEvent κ α → Option Nat
  | .request call _ | .complete call _ | .wake call | .abandon call _ => some call
  | .elapse _ | .expire | .release _ | .invalidate _ | .close | .dispose _ => none

namespace CacheSystem

/-! ## Calls and answers from event to event -/

/-- Two systems agree on a call: they have it in the same place, with the same answer. -/
def SameCall (s s' : CacheSystem κ α) (call : Nat) : Prop :=
  s'.calls.get? call = s.calls.get? call ∧ s'.answers.get? call = s.answers.get? call

/-- The end of one call leaves the others alone. -/
theorem sameCall_answer {s s' : CacheSystem κ α} {call call' : Nat} (a : CacheAnswer κ α)
    (hcalls : s'.calls = s.calls) (hanswers : s'.answers = s.answers) (hne : call' ≠ call) :
    s.SameCall (s'.answer call a) call' := by
  unfold SameCall
  rw [calls_answer, answers_answer, hcalls, hanswers, Table.get?_erase_of_ne _ hne, Table.get?_put,
    if_neg hne]
  exact ⟨rfl, rfl⟩

variable [DecidableEq κ] {s : CacheSystem κ α} {past : List (FinishedBuild κ α)}

theorem sameCall_request (s : CacheSystem κ α) {call call' : Nat} (key : κ) (hne : call' ≠ call) :
    s.SameCall (s.request call key) call' := by
  unfold CacheSystem.request
  rcases Cache.request_cases s.options s.now s.cache key with
    ⟨-, heq⟩ | ⟨e, -, -, heq⟩ | ⟨slot, -, -, heq⟩ | ⟨-, -, -, heq⟩
  · rw [heq]
    exact sameCall_answer _ rfl rfl hne
  · rw [heq]
    exact sameCall_answer _ rfl rfl hne
  · rw [heq]
    refine ⟨?_, rfl⟩
    show (s.calls.put call _).get? call' = _
    rw [Table.get?_put, if_neg hne]
  · rw [heq]
    refine ⟨?_, rfl⟩
    show (s.calls.put call _).get? call' = _
    rw [Table.get?_put, if_neg hne]

theorem sameCall_wake (s : CacheSystem κ α) {call call' id : Nat} (key : κ) (hne : call' ≠ call) :
    s.SameCall (s.wake call key id) call' := by
  unfold CacheSystem.wake
  rcases s.cache.observe key id with ⟨sighting, cache⟩
  cases sighting with
  | stillBuilding => exact ⟨rfl, rfl⟩
  | found handle => exact sameCall_answer _ rfl rfl hne
  | failed failure => exact sameCall_answer _ rfl rfl hne
  | gone => exact sameCall_answer _ rfl rfl hne

theorem sameCall_abandon (s : CacheSystem κ α) {call call' id : Nat} (key : κ) (reason : String)
    (hne : call' ≠ call) : s.SameCall (s.abandon call key id reason) call' := by
  unfold CacheSystem.abandon
  split
  · exact sameCall_answer _ rfl rfl hne
  · exact ⟨rfl, rfl⟩

/-- An event leaves the calls alone that it is not about. -/
theorem step_of_other (s : CacheSystem κ α) (event : CacheEvent κ α) {call : Nat}
    (h : event.call? ≠ some call) : s.SameCall (s.step event) call := by
  have hne : ∀ {other : Nat}, event.call? = some other → call ≠ other := by
    rintro other hother rfl
    exact h hother
  cases event with
  | elapse ms => exact ⟨rfl, rfl⟩
  | expire => exact ⟨rfl, rfl⟩
  | request other key =>
      unfold CacheSystem.step
      simp only
      split
      · exact ⟨rfl, rfl⟩
      · exact sameCall_request s key (hne rfl)
  | complete other outcome =>
      rcases step_complete_cases s other outcome with ⟨key, id, -, hstep, -⟩ | ⟨hstep, -⟩
      · rw [hstep, complete_def]
        exact sameCall_answer _ rfl rfl (hne rfl)
      · rw [hstep]
        exact ⟨rfl, rfl⟩
  | wake other =>
      rcases step_wake_cases s other with ⟨key, id, -, hstep⟩ | hstep
      · rw [hstep]
        exact sameCall_wake s key (hne rfl)
      · rw [hstep]
        exact ⟨rfl, rfl⟩
  | abandon other reason =>
      rcases step_abandon_cases s other reason with ⟨key, id, -, hstep⟩ | hstep
      · rw [hstep]
        exact sameCall_abandon s key reason (hne rfl)
      · rw [hstep]
        exact ⟨rfl, rfl⟩
  | release other =>
      unfold CacheSystem.step
      simp only
      split <;> exact ⟨rfl, rfl⟩
  | invalidate key => exact ⟨rfl, rfl⟩
  | close => exact ⟨rfl, rfl⟩
  | dispose place =>
      unfold CacheSystem.step
      simp only
      split <;> exact ⟨rfl, rfl⟩

/-- A number that is known already does not ask again. -/
theorem step_request_known {call : Nat} (h : s.isKnown call = true) (key : κ) :
    s.step (.request call key) = s := if_pos h

/-- The answer to a call is final. -/
theorem Sound.answer_step (hs : s.Sound past) {call : Nat} {a : CacheAnswer κ α}
    (ha : s.answers.get? call = some a) (event : CacheEvent κ α) :
    (s.step event).answers.get? call = some a := by
  have hcall : s.calls.get? call = none := by
    cases hget : s.calls.get? call with
    | none => rfl
    | some x =>
        rw [hs.unanswered call x hget] at ha
        cases ha
  by_cases hevent : event.call? = some call
  · -- the call is not under way any more, so that nothing happens to it
    have hstep : s.step event = s := by
      cases event with
      | request other key =>
          injection hevent with hother
          subst hother
          exact step_request_known (by simp [isKnown, Table.contains, ha]) key
      | complete other outcome =>
          injection hevent with hother
          subst hother
          simp only [CacheSystem.step, hcall]
      | wake other =>
          injection hevent with hother
          subst hother
          simp only [CacheSystem.step, hcall]
      | abandon other reason =>
          injection hevent with hother
          subst hother
          simp only [CacheSystem.step, hcall]
      | _ => cases hevent
    rw [hstep]
    exact ha
  · rw [(step_of_other s event hevent).2]
    exact ha

theorem Sound.answer_run (hs : s.Sound past) {call : Nat} {a : CacheAnswer κ α}
    (ha : s.answers.get? call = some a) (later : List (CacheEvent κ α)) :
    (s.run later).answers.get? call = some a := by
  induction later generalizing s past with
  | nil => exact ha
  | cons event rest ih => exact ih (hs.step event) (hs.answer_step ha event)

/-! ## Waiters -/

/-- A build ends once. -/
theorem Sound.finished_once (hs : s.Sound past) {f g : FinishedBuild κ α} (hf : f ∈ past)
    (hg : g ∈ past) (hid : f.id = g.id) : f = g :=
  List.inj_on_of_nodup_map (List.nodup_append.mp hs.numbersDistinct).1 hf hg hid

/-- A waiter that looks when its build has ended gets what the build came to. -/
theorem Sound.wake_answer (hs : s.Sound past) {call id : Nat} {key : κ}
    {outcome : Except BuildFailure α} (hcall : s.calls.get? call = some ⟨key, .waiting id⟩)
    (hmem : ⟨key, id, outcome⟩ ∈ past) :
    (s.step (.wake call)).answers.get? call = some (.ofBuild key id outcome) := by
  have hstep : s.step (.wake call) = s.wake call key id := by simp only [CacheSystem.step, hcall]
  have hended : ∀ slot, s.cache.building.get? key = some slot → slot.id ≠ id := hs.not_inFlight hmem
  rw [hstep]
  rcases hs.wake_cases hcall with ⟨slot, hslot, hid⟩ | ⟨outcome', hmem', hoffers, -⟩
  · exact absurd hid (hended slot hslot)
  · have hsame := hs.finished_once hmem' hmem rfl
    injection hsame with _ _ hsame
    subst hsame
    unfold CacheSystem.wake
    cases outcome' with
    | ok value =>
        rw [Cache.observe_found hs.balanced hended hoffers]
        simp only [answers_answer, Table.get?_put, if_pos]
        rfl
    | error failure =>
        obtain ⟨f, hf, rfl⟩ := hoffers
        rw [Cache.observe_failed hended hf]
        simp only [answers_answer, Table.get?_put, if_pos]
        rfl

/-- A waiter goes on waiting, or is cancelled while its build is under way, or gets what its build
came to. -/
theorem Sound.waiter_step (hs : s.Sound past) {call id : Nat} {key : κ}
    (hcall : s.calls.get? call = some ⟨key, .waiting id⟩) (event : CacheEvent κ α) :
    (s.step event).calls.get? call = some ⟨key, .waiting id⟩ ∨
    (∃ reason, event = .abandon call reason ∧
      (∃ slot, s.cache.building.get? key = some slot ∧ slot.id = id) ∧
      (s.step event).answers.get? call = some (.refused (.cancelled reason))) ∨
    ∃ outcome, ⟨key, id, outcome⟩ ∈ past ∧
      (s.step event).answers.get? call = some (.ofBuild key id outcome) := by
  by_cases hevent : event.call? = some call
  · cases event with
    | request other key' =>
        injection hevent with hother
        subst hother
        rw [step_request_known (by simp [isKnown, Table.contains, hcall]) key']
        exact Or.inl hcall
    | complete other outcome =>
        injection hevent with hother
        subst hother
        have hstep : s.step (.complete other outcome) = s := by
          simp only [CacheSystem.step, hcall]
        rw [hstep]
        exact Or.inl hcall
    | wake other =>
        injection hevent with hother
        subst hother
        rcases hs.wake_cases hcall with ⟨slot, hslot, rfl⟩ | ⟨outcome, hmem, -, -⟩
        · have hstep : s.step (.wake other) = s := by
            simp only [CacheSystem.step, hcall]
            exact wake_inFlight hslot other
          rw [hstep]
          exact Or.inl hcall
        · exact Or.inr (Or.inr ⟨outcome, hmem, hs.wake_answer hcall hmem⟩)
    | abandon other reason =>
        injection hevent with hother
        subst hother
        have hstep : s.step (.abandon other reason) = s.abandon other key id reason := by
          simp only [CacheSystem.step, hcall]
        rw [hstep]
        unfold CacheSystem.abandon
        by_cases hflight : (s.cache.building.get? key).any (·.id == id) = true
        · rw [if_pos hflight]
          refine Or.inr (Or.inl ⟨reason, rfl, (Cache.inFlight_iff _ _ _).mp hflight, ?_⟩)
          rw [answers_answer, Table.get?_put, if_pos rfl]
        · rw [if_neg hflight]
          exact Or.inl hcall
    | _ => cases hevent
  · refine Or.inl ?_
    rw [(step_of_other s event hevent).1]
    exact hcall

/-- What a call is left with that waited for a build when it ended: the call has got the outcome of
the build, or gets it as soon as it looks. -/
def Promised (s : CacheSystem κ α) (call : Nat) (key : κ) (id : Nat)
    (outcome : Except BuildFailure α) : Prop :=
  s.answers.get? call = some (.ofBuild key id outcome) ∨
    s.calls.get? call = some ⟨key, .waiting id⟩ ∧
      (s.step (.wake call)).answers.get? call = some (.ofBuild key id outcome)

/-- A promise is kept, whatever happens. -/
theorem Sound.promised_run (hs : s.Sound past) {call id : Nat} {key : κ}
    {outcome : Except BuildFailure α} (hmem : ⟨key, id, outcome⟩ ∈ past)
    (h : s.Promised call key id outcome) (later : List (CacheEvent κ α)) :
    (s.run later).Promised call key id outcome := by
  induction later generalizing s past with
  | nil => exact h
  | cons event rest ih =>
      have hmem' : ⟨key, id, outcome⟩ ∈ past ++ s.finishedBy event := List.mem_append_left _ hmem
      refine ih (hs.step event) hmem' ?_
      rcases h with hanswer | ⟨hcall, -⟩
      · exact Or.inl (hs.answer_step hanswer event)
      · rcases hs.waiter_step hcall event with hwaits | ⟨-, -, ⟨slot, hslot, hid⟩, -⟩ |
          ⟨outcome', hended, hanswer⟩
        · exact Or.inr ⟨hwaits, (hs.step event).wake_answer hwaits hmem'⟩
        · -- the build has ended, so it is too late to be cancelled
          exact absurd hid (hs.not_inFlight hmem slot hslot)
        · have hsame := hs.finished_once hended hmem rfl
          injection hsame with _ _ hsame
          rw [← hsame]
          exact Or.inl hanswer

/-- Who waits for the build of a call asked for the same key. -/
theorem Sound.key_of_waiter (hs : s.Sound past) {builder waiter id : Nat} {key key' : κ}
    (hbuilder : s.calls.get? builder = some ⟨key, .building id⟩)
    (hwaiter : s.calls.get? waiter = some ⟨key', .waiting id⟩) : key' = key := by
  obtain ⟨slot, hslot, rfl⟩ := hs.builderSlot builder key id hbuilder
  rcases hs.expects waiter key' slot.id hwaiter with ⟨slot', hslot', hid⟩ | ⟨outcome, hmem, -⟩
  · exact hs.balanced.slot_unique hslot' hslot hid
  · exact absurd rfl (hs.not_inFlight hmem slot hslot)

/-- When a build ends, its builder has the outcome and it is promised to all who wait for it. -/
theorem Sound.complete_promises (hs : s.Sound past) {builder id : Nat} {key : κ}
    (hbuilder : s.calls.get? builder = some ⟨key, .building id⟩) (outcome : Except BuildFailure α)
    (later : List (CacheEvent κ α)) :
    ((s.step (.complete builder outcome)).run later).answers.get? builder =
        some (.ofBuild key id outcome) ∧
      ∀ waiter key', s.calls.get? waiter = some ⟨key', .waiting id⟩ →
        ((s.step (.complete builder outcome)).run later).Promised waiter key id outcome := by
  have hstep : s.step (.complete builder outcome) = s.complete builder key id outcome := by
    simp only [CacheSystem.step, hbuilder]
  have hs' := hs.complete hbuilder outcome
  have hmem : ⟨key, id, outcome⟩ ∈ past ++ [⟨key, id, outcome⟩] :=
    List.mem_append_right _ (List.mem_singleton.mpr rfl)
  rw [hstep]
  refine ⟨hs'.answer_run ?_ later, ?_⟩
  · rw [complete_def, answers_answer, Table.get?_put, if_pos rfl]
  · intro waiter key' hwaiter
    have hkey := hs.key_of_waiter hbuilder hwaiter
    subst hkey
    have hne : waiter ≠ builder := by
      rintro rfl
      rw [hbuilder] at hwaiter
      cases hwaiter
    have hwaits : (s.complete builder key' id outcome).calls.get? waiter =
        some ⟨key', .waiting id⟩ := by
      have hother : (CacheEvent.complete builder outcome : CacheEvent κ α).call? ≠ some waiter := by
        intro h
        exact hne (Option.some.inj h).symm
      rw [← hstep, (step_of_other s _ hother).1]
      exact hwaiter
    exact hs'.promised_run hmem (Or.inr ⟨hwaits, hs'.wake_answer hwaits hmem⟩) later

/-! ## Delivery -/

/-- What calls can count on in a system after the builds of the `past`. -/
structure Delivery (s : CacheSystem κ α) (past : List (FinishedBuild κ α)) : Prop where
  /-- No key is built twice at a time. -/
  oneBuild : ∀ call call' key id id', s.calls.get? call = some ⟨key, .building id⟩ →
    s.calls.get? call' = some ⟨key, .building id'⟩ → call = call' ∧ id = id'
  exclusive : ∀ key e, s.cache.entries.get? key = some e → s.cache.building.get? key = none
  /-- A build that ends finds no descriptor under its key. -/
  overwritesNothing : ∀ call key id, s.calls.get? call = some ⟨key, .building id⟩ →
    s.cache.entries.get? key = none
  /-- The outcome of a build goes to the builder and to all who wait for it, and stays theirs. -/
  completes : ∀ builder key id, s.calls.get? builder = some ⟨key, .building id⟩ →
    ∀ outcome later,
      ((s.step (.complete builder outcome)).run later).answers.get? builder =
          some (.ofBuild key id outcome) ∧
        ∀ waiter key', s.calls.get? waiter = some ⟨key', .waiting id⟩ →
          ((s.step (.complete builder outcome)).run later).Promised waiter key id outcome
  /-- A waiter is not taken off its build but by its end, or by a cancellation before that. -/
  waits : ∀ waiter key id, s.calls.get? waiter = some ⟨key, .waiting id⟩ → ∀ event,
    (s.step event).calls.get? waiter = some ⟨key, .waiting id⟩ ∨
    (∃ reason, event = .abandon waiter reason ∧
      (∃ slot, s.cache.building.get? key = some slot ∧ slot.id = id) ∧
      (s.step event).answers.get? waiter = some (.refused (.cancelled reason))) ∨
    ∃ outcome, ⟨key, id, outcome⟩ ∈ past ∧
      (s.step event).answers.get? waiter = some (.ofBuild key id outcome)
  /-- No descriptor disappears before it is handed out. -/
  neverLost : ∀ call, s.answers.get? call ≠ some .lost
  /-- A failure is kept for those who have not heard of it, and for nobody else. -/
  failuresHeard : ∀ id f, s.cache.failures.get? id = some f →
    f.pending = s.waiting id ∧ ∃ waiter key, s.calls.get? waiter = some ⟨key, .waiting id⟩
  /-- After a failure the next call that asks for the key builds anew. -/
  buildsAgain : ∀ builder key id, s.calls.get? builder = some ⟨key, .building id⟩ →
    ∀ failure later, (∀ caller, .request caller key ∉ later) →
      let after := (s.step (.complete builder (.error failure))).run later
      after.cache.Vacant key ∧
        ∀ caller, after.isKnown caller = false → after.cache.isClosed = false →
          (after.step (.request caller key)).calls.get? caller =
            some ⟨key, .building after.cache.nextId⟩

theorem Sound.delivery (hs : s.Sound past) : s.Delivery past := by
  refine ⟨?_, hs.balanced.exclusive, ?_, ?_, ?_, hs.neverLost, ?_, ?_⟩
  · intro call call' key id id' hcall hcall'
    have hsame := hs.oneBuilder call call' key id id' hcall hcall'
    subst hsame
    rw [hcall] at hcall'
    injection hcall' with hcall'
    injection hcall' with _ hstage
    injection hstage with hid
    exact ⟨rfl, hid⟩
  · intro call key id hcall
    obtain ⟨slot, hslot, -⟩ := hs.builderSlot call key id hcall
    exact hs.balanced.entry_none hslot
  · intro builder key id hbuilder outcome later
    exact hs.complete_promises hbuilder outcome later
  · intro waiter key id hwaiter event
    exact hs.waiter_step hwaiter event
  · intro id f hf
    obtain ⟨hpending, hpos⟩ := hs.balanced.pending id f hf
    exact ⟨hpending, hs.exists_waiting hpos⟩
  · intro builder key id hbuilder failure later hlater
    have hvacant := (hs.step _).vacant_run (hs.vacant_of_failure hbuilder failure) hlater
    exact ⟨hvacant, fun caller hnew hopen => request_vacant hvacant hnew hopen⟩

/-- Whatever happens to a cache that begins empty, in whatever order: builds of one key do not overlap,
what a build comes to reaches all who wait for it, and a failure is not kept. -/
theorem delivery_run (o : CacheOptions) (events : List (CacheEvent κ α)) :
    (({ options := o } : CacheSystem κ α).run events).Delivery
      (({ options := o } : CacheSystem κ α).finished events) :=
  (sound_run o events).delivery

/-- A waiter that looks when its descriptor has been invalidated, its key is built anew and the cache
has been closed. -/
example : (({ options := { name := "plugins" } } : CacheSystem String Nat).run
    [.request 0 "a", .request 1 "a", .complete 0 (.ok 7), .invalidate "a", .request 2 "a", .close,
      .wake 1]).answers.get? 1 = some (.found ⟨"a", 1, 7⟩) := by
  rfl

end CacheSystem

end Linkage

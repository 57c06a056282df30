import Linkage.Proofs.Cache.Requests

/-!
# Every run of a cache is sound

The events that are left are those of waiters, which look or are cancelled, and of handles, which are
given back. With them **`Sound.step`** is complete, and **`sound_run`** follows by induction on the
events of a run.
-/

namespace Linkage.CacheSystem

variable {κ α : Type} [DecidableEq κ] {s : CacheSystem κ α} {past : List (FinishedBuild κ α)}

/-! ## Waiters -/

/-- A waiter whose build is under way goes on waiting. -/
theorem wake_inFlight {key : κ} {slot : BuildSlot} (hslot : s.cache.building.get? key = some slot)
    (call : Nat) : s.wake call key slot.id = s := by
  unfold wake
  rw [Cache.observe_stillBuilding hslot]

/-- A waiter takes the descriptor of its build. What it was owed as a waiter it is owed as the holder
of a handle. -/
theorem Sound.wakeFound (hs : s.Sound past) {call id : Nat} {key : κ} {value : α}
    (hcall : s.calls.get? call = some ⟨key, .waiting id⟩)
    (hended : ∀ slot, s.cache.building.get? key = some slot → slot.id ≠ id)
    (hflight : ∀ key' slot, s.cache.building.get? key' = some slot → slot.id ≠ id)
    (hheld : s.cache.Holds key id value) : (s.wake call key id).Sound past := by
  have hfree := hs.unanswered call _ hcall
  have hwake : s.wake call key id = s.answer call (.found ⟨key, id, value⟩) := by
    unfold wake
    rw [Cache.observe_found hs.balanced hended hheld]
  obtain ⟨hone, hothers⟩ := waiting_answer_of_waiter hs.callsDistinct hcall
    (.found ⟨key, id, value⟩ : CacheAnswer κ α)
  have howed : (s.answer call (.found ⟨key, id, value⟩)).owed = s.owed := by
    funext j
    show (s.answer call _).holders j + (s.answer call _).waiting j = s.holders j + s.waiting j
    rw [holders_answer_found (hs.held_none hfree)]
    by_cases hj : j = id
    · subst hj
      rw [if_pos (by simp)]
      omega
    · rw [if_neg (by simpa using Ne.symm hj), hothers j hj, Nat.add_zero]
  rw [hwake]
  refine hs.left s.cache hfree (not_building_of_waiter hcall) (fun h => by cases h) ?_
    hs.tidy (Cache.Moves.of_eq rfl rfl) rfl rfl (fun _ _ => Iff.rfl) ?_ ?_
  · rw [howed]
    refine hs.balanced.congr (fun _ _ => rfl) ?_ ?_
    · intro key' slot hslot
      exact hothers _ (hflight key' slot hslot)
    · intro j f hf
      refine hothers j ?_
      rintro rfl
      rw [hs.balanced.failure_none hheld] at hf
      cases hf
  · intro _ _ _ _ _ f hf
    exact ⟨f, hf, rfl⟩
  · intro handle hfound
    injection hfound with hfound
    rw [← hfound]
    exact hheld

/-- A waiter hears that its build has failed. The failure is kept as long as others wait for it. -/
theorem Sound.wakeFailed (hs : s.Sound past) {call id : Nat} {key : κ} {f : FailedBuild}
    (hcall : s.calls.get? call = some ⟨key, .waiting id⟩)
    (hended : ∀ slot, s.cache.building.get? key = some slot → slot.id ≠ id)
    (hf : s.cache.failures.get? id = some f) : (s.wake call key id).Sound past := by
  have hfree := hs.unanswered call _ hcall
  have hwake : s.wake call key id =
      ({ s with cache := s.cache.heard id f } : CacheSystem κ α).answer call
        (.failed f.failure) := by
    unfold wake
    rw [Cache.observe_failed hended hf]
  obtain ⟨hone, hothers⟩ := waiting_answer_of_waiter hs.callsDistinct hcall
    (.failed f.failure : CacheAnswer κ α)
  have hpending := (hs.balanced.pending id f hf).1
  rw [hwake]
  refine hs.left _ hfree (not_building_of_waiter hcall) (fun h => by cases h) ?_
    ⟨hs.tidy.1, hs.tidy.2⟩ (Cache.Moves.of_eq rfl rfl) rfl rfl (fun _ _ => Iff.rfl) ?_
    (fun _ h => by cases h)
  · refine hs.balanced.hearFailure hf hone ?_
    intro j hj
    refine ⟨?_, hothers j hj⟩
    show s.holders j + (s.answer call (.failed f.failure)).waiting j = s.holders j + s.waiting j
    rw [hothers j hj]
  · intro call' key' id' hne hcall' f' hf'
    have hwaits : 0 < (s.answer call (.failed f.failure)).waiting id' :=
      waiting_pos ((calls_answer_of_ne s _ hne).trans hcall')
    show ∃ f'', (if f.pending ≤ 1 then s.cache.failures.erase id
      else s.cache.failures.modify id fun f => { f with pending := f.pending - 1 }).get? id' =
        some f'' ∧ _
    by_cases hid : id' = id
    · -- someone else still waits, so that the failure is not forgotten
      subst hid
      rw [if_neg (by omega), Table.get?_modify, if_pos rfl, hf']
      exact ⟨_, rfl, rfl⟩
    · refine ⟨f', ?_, rfl⟩
      split
      · rw [Table.get?_erase_of_ne _ hid]
        exact hf'
      · rw [Table.get?_modify, if_neg hid]
        exact hf'

/-- A waiter either goes on waiting or gets what its build came to. -/
theorem Sound.wake_cases (hs : s.Sound past) {call id : Nat} {key : κ}
    (hcall : s.calls.get? call = some ⟨key, .waiting id⟩) :
    (∃ slot, s.cache.building.get? key = some slot ∧ slot.id = id) ∨
      ∃ outcome, ⟨key, id, outcome⟩ ∈ past ∧ s.cache.Offers key id outcome ∧
        ∀ key' slot, s.cache.building.get? key' = some slot → slot.id ≠ id := by
  refine (hs.expects call key id hcall).imp_right ?_
  rintro ⟨outcome, hmem, hoffers⟩
  exact ⟨outcome, hmem, hoffers, fun key' => hs.not_inFlight hmem⟩

theorem Sound.wake (hs : s.Sound past) {call id : Nat} {key : κ}
    (hcall : s.calls.get? call = some ⟨key, .waiting id⟩) : (s.wake call key id).Sound past := by
  rcases hs.wake_cases hcall with ⟨slot, hslot, rfl⟩ | ⟨outcome, -, hoffers, hended⟩
  · rw [wake_inFlight hslot call]
    exact hs
  · cases outcome with
    | ok value => exact hs.wakeFound hcall (hended key) hended hoffers
    | error failure =>
        obtain ⟨f, hf, -⟩ := hoffers
        exact hs.wakeFailed hcall (hended key) hf

/-- A waiter is cancelled while its build is under way. -/
theorem Sound.abandon (hs : s.Sound past) {call id : Nat} {key : κ} (reason : String)
    (hcall : s.calls.get? call = some ⟨key, .waiting id⟩) :
    (s.abandon call key id reason).Sound past := by
  unfold CacheSystem.abandon
  by_cases hflight : (s.cache.building.get? key).any (·.id == id) = true
  · rw [if_pos hflight]
    obtain ⟨slot, hslot, rfl⟩ := (Cache.inFlight_iff s.cache key id).mp hflight
    obtain ⟨hone, hothers⟩ := waiting_answer_of_waiter hs.callsDistinct hcall
      (.refused (.cancelled reason) : CacheAnswer κ α)
    refine hs.left _ (hs.unanswered call _ hcall) (not_building_of_waiter hcall)
      (fun h => by cases h) ?_ ⟨hs.tidy.1, hs.tidy.2⟩ (Cache.Moves.of_eq rfl rfl)
      (Table.map_values_modify _ _ _ _ (fun _ => rfl)) rfl ?_ ?_ (fun _ h => by cases h)
    · refine hs.balanced.abandon hslot hone ?_
      intro j hj
      refine ⟨?_, hothers j hj⟩
      show s.holders j + (s.answer call _).waiting j = s.holders j + s.waiting j
      rw [hothers j hj]
    · intro key' id'
      show (∃ slot', (s.cache.building.modify key _).get? key' = some slot' ∧ _) ↔ _
      rw [Table.get?_modify]
      by_cases hkey : key' = key
      · subst hkey
        rw [if_pos rfl, hslot, Option.map_some]
        simp
      · rw [if_neg hkey]
    · intro _ _ _ _ _ f hf
      exact ⟨f, hf, rfl⟩
  · rw [if_neg hflight]
    exact hs

/-! ## Handles -/

/-- A reference less is owed, and the cache may give up descriptors. -/
theorem Sound.release_sheds (hs : s.Sound past) {call : Nat} {handle : Handle κ α}
    (hheld : s.held.get? call = some handle) :
    (s.cache.lowered s.now handle.key handle.id).Balanced
        ({ s with held := s.held.erase call } : CacheSystem κ α).owed s.waiting ∧
      (s.cache.lowered s.now handle.key handle.id).Sheds
        (s.cache.release s.options s.now handle.key handle.id).1
        (s.cache.release s.options s.now handle.key handle.id).2 ∧
      (s.cache.release s.options s.now handle.key handle.id).2.Tidy := by
  have hcount : ∀ id, s.holders id =
      (s.held.erase call).values.countP (·.id == id) + if handle.id == id then 1 else 0 :=
    fun id => Table.countP_values_erase hs.heldDistinct hheld _
  have howed : s.owed handle.id =
      ({ s with held := s.held.erase call } : CacheSystem κ α).owed handle.id + 1 := by
    show s.holders handle.id + _ = (s.held.erase call).values.countP _ + s.waiting handle.id + 1
    rw [hcount, if_pos (by simp)]
    omega
  have hothers : ∀ id, id ≠ handle.id →
      ({ s with held := s.held.erase call } : CacheSystem κ α).owed id = s.owed id := by
    intro id hid
    show (s.held.erase call).values.countP _ + s.waiting id = s.holders id + s.waiting id
    rw [hcount, if_neg (by simpa using hid.symm), Nat.add_zero]
  have hholds := hs.holds call handle hheld
  exact ⟨hs.balanced.lowered s.now hholds howed hothers,
    Cache.release_spec s.options hs.balanced hs.tidy s.now hholds howed hothers⟩

/-- A handle is given back. -/
theorem Sound.giveBack (hs : s.Sound past) {call : Nat} {handle : Handle κ α}
    (hheld : s.held.get? call = some handle) :
    (({ s with held := s.held.erase call } : CacheSystem κ α).absorb
      (s.cache.release s.options s.now handle.key handle.id)).Sound past := by
  obtain ⟨hlowered, hshed, htidy⟩ := hs.release_sheds hheld
  obtain ⟨hbuilding, hfailures, hnext, -⟩ := Cache.frame_lowered s.now s.cache handle.key handle.id
  exact hs.quiet (hs.heldDistinct.erase call) (fun _ _ h => (Table.get?_erase_cases h).2)
    (hshed.balanced hlowered) htidy
    ((Cache.Moves.lowered s.now handle.key handle.id).shed hlowered hshed)
    (hshed.building_eq.trans hbuilding) (hshed.failures_eq.trans hfailures)
    (hshed.nextId_eq.trans hnext)

/-! ## Runs -/

/-- The end of a build matters only to the call that builds. -/
theorem step_complete_cases (s : CacheSystem κ α) (call : Nat) (outcome : Except BuildFailure α) :
    (∃ key id, s.calls.get? call = some ⟨key, .building id⟩ ∧
      s.step (.complete call outcome) = s.complete call key id outcome ∧
      s.finishedBy (.complete call outcome) = [⟨key, id, outcome⟩]) ∨
    (s.step (.complete call outcome) = s ∧ s.finishedBy (.complete call outcome) = []) := by
  rcases hcall : s.calls.get? call with _ | ⟨key, id | id⟩
  · exact Or.inr ⟨by simp only [step, hcall], by simp only [finishedBy, hcall]⟩
  · exact Or.inl ⟨key, id, rfl, by simp only [step, hcall], by simp only [finishedBy, hcall]⟩
  · exact Or.inr ⟨by simp only [step, hcall], by simp only [finishedBy, hcall]⟩

/-- Only a call that waits looks for a build. -/
theorem step_wake_cases (s : CacheSystem κ α) (call : Nat) :
    (∃ key id, s.calls.get? call = some ⟨key, .waiting id⟩ ∧
      s.step (.wake call) = s.wake call key id) ∨ s.step (.wake call) = s := by
  rcases hcall : s.calls.get? call with _ | ⟨key, id | id⟩
  · exact Or.inr (by simp only [step, hcall])
  · exact Or.inr (by simp only [step, hcall])
  · exact Or.inl ⟨key, id, rfl, by simp only [step, hcall]⟩

/-- Only a call that waits is cancelled. -/
theorem step_abandon_cases (s : CacheSystem κ α) (call : Nat) (reason : String) :
    (∃ key id, s.calls.get? call = some ⟨key, .waiting id⟩ ∧
      s.step (.abandon call reason) = s.abandon call key id reason) ∨
    s.step (.abandon call reason) = s := by
  rcases hcall : s.calls.get? call with _ | ⟨key, id | id⟩
  · exact Or.inr (by simp only [step, hcall])
  · exact Or.inr (by simp only [step, hcall])
  · exact Or.inl ⟨key, id, rfl, by simp only [step, hcall]⟩

/-- Only a handle that is held is given back. -/
theorem step_release_cases (s : CacheSystem κ α) (call : Nat) :
    (∃ handle, s.held.get? call = some handle ∧
      s.step (.release call) = ({ s with held := s.held.erase call } : CacheSystem κ α).absorb
        (s.cache.release s.options s.now handle.key handle.id)) ∨
    s.step (.release call) = s := by
  rcases hheld : s.held.get? call with _ | handle
  · exact Or.inr (by simp only [step, hheld])
  · exact Or.inl ⟨handle, rfl, by simp only [step, hheld]⟩

/-- Every event keeps a system sound. -/
theorem Sound.step (hs : s.Sound past) (event : CacheEvent κ α) :
    (s.step event).Sound (past ++ s.finishedBy event) := by
  have hquiet : s.finishedBy event = [] → (s.step event).Sound past →
      (s.step event).Sound (past ++ s.finishedBy event) := by
    intro hnone hsound
    rw [hnone, List.append_nil]
    exact hsound
  cases event with
  | elapse ms => exact hquiet rfl (hs.elapse ms)
  | expire => exact hquiet rfl hs.expire
  | request call key => exact hquiet rfl (hs.request call key)
  | complete call outcome =>
      rcases step_complete_cases s call outcome with ⟨key, id, hcall, hstep, hdone⟩ | ⟨hstep, hdone⟩
      · rw [hstep, hdone]
        exact hs.complete hcall outcome
      · refine hquiet hdone ?_
        rw [hstep]
        exact hs
  | wake call =>
      refine hquiet rfl ?_
      rcases step_wake_cases s call with ⟨key, id, hcall, hstep⟩ | hstep
      · rw [hstep]
        exact hs.wake hcall
      · rw [hstep]
        exact hs
  | abandon call reason =>
      refine hquiet rfl ?_
      rcases step_abandon_cases s call reason with ⟨key, id, hcall, hstep⟩ | hstep
      · rw [hstep]
        exact hs.abandon reason hcall
      · rw [hstep]
        exact hs
  | release call =>
      refine hquiet rfl ?_
      rcases step_release_cases s call with ⟨handle, hheld, hstep⟩ | hstep
      · rw [hstep]
        exact hs.giveBack hheld
      · rw [hstep]
        exact hs
  | invalidate key => exact hquiet rfl (hs.invalidate key)
  | close => exact hquiet rfl hs.close
  | dispose place => exact hquiet rfl (hs.dispose place)

/-- A run from a sound system ends in a sound one. -/
theorem Sound.run (hs : s.Sound past) (events : List (CacheEvent κ α)) :
    (s.run events).Sound (past ++ s.finished events) := by
  induction events generalizing s past with
  | nil =>
      rw [finished, List.append_nil]
      exact hs
  | cons event rest ih =>
      rw [finished, ← List.append_assoc]
      exact ih (hs.step event)

/-- A system in which nothing has happened. -/
theorem sound_new (o : CacheOptions) : ({ options := o } : CacheSystem κ α).Sound [] where
  balanced :=
    { entriesDistinct := List.nodup_nil
      retiredDistinct := List.nodup_nil
      buildingDistinct := List.nodup_nil
      failuresDistinct := List.nodup_nil
      numbersDistinct := List.nodup_nil
      numbersBelow := fun _ h => absurd h List.not_mem_nil
      exclusive := fun _ _ h => by cases h
      retiredNumber := fun _ _ h => by cases h
      entryRefs := fun _ _ h => by cases h
      retiredRefs := fun _ _ h => by cases h
      slotWaiters := fun _ _ h => by cases h
      pending := fun _ _ h => by cases h }
  tidy := ⟨fun _ _ h => (by cases h), fun _ _ _ h => (by cases h)⟩
  conserved := .nil
  numbersDistinct := List.nodup_nil
  numbersBelow _ h := absurd h List.not_mem_nil
  callsDistinct := List.nodup_nil
  heldDistinct := List.nodup_nil
  builderSlot _ _ _ h := by cases h
  slotBuilder _ _ h := by cases h
  oneBuilder _ _ _ _ _ h := by cases h
  expects _ _ _ h := by cases h
  holds _ _ h := by cases h
  heldAnswered _ _ h := by cases h
  unanswered _ _ h := by cases h
  neverLost _ h := by cases h

/-- Every run of a system that begins empty ends in a sound one. -/
theorem sound_run (o : CacheOptions) (events : List (CacheEvent κ α)) :
    (({ options := o } : CacheSystem κ α).run events).Sound
      (({ options := o } : CacheSystem κ α).finished events) :=
  (sound_new o).run events

end Linkage.CacheSystem

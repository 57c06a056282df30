import Linkage.Proofs.Cache.Steps

/-!
# The invariant of a cache with calls under way

A handle is owed its descriptor until it is given back, and a waiter is owed the descriptor of the
build that it joined. With this reading of the books a system is sound, whatever happens in it.

* **`Sound`** — the books are right, every descriptor that was ever built is in one place, every
  build under way has its one builder, and every waiter finds its build or what came of it;
* **`Sound.quiet`** — events in which only the cache acts keep a system sound;
* **`Sound.answered`** — so does the end of a call, under terms that every such event meets.

The builds that have ended are not part of a system; `finished` reads them off a run.
-/

namespace Linkage

/-- A build that has ended, with what it came to. -/
structure FinishedBuild (κ α : Type) where
  key : κ
  id : Nat
  outcome : Except BuildFailure α

/-- The descriptor that a build made, if it succeeded. -/
def FinishedBuild.descriptor? {κ α : Type} (f : FinishedBuild κ α) : Option (Nat × α) :=
  match f.outcome with
  | .ok value => some (f.id, value)
  | .error _ => none

theorem FinishedBuild.id_of_descriptor {κ α : Type} {f : FinishedBuild κ α} {d : Nat × α}
    (h : f.descriptor? = some d) : d.1 = f.id := by
  unfold FinishedBuild.descriptor? at h
  cases hout : f.outcome with
  | error failure =>
      rw [hout] at h
      cases h
  | ok value =>
      rw [hout] at h
      injection h with h
      rw [← h]

/-- The descriptors that builds made come in the order of the builds. -/
theorem descriptors_sublist {κ α : Type} (past : List (FinishedBuild κ α)) :
    ((past.filterMap FinishedBuild.descriptor?).map Prod.fst).Sublist
      (past.map FinishedBuild.id) := by
  induction past with
  | nil => exact List.Sublist.refl _
  | cons f rest ih =>
      cases hf : f.descriptor? with
      | none =>
          rw [List.filterMap_cons_none hf, List.map_cons]
          exact ih.cons _
      | some d =>
          rw [List.filterMap_cons_some hf, List.map_cons, List.map_cons, f.id_of_descriptor hf]
          exact ih.cons_cons _

namespace CacheSystem

variable {κ α : Type} {s : CacheSystem κ α}

/-! ## What is owed -/

/-- How many handles to the descriptor of a build are held. -/
def holders (s : CacheSystem κ α) (id : Nat) : Nat := s.held.values.countP (·.id == id)

/-- How many calls wait for a build. -/
def waiting (s : CacheSystem κ α) (id : Nat) : Nat :=
  s.calls.values.countP (·.stage == .waiting id)

/-- How many references are owed to the descriptor of a build. -/
def owed (s : CacheSystem κ α) (id : Nat) : Nat := s.holders id + s.waiting id

/-- The victims, whether they have been closed or not. -/
def victims (s : CacheSystem κ α) : List (Victim κ α) := s.doomed ++ s.closed

/-- The build that an event ends. -/
def finishedBy (s : CacheSystem κ α) : CacheEvent κ α → List (FinishedBuild κ α)
  | .complete call outcome =>
    match s.calls.get? call with
    | some ⟨key, .building id⟩ => [⟨key, id, outcome⟩]
    | _ => []
  | _ => []

/-- Nothing is owed where nobody waits and nothing is held. -/
theorem owed_of_empty (hcalls : s.calls.entries = []) (hheld : s.held.entries = []) (id : Nat) :
    s.owed id = 0 := by
  unfold owed holders waiting Table.values
  rw [hcalls, hheld]
  rfl

theorem holders_pos {call : Nat} {handle : Handle κ α} (h : s.held.get? call = some handle) :
    0 < s.holders handle.id :=
  Table.countP_values_pos h (by simp)

theorem waiting_pos {call id : Nat} {key : κ} (h : s.calls.get? call = some ⟨key, .waiting id⟩) :
    0 < s.waiting id :=
  Table.countP_values_pos h (by simp)

theorem owed_of_held {call : Nat} {handle : Handle κ α} (h : s.held.get? call = some handle) :
    0 < s.owed handle.id := Nat.lt_of_lt_of_le (holders_pos h) (Nat.le_add_right _ _)

theorem owed_of_waiting {call id : Nat} {key : κ}
    (h : s.calls.get? call = some ⟨key, .waiting id⟩) : 0 < s.owed id :=
  Nat.lt_of_lt_of_le (waiting_pos h) (Nat.le_add_left _ _)

/-- A call that is new is not building. -/
theorem not_building_of_new {call : Nat} (hcall : s.calls.get? call = none) (key : κ) (id : Nat) :
    s.calls.get? call ≠ some ⟨key, .building id⟩ := by
  rw [hcall]
  exact fun h => by cases h

/-- A waiter is not building. -/
theorem not_building_of_waiter {call id : Nat} {key : κ}
    (hcall : s.calls.get? call = some ⟨key, .waiting id⟩) (key' : κ) (id' : Nat) :
    s.calls.get? call ≠ some ⟨key', .building id'⟩ := by
  rw [hcall]
  exact fun h => by cases h

/-! ## What the end of a call changes -/

theorem calls_answer (s : CacheSystem κ α) (call : Nat) (a : CacheAnswer κ α) :
    (s.answer call a).calls = s.calls.erase call := by
  cases a <;> rfl

/-- The other calls go on. -/
theorem calls_answer_of_ne (s : CacheSystem κ α) {call call' : Nat} (a : CacheAnswer κ α)
    (hne : call' ≠ call) : (s.answer call a).calls.get? call' = s.calls.get? call' := by
  rw [calls_answer, Table.get?_erase_of_ne _ hne]

theorem answers_answer (s : CacheSystem κ α) (call : Nat) (a : CacheAnswer κ α) :
    (s.answer call a).answers = s.answers.put call a := by
  cases a <;> rfl

theorem cache_answer (s : CacheSystem κ α) (call : Nat) (a : CacheAnswer κ α) :
    (s.answer call a).cache = s.cache := by
  cases a <;> rfl

theorem victims_answer (s : CacheSystem κ α) (call : Nat) (a : CacheAnswer κ α) :
    (s.answer call a).victims = s.victims := by
  cases a <;> rfl

theorem closed_answer (s : CacheSystem κ α) (call : Nat) (a : CacheAnswer κ α) :
    (s.answer call a).closed = s.closed := by
  cases a <;> rfl

theorem options_answer (s : CacheSystem κ α) (call : Nat) (a : CacheAnswer κ α) :
    (s.answer call a).options = s.options := by
  cases a <;> rfl

/-- One call less waits if the call that ends was waiting. -/
theorem waiting_answer (hcalls : s.calls.Distinct) {call : Nat} {x : CacheCall κ}
    (h : s.calls.get? call = some x) (a : CacheAnswer κ α) (id : Nat) :
    s.waiting id = (s.answer call a).waiting id + if x.stage == .waiting id then 1 else 0 := by
  unfold waiting
  rw [calls_answer]
  exact Table.countP_values_erase hcalls h _

theorem waiting_answer_of_new {call : Nat} (h : s.calls.get? call = none) (a : CacheAnswer κ α) :
    (s.answer call a).waiting = s.waiting := by
  funext id
  unfold waiting
  rw [calls_answer, Table.erase_of_new h]

/-- A builder that ends does not change who waits. -/
theorem waiting_answer_of_building (hcalls : s.calls.Distinct) {call id : Nat} {key : κ}
    (h : s.calls.get? call = some ⟨key, .building id⟩) (a : CacheAnswer κ α) :
    (s.answer call a).waiting = s.waiting := by
  funext id'
  have hcount := waiting_answer hcalls h a id'
  have hstage : (CallStage.building id == CallStage.waiting id') = false := rfl
  rw [hstage] at hcount
  exact hcount.symm

/-- A waiter that ends was counted once. -/
theorem waiting_answer_of_waiter (hcalls : s.calls.Distinct) {call id : Nat} {key : κ}
    (hcall : s.calls.get? call = some ⟨key, .waiting id⟩) (a : CacheAnswer κ α) :
    s.waiting id = (s.answer call a).waiting id + 1 ∧
      ∀ j, j ≠ id → (s.answer call a).waiting j = s.waiting j := by
  have hcount := fun j => waiting_answer hcalls hcall a j
  refine ⟨?_, ?_⟩
  · rw [hcount id, if_pos (by simp)]
  · intro j hj
    rw [hcount j, if_neg (by simpa using hj.symm)]
    rfl

/-- One handle more is held after an answer that gives one. -/
theorem holders_answer_found {call : Nat} (h : s.held.get? call = none) (handle : Handle κ α)
    (id : Nat) : (s.answer call (.found handle)).holders id =
      s.holders id + if handle.id == id then 1 else 0 :=
  Table.countP_values_put h handle _

/-- A call that is under way after the end of one was so before, and is another one. -/
theorem calls_answer_cases {call call' : Nat} {a : CacheAnswer κ α} {x : CacheCall κ}
    (h : (s.answer call a).calls.get? call' = some x) : call' ≠ call ∧ s.calls.get? call' = some x := by
  rw [calls_answer] at h
  exact Table.get?_erase_cases h

/-- What a call has come to is known when it has ended, and what others have come to stays. -/
theorem get?_answers_answer (s : CacheSystem κ α) (call call' : Nat) (a : CacheAnswer κ α) :
    (s.answer call a).answers.get? call' = if call' = call then some a else s.answers.get? call' := by
  rw [answers_answer, Table.get?_put]

/-- A handle that is held after the end of a call is what the call got, or was held before. -/
theorem held_answer_cases {call call' : Nat} {a : CacheAnswer κ α} {handle : Handle κ α}
    (hfree : s.held.get? call = none) (h : (s.answer call a).held.get? call' = some handle) :
    (call' = call ∧ a = .found handle) ∨ (call' ≠ call ∧ s.held.get? call' = some handle) := by
  have hother : s.held.get? call' = some handle → call' ≠ call := by
    rintro hold rfl
    rw [hfree] at hold
    cases hold
  cases a with
  | found new =>
      have h : (s.held.put call new).get? call' = some handle := h
      rcases Table.get?_put_cases h with ⟨heq, hnew⟩ | ⟨heq, hold⟩
      · exact Or.inl ⟨heq, by rw [hnew]⟩
      · exact Or.inr ⟨heq, hold⟩
  | failed failure => exact Or.inr ⟨hother h, h⟩
  | refused refusal => exact Or.inr ⟨hother h, h⟩
  | lost => exact Or.inr ⟨hother h, h⟩

theorem held_answer_distinct {call : Nat} (hdistinct : s.held.Distinct) (hfree : s.held.get? call = none)
    (a : CacheAnswer κ α) : (s.answer call a).held.Distinct := by
  cases a with
  | found handle => exact hdistinct.put hfree handle
  | failed failure => exact hdistinct
  | refused refusal => exact hdistinct
  | lost => exact hdistinct

/-- Victims that the cache gives up are owed nothing, and do not wait. -/
theorem owed_absorb_answer (s : CacheSystem κ α) (step : List (Victim κ α) × Cache κ α) (call : Nat)
    (a : CacheAnswer κ α) : ((s.absorb step).answer call a).owed = (s.answer call a).owed := by
  cases a <;> rfl

theorem waiting_absorb_answer (s : CacheSystem κ α) (step : List (Victim κ α) × Cache κ α) (call : Nat)
    (a : CacheAnswer κ α) : ((s.absorb step).answer call a).waiting = (s.answer call a).waiting := by
  cases a <;> rfl

theorem absorb_nil (s : CacheSystem κ α) (c : Cache κ α) :
    s.absorb ([], c) = { s with cache := c } := by
  unfold absorb
  rw [List.append_nil]

/-! ## Systems that are in order -/

variable [DecidableEq κ] {past : List (FinishedBuild κ α)}

/-- The builds that end in a run, in order. -/
def finished (s : CacheSystem κ α) : List (CacheEvent κ α) → List (FinishedBuild κ α)
  | [] => []
  | event :: rest => s.finishedBy event ++ (s.step event).finished rest

/-- A system that is in order after the builds of the `past`. -/
structure Sound (s : CacheSystem κ α) (past : List (FinishedBuild κ α)) : Prop where
  balanced : s.cache.Balanced s.owed s.waiting
  tidy : s.cache.Tidy
  /-- The descriptors that were built are those in the cache and the victims. -/
  conserved : (s.cache.current ++ s.cache.outdated ++ s.victims.map Victim.descriptor).Perm
    (past.filterMap FinishedBuild.descriptor?)
  numbersDistinct : (past.map FinishedBuild.id ++ s.cache.underWay).Nodup
  numbersBelow : ∀ id ∈ past.map FinishedBuild.id ++ s.cache.underWay, id < s.cache.nextId
  callsDistinct : s.calls.Distinct
  heldDistinct : s.held.Distinct
  builderSlot : ∀ call key id, s.calls.get? call = some ⟨key, .building id⟩ →
    ∃ slot, s.cache.building.get? key = some slot ∧ slot.id = id
  slotBuilder : ∀ key slot, s.cache.building.get? key = some slot →
    ∃ call, s.calls.get? call = some ⟨key, .building slot.id⟩
  oneBuilder : ∀ call call' key id id', s.calls.get? call = some ⟨key, .building id⟩ →
    s.calls.get? call' = some ⟨key, .building id'⟩ → call = call'
  expects : ∀ call key id, s.calls.get? call = some ⟨key, .waiting id⟩ →
    (∃ slot, s.cache.building.get? key = some slot ∧ slot.id = id) ∨
      ∃ outcome, ⟨key, id, outcome⟩ ∈ past ∧ s.cache.Offers key id outcome
  holds : ∀ call handle, s.held.get? call = some handle →
    s.cache.Holds handle.key handle.id handle.value
  heldAnswered : ∀ call handle, s.held.get? call = some handle →
    s.answers.get? call = some (.found handle)
  unanswered : ∀ call x, s.calls.get? call = some x → s.answers.get? call = none
  neverLost : ∀ call, s.answers.get? call ≠ some .lost

namespace Sound

/-- Someone waits where a wait is counted. -/
theorem exists_waiting (hs : s.Sound past) {id : Nat} (h : 0 < s.waiting id) :
    ∃ call key, s.calls.get? call = some ⟨key, .waiting id⟩ := by
  obtain ⟨⟨key, stage⟩, hmem, hstage⟩ := List.countP_pos_iff.mp h
  obtain ⟨⟨call, x⟩, hentry, hx⟩ := List.mem_map.mp hmem
  have hstage : stage = .waiting id := by simpa using hstage
  refine ⟨call, key, ?_⟩
  rw [← hstage, Table.get?_of_mem hs.callsDistinct hentry]
  exact congrArg some hx

/-- A handle is held where a reference is counted. -/
theorem exists_held (hs : s.Sound past) {id : Nat} (h : 0 < s.holders id) :
    ∃ call handle, s.held.get? call = some handle ∧ handle.id = id := by
  obtain ⟨handle, hmem, hid⟩ := List.countP_pos_iff.mp h
  obtain ⟨⟨call, x⟩, hentry, hx⟩ := List.mem_map.mp hmem
  refine ⟨call, handle, ?_, by simpa using hid⟩
  rw [Table.get?_of_mem hs.heldDistinct hentry]
  exact congrArg some hx

/-- A descriptor comes from a build of the past. -/
theorem descriptor_mem_past (hs : s.Sound past) {d : Nat × α}
    (hd : d ∈ s.cache.current ++ s.cache.outdated) : d.1 ∈ past.map FinishedBuild.id := by
  have hmem := hs.conserved.mem_iff.mp (List.mem_append_left _ hd)
  obtain ⟨f, hf, hfd⟩ := List.mem_filterMap.mp hmem
  rw [f.id_of_descriptor hfd]
  exact List.mem_map_of_mem hf

/-- A build under way has not ended. -/
theorem slot_not_mem_past (hs : s.Sound past) {key : κ} {slot : BuildSlot}
    (h : s.cache.building.get? key = some slot) : slot.id ∉ past.map FinishedBuild.id := by
  intro hmem
  exact (List.nodup_append.mp hs.numbersDistinct).2.2 _ hmem _
    (List.mem_map_of_mem (f := BuildSlot.id) (Table.mem_values_of_get? h)) rfl

/-- Nobody holds a handle to what is not built yet. -/
theorem holders_slot (hs : s.Sound past) {key : κ} {slot : BuildSlot}
    (h : s.cache.building.get? key = some slot) : s.holders slot.id = 0 := by
  refine Nat.eq_zero_of_not_pos ?_
  intro hpos
  obtain ⟨call, handle, hheld, hid⟩ := hs.exists_held hpos
  have hmem := hs.descriptor_mem_past ((hs.holds call handle hheld).mem hs.balanced)
  rw [hid] at hmem
  exact hs.slot_not_mem_past h hmem

/-- Nobody waits for a build that has not begun. -/
theorem waiting_nextId (hs : s.Sound past) : s.waiting s.cache.nextId = 0 := by
  refine Nat.eq_zero_of_not_pos ?_
  intro hpos
  obtain ⟨call, key, hcall⟩ := hs.exists_waiting hpos
  have hbelow : s.cache.nextId < s.cache.nextId := by
    rcases hs.expects call key _ hcall with ⟨slot, hslot, hid⟩ | ⟨outcome, hmem, -⟩
    · refine hs.numbersBelow _ (List.mem_append_right _ ?_)
      rw [← hid]
      exact List.mem_map_of_mem (f := BuildSlot.id) (Table.mem_values_of_get? hslot)
    · exact hs.numbersBelow _ (List.mem_append_left _
        (List.mem_map_of_mem (f := FinishedBuild.id) hmem))
  exact Nat.lt_irrefl _ hbelow

/-- What a waiter expects is not under way any more once it belongs to the past. -/
theorem not_inFlight (hs : s.Sound past) {key key' : κ} {id : Nat}
    {outcome : Except BuildFailure α} (hmem : ⟨key, id, outcome⟩ ∈ past) :
    ∀ slot, s.cache.building.get? key' = some slot → slot.id ≠ id := by
  intro slot hslot hid
  refine hs.slot_not_mem_past hslot ?_
  rw [hid]
  exact List.mem_map_of_mem (f := FinishedBuild.id) hmem

/-- No descriptor is in two places. -/
theorem placesDistinct (hs : s.Sound past) :
    ((s.cache.current ++ s.cache.outdated ++ s.victims.map Victim.descriptor).map
      Prod.fst).Nodup := by
  refine (hs.conserved.map Prod.fst).nodup_iff.mpr ?_
  exact List.Nodup.sublist (descriptors_sublist past) (List.nodup_append.mp hs.numbersDistinct).1

/-- What is in the cache is no victim. -/
theorem not_victim (hs : s.Sound past) {d : Nat × α}
    (hd : d ∈ s.cache.current ++ s.cache.outdated) : ∀ v ∈ s.victims, v.id ≠ d.1 := by
  have hplaces := hs.placesDistinct
  rw [List.map_append] at hplaces
  intro v hv heq
  refine (List.nodup_append.mp hplaces).2.2 _ (List.mem_map_of_mem (f := Prod.fst) hd) _
    (List.mem_map_of_mem (f := Prod.fst) (List.mem_map_of_mem (f := Victim.descriptor) hv)) ?_
  exact heq.symm

end Sound

/-! ## Events that leave calls and handles alone -/

theorem Sound.conserved_step (hs : s.Sound past) {c' : Cache κ α} (new : List (FinishedBuild κ α))
    {gone : List (Victim κ α)} {owed' : Nat → Nat}
    (hm : s.cache.Moves (new.filterMap FinishedBuild.descriptor?) gone c' owed') :
    (c'.current ++ c'.outdated ++ ((s.doomed ++ gone) ++ s.closed).map Victim.descriptor).Perm
      ((past ++ new).filterMap FinishedBuild.descriptor?) := by
  have hvictims : (((s.doomed ++ gone) ++ s.closed).map Victim.descriptor).Perm
      (gone.map Victim.descriptor ++ s.victims.map Victim.descriptor) := by
    rw [← List.map_append]
    refine List.Perm.map _ ?_
    rw [List.append_assoc]
    exact (List.perm_append_comm_assoc _ _ _).trans (List.Perm.refl _)
  refine (hvictims.append_left _).trans ?_
  rw [← List.append_assoc, List.filterMap_append]
  refine (((List.perm_append_comm).trans hm.stock.symm).append_right _).trans ?_
  rw [List.append_assoc]
  exact (hs.conserved.append_left _).trans List.perm_append_comm

/-- An event in which only the cache acts, after handles were given back, and no build begins or
ends. -/
theorem Sound.quiet (hs : s.Sound past) {c' : Cache κ α} {gone : List (Victim κ α)}
    {held' : Table Nat (Handle κ α)} (hdistinct : held'.Distinct)
    (hheld' : ∀ call handle, held'.get? call = some handle → s.held.get? call = some handle)
    (hb : c'.Balanced ({ s with held := held' } : CacheSystem κ α).owed s.waiting) (ht : c'.Tidy)
    (hm : s.cache.Moves [] gone c' ({ s with held := held' } : CacheSystem κ α).owed)
    (hbuilding : c'.building = s.cache.building) (hfailures : c'.failures = s.cache.failures)
    (hnext : c'.nextId = s.cache.nextId) :
    (({ s with held := held' } : CacheSystem κ α).absorb (gone, c')).Sound past := by
  have hway : c'.underWay = s.cache.underWay := by
    unfold Cache.underWay
    rw [hbuilding]
  have hconserved := hs.conserved_step [] hm
  rw [List.append_nil] at hconserved
  refine { hs with balanced := hb, tidy := ht, conserved := hconserved, numbersDistinct := ?_,
                   numbersBelow := ?_, builderSlot := ?_, slotBuilder := ?_, expects := ?_,
                   heldDistinct := hdistinct, holds := ?_, heldAnswered := ?_ }
  · show (_ ++ c'.underWay).Nodup
    rw [hway]
    exact hs.numbersDistinct
  · show ∀ id ∈ _ ++ c'.underWay, id < c'.nextId
    rw [hway, hnext]
    exact hs.numbersBelow
  · show ∀ call key id, _ → ∃ slot, c'.building.get? key = some slot ∧ slot.id = id
    rw [hbuilding]
    exact hs.builderSlot
  · show ∀ key slot, c'.building.get? key = some slot → _
    rw [hbuilding]
    exact hs.slotBuilder
  · -- what waiters expect is owed to them, so the cache has kept it
    intro call key id hcall
    show (∃ slot, c'.building.get? key = some slot ∧ slot.id = id) ∨ _
    rw [hbuilding]
    refine (hs.expects call key id hcall).imp_right ?_
    rintro ⟨outcome, hmem, hoffers⟩
    have howed : 0 < ({ s with held := held' } : CacheSystem κ α).owed id := owed_of_waiting hcall
    refine ⟨outcome, hmem, hm.offers ?_ howed hoffers⟩
    intro f hf
    rw [hfailures]
    exact ⟨f, hf, rfl⟩
  · intro call handle hheld
    have howed : 0 < ({ s with held := held' } : CacheSystem κ α).owed handle.id :=
      owed_of_held hheld
    exact hm.keeps _ _ _ (hs.holds call handle (hheld' call handle hheld)) howed
  · intro call handle hheld
    exact hs.heldAnswered call handle (hheld' call handle hheld)

theorem Sound.expire (hs : s.Sound past) : (s.step .expire).Sound past := by
  have hshed := Cache.Sheds.expire s.options s.now s.cache
  exact hs.quiet hs.heldDistinct (fun _ _ h => h) (hshed.balanced hs.balanced)
    (hshed.tidy hs.balanced hs.tidy) (hshed.moves hs.balanced) hshed.building_eq hshed.failures_eq
    hshed.nextId_eq

theorem Sound.invalidate (hs : s.Sound past) (key : κ) :
    (s.step (.invalidate key)).Sound past := by
  obtain ⟨hb, ht, hm, hbuilding, hfailures, hnext, -⟩ :=
    Cache.invalidate_spec hs.balanced hs.tidy key
  exact hs.quiet hs.heldDistinct (fun _ _ h => h) hb ht hm hbuilding hfailures hnext

theorem Sound.close (hs : s.Sound past) : (s.step .close).Sound past := by
  obtain ⟨hshed, ht, -⟩ := Cache.close_spec hs.tidy
  have hb : ({ s.cache with isClosed := s.cache.close.2.isClosed } : Cache κ α).Balanced
      s.owed s.waiting := hs.balanced.of_eq rfl rfl rfl rfl (Nat.le_refl _)
  have hm : s.cache.Moves [] s.cache.close.1 s.cache.close.2 s.owed :=
    ⟨(hshed.moves hb).stock, (hshed.moves hb).keeps⟩
  exact hs.quiet hs.heldDistinct (fun _ _ h => h) (hshed.balanced hb) ht hm hshed.building_eq
    hshed.failures_eq hshed.nextId_eq

theorem Sound.elapse (hs : s.Sound past) (ms : Nat) : (s.step (.elapse ms)).Sound past :=
  { hs with }

theorem Sound.dispose (hs : s.Sound past) (place : Nat) :
    (s.step (.dispose place)).Sound past := by
  unfold step
  cases hplace : s.doomed[place]? with
  | none => simpa only [hplace] using hs
  | some v =>
      simp only [hplace]
      obtain ⟨hlt, hget⟩ := List.getElem?_eq_some_iff.mp hplace
      have hvictims : (s.doomed.eraseIdx place ++ (s.closed ++ [v])).Perm s.victims := by
        rw [← List.append_assoc]
        refine (List.perm_append_singleton _ _).trans ?_
        rw [← List.cons_append, ← hget]
        exact (List.getElem_cons_eraseIdx_perm hlt).append_right _
      refine { hs with balanced := hs.balanced.of_eq rfl rfl rfl rfl (Nat.le_refl _),
                       conserved := ?_ }
      exact ((hvictims.map Victim.descriptor).append_left _).trans hs.conserved

/-! ## Calls that end -/

/-- A call that has no answer yet has no handle. -/
theorem Sound.held_none (hs : s.Sound past) {call : Nat} (h : s.answers.get? call = none) :
    s.held.get? call = none := by
  cases hheld : s.held.get? call with
  | none => rfl
  | some handle =>
      have := hs.heldAnswered call handle hheld
      rw [h] at this
      cases this

/-- A call ends. The hypotheses say what the cache has become: the books are right for those who
are left, builds under way and builders belong together, and those who wait can go on. -/
theorem Sound.answered (hs : s.Sound past) {call : Nat} {a : CacheAnswer κ α} (c' : Cache κ α)
    (gone : List (Victim κ α)) (new : List (FinishedBuild κ α))
    (hfree : s.answers.get? call = none) (hlost : a ≠ .lost)
    (hb : c'.Balanced (s.answer call a).owed (s.answer call a).waiting) (ht : c'.Tidy)
    (hm : s.cache.Moves (new.filterMap FinishedBuild.descriptor?) gone c' (s.answer call a).owed)
    (hnumbers : ((past ++ new).map FinishedBuild.id ++ c'.underWay).Perm
      (past.map FinishedBuild.id ++ s.cache.underWay))
    (hnext : c'.nextId = s.cache.nextId)
    (hslots : ∀ call' key id, call' ≠ call → s.calls.get? call' = some ⟨key, .building id⟩ →
      ∃ slot, c'.building.get? key = some slot ∧ slot.id = id)
    (hbuilders : ∀ key slot, c'.building.get? key = some slot →
      ∃ call', call' ≠ call ∧ s.calls.get? call' = some ⟨key, .building slot.id⟩)
    (hexpects : ∀ call' key id, call' ≠ call → s.calls.get? call' = some ⟨key, .waiting id⟩ →
      (∃ slot, c'.building.get? key = some slot ∧ slot.id = id) ∨
        ∃ outcome, ⟨key, id, outcome⟩ ∈ past ++ new ∧ c'.Offers key id outcome)
    (hhandle : ∀ handle, a = .found handle → c'.Holds handle.key handle.id handle.value) :
    ((s.absorb (gone, c')).answer call a).Sound (past ++ new) where
  balanced := by
    rw [cache_answer, owed_absorb_answer, waiting_absorb_answer]
    exact hb
  tidy := by
    rw [cache_answer]
    exact ht
  conserved := by
    rw [cache_answer, victims_answer]
    exact hs.conserved_step new hm
  numbersDistinct := by
    rw [cache_answer]
    exact hnumbers.nodup_iff.mpr hs.numbersDistinct
  numbersBelow id hid := by
    rw [cache_answer] at hid ⊢
    show id < c'.nextId
    rw [hnext]
    exact hs.numbersBelow id (hnumbers.mem_iff.mp hid)
  callsDistinct := by
    rw [calls_answer]
    exact hs.callsDistinct.erase call
  heldDistinct := held_answer_distinct (s := s.absorb (gone, c')) hs.heldDistinct (hs.held_none hfree) a
  builderSlot call' key id hcall' := by
    obtain ⟨hne, hold⟩ := calls_answer_cases hcall'
    rw [cache_answer]
    exact hslots call' key id hne hold
  slotBuilder key slot hslot := by
    -- a slot has a builder, which is not the call that ends
    rw [cache_answer] at hslot
    obtain ⟨call', hne, hcall'⟩ := hbuilders key slot hslot
    refine ⟨call', ?_⟩
    rw [calls_answer_of_ne _ _ hne]
    exact hcall'
  oneBuilder call₁ call₂ key id₁ id₂ h₁ h₂ :=
    hs.oneBuilder call₁ call₂ key id₁ id₂ (calls_answer_cases h₁).2 (calls_answer_cases h₂).2
  expects call' key id hcall' := by
    obtain ⟨hne, hold⟩ := calls_answer_cases hcall'
    rw [cache_answer]
    exact hexpects call' key id hne hold
  holds call' handle hheld := by
    rw [cache_answer]
    -- a handle is the new one, or was held before and its descriptor is kept
    have hcases := held_answer_cases (s := s.absorb (gone, c')) (hs.held_none hfree) hheld
    rcases hcases with ⟨-, hfound⟩ | ⟨-, hold⟩
    · exact hhandle handle hfound
    · refine hm.keeps _ _ _ (hs.holds call' handle hold) ?_
      rw [← owed_absorb_answer]
      exact owed_of_held hheld
  heldAnswered call' handle hheld := by
    rw [get?_answers_answer]
    have hcases := held_answer_cases (s := s.absorb (gone, c')) (hs.held_none hfree) hheld
    rcases hcases with ⟨heq, hfound⟩ | ⟨hne, hold⟩
    · rw [if_pos heq, hfound]
    · rw [if_neg hne]
      exact hs.heldAnswered call' handle hold
  unanswered call' x hx := by
    obtain ⟨hne, hold⟩ := calls_answer_cases hx
    rw [get?_answers_answer, if_neg hne]
    exact hs.unanswered call' x hold
  neverLost call' := by
    rw [get?_answers_answer]
    split
    · exact fun h => hlost (Option.some.inj h)
    · exact hs.neverLost call'

end CacheSystem

end Linkage

import Linkage.Proofs.Cache.Invariant
import Linkage.Cache.Provider

/-!
# Calls that ask and calls that build

Two of the events that calls take part in keep a system sound.

* **`Sound.left`**, **`Sound.enter`** — a call ends without a build of its own, a call comes in to
  wait or to build;
* **`Sound.request`** — a call asks for a key: it is refused, takes a descriptor, joins a build or
  begins one;
* **`Sound.complete`** — the build of a call ends, well or not.
-/

namespace Linkage.CacheSystem

variable {κ α : Type} [DecidableEq κ] {s : CacheSystem κ α} {past : List (FinishedBuild κ α)}

/-! ## Calls that end without a build of their own -/

/-- A call that is not building ends. Builds under way stay as they are but for their waiters, and
failures are kept for those who still wait. -/
theorem Sound.left (hs : s.Sound past) {call : Nat} {a : CacheAnswer κ α} (c' : Cache κ α)
    (hfree : s.answers.get? call = none)
    (hcall : ∀ key id, s.calls.get? call ≠ some ⟨key, .building id⟩) (hlost : a ≠ .lost)
    (hb : c'.Balanced (s.answer call a).owed (s.answer call a).waiting) (ht : c'.Tidy)
    (hm : s.cache.Moves [] [] c' (s.answer call a).owed)
    (hway : c'.underWay = s.cache.underWay) (hnext : c'.nextId = s.cache.nextId)
    (hslots : ∀ key id, (∃ slot, c'.building.get? key = some slot ∧ slot.id = id) ↔
      ∃ slot, s.cache.building.get? key = some slot ∧ slot.id = id)
    (hfailures : ∀ call' key id, call' ≠ call → s.calls.get? call' = some ⟨key, .waiting id⟩ →
      ∀ f, s.cache.failures.get? id = some f →
        ∃ f', c'.failures.get? id = some f' ∧ f'.failure = f.failure)
    (hhandle : ∀ handle, a = .found handle → c'.Holds handle.key handle.id handle.value) :
    (({ s with cache := c' } : CacheSystem κ α).answer call a).Sound past := by
  have hanswered := hs.answered c' [] [] hfree hlost
    hb ht hm ?_ hnext ?_ ?_ ?_ hhandle
  · rw [absorb_nil, List.append_nil] at hanswered
    exact hanswered
  · rw [List.append_nil, hway]
  · intro call' key id _ hcall'
    exact (hslots key id).mpr (hs.builderSlot call' key id hcall')
  · intro key slot hslot
    obtain ⟨slot', hslot', hid⟩ := (hslots key slot.id).mp ⟨slot, hslot, rfl⟩
    obtain ⟨call', hcall'⟩ := hs.slotBuilder key slot' hslot'
    rw [hid] at hcall'
    refine ⟨call', ?_, hcall'⟩
    rintro rfl
    exact hcall _ _ hcall'
  · intro call' key id hne hcall'
    rw [List.append_nil]
    rcases hs.expects call' key id hcall' with hflight | ⟨outcome, hmem, hoffers⟩
    · exact Or.inl ((hslots key id).mpr hflight)
    · refine Or.inr ⟨outcome, hmem, hm.offers (hfailures call' key id hne hcall') ?_ hoffers⟩
      exact owed_of_waiting ((calls_answer_of_ne s a hne).trans hcall')

/-! ## Requests -/

/-- A call that takes nothing from the cache ends. -/
theorem Sound.refused (hs : s.Sound past) {call : Nat} {refusal : CacheRefusal}
    (hcall : s.calls.get? call = none) (hfree : s.answers.get? call = none) :
    (s.answer call (.refused refusal)).Sound past := by
  have hwaiting := waiting_answer_of_new hcall (.refused refusal : CacheAnswer κ α)
  have howed : (s.answer call (.refused refusal)).owed = s.owed := by
    funext id
    show s.holders id + _ = s.holders id + s.waiting id
    rw [hwaiting]
  refine hs.left s.cache hfree (not_building_of_new hcall) (fun h => by cases h) ?_ hs.tidy
    (Cache.Moves.of_eq rfl rfl) rfl rfl (fun _ _ => Iff.rfl) ?_ (fun _ h => by cases h)
  · rw [howed, hwaiting]
    exact hs.balanced
  · intro _ _ _ _ _ f hf
    exact ⟨f, hf, rfl⟩

/-- A call takes a descriptor that is there. -/
theorem Sound.hit (hs : s.Sound past) {call : Nat} {key : κ} {e : CacheEntry α}
    (hcall : s.calls.get? call = none) (hfree : s.answers.get? call = none)
    (he : s.cache.entries.get? key = some e) (hopen : s.cache.isClosed = false) :
    (({ s with cache := s.cache.taken s.now key } : CacheSystem κ α).answer call
      (.found ⟨key, e.id, e.value⟩)).Sound past := by
  have hwaiting := waiting_answer_of_new hcall (.found ⟨key, e.id, e.value⟩ : CacheAnswer κ α)
  have howed : ∀ id, (s.answer call (.found ⟨key, e.id, e.value⟩)).owed id =
      s.owed id + if e.id == id then 1 else 0 := by
    intro id
    show (s.answer call _).holders id + (s.answer call _).waiting id = _
    rw [hwaiting, holders_answer_found (hs.held_none hfree)]
    show s.holders id + (if e.id == id then 1 else 0) + s.waiting id =
      s.holders id + s.waiting id + if e.id == id then 1 else 0
    omega
  refine hs.left _ hfree (not_building_of_new hcall) (fun h => by cases h) ?_ ⟨hs.tidy.1, ?_⟩
    (Cache.Moves.taken s.now key) rfl rfl (fun _ _ => Iff.rfl) ?_ ?_
  · rw [hwaiting]
    refine hs.balanced.taken he s.now ?_ ?_
    · rw [howed, if_pos (by simp)]
    · intro id hid
      rw [howed, if_neg (by simpa using hid.symm)]
      rfl
  · intro hclosed
    have hclosed : s.cache.isClosed = true := hclosed
    rw [hopen] at hclosed
    cases hclosed
  · intro _ _ _ _ _ f hf
    exact ⟨f, hf, rfl⟩
  · intro handle hfound
    injection hfound with hfound
    subst hfound
    refine Or.inl ⟨{ e with refs := e.refs + 1, lastUsed := s.now, tick := s.cache.tick + 1 },
      ?_, rfl, rfl⟩
    show (s.cache.entries.modify key _).get? key = _
    rw [Table.get?_modify, if_pos rfl, he]
    rfl

/-- A call comes in, to wait for a build under way or to do the only build of its key. The other
builds stay under way. -/
theorem Sound.enter (hs : s.Sound past) {call : Nat} {x : CacheCall κ} {c' : Cache κ α}
    (hcall : s.calls.get? call = none) (hfree : s.answers.get? call = none)
    (hb : c'.Balanced ({ s with calls := s.calls.put call x } : CacheSystem κ α).owed
      ({ s with calls := s.calls.put call x } : CacheSystem κ α).waiting)
    (hentries : c'.entries = s.cache.entries) (hretired : c'.retired = s.cache.retired)
    (hfailures : c'.failures = s.cache.failures) (hclosed : c'.isClosed = s.cache.isClosed)
    (hnodup : (past.map FinishedBuild.id ++ c'.underWay).Nodup)
    (hbelow : ∀ id ∈ past.map FinishedBuild.id ++ c'.underWay, id < c'.nextId)
    (hx : ∃ slot, c'.building.get? x.key = some slot ∧ (x.stage = .waiting slot.id ∨
      x.stage = .building slot.id ∧ s.cache.building.get? x.key = none))
    (hslots : ∀ key id, (∃ slot, s.cache.building.get? key = some slot ∧ slot.id = id) →
      ∃ slot, c'.building.get? key = some slot ∧ slot.id = id)
    (hbuilders : ∀ key slot, c'.building.get? key = some slot → x = ⟨key, .building slot.id⟩ ∨
      ∃ old, s.cache.building.get? key = some old ∧ old.id = slot.id) :
    ({ s with cache := c', calls := s.calls.put call x } : CacheSystem κ α).Sound past := by
  obtain ⟨slot, hslot, hstage⟩ := hx
  have hmoves : s.cache.Moves [] [] c' s.owed := Cache.Moves.of_eq hentries hretired
  -- no call that was there before does the build of the new call
  have hnone : ∀ {call' id id'}, x.stage = .building id →
      s.calls.get? call' ≠ some ⟨x.key, .building id'⟩ := by
    intro call' id id' hbuilds hcall'
    obtain ⟨old, hold, -⟩ := hs.builderSlot call' x.key id' hcall'
    rcases hstage with hwaits | ⟨-, hfresh⟩
    · rw [hbuilds] at hwaits
      cases hwaits
    · rw [hfresh] at hold
      cases hold
  refine { hs with balanced := hb, tidy := ?_, conserved := ?_, numbersDistinct := hnodup,
                   numbersBelow := hbelow, callsDistinct := hs.callsDistinct.put hcall _,
                   builderSlot := ?_, slotBuilder := ?_, oneBuilder := ?_, expects := ?_,
                   holds := ?_, unanswered := ?_ }
  · unfold Cache.Tidy
    rw [hentries, hretired, hclosed]
    exact hs.tidy
  · show (c'.current ++ c'.outdated ++ _).Perm _
    unfold Cache.current Cache.outdated
    rw [hentries, hretired]
    exact hs.conserved
  · -- builderSlot
    intro call' key id hcall'
    rcases Table.get?_put_cases hcall' with ⟨-, hnew⟩ | ⟨-, hold⟩
    · rw [← hnew] at hslot hstage
      rcases hstage with hwaits | ⟨hbuilds, -⟩
      · cases hwaits
      · injection hbuilds with hid
        exact ⟨slot, hslot, hid.symm⟩
    · exact hslots key id (hs.builderSlot call' key id hold)
  · -- slotBuilder
    intro key slot' hslot'
    show ∃ call', (s.calls.put call x).get? call' = _
    rcases hbuilders key slot' hslot' with hnew | ⟨old, hold, hid⟩
    · refine ⟨call, ?_⟩
      rw [Table.get?_put, if_pos rfl, hnew]
    · obtain ⟨call', hcall'⟩ := hs.slotBuilder key old hold
      have hne : call' ≠ call := by
        rintro rfl
        rw [hcall] at hcall'
        cases hcall'
      refine ⟨call', ?_⟩
      rw [Table.get?_put, if_neg hne, ← hid]
      exact hcall'
  · -- oneBuilder
    intro call₁ call₂ key id₁ id₂ h₁ h₂
    rcases Table.get?_put_cases h₁ with ⟨heq₁, hnew₁⟩ | ⟨-, hold₁⟩
    · rcases Table.get?_put_cases h₂ with ⟨heq₂, -⟩ | ⟨-, hold₂⟩
      · rw [heq₁, heq₂]
      · rw [← hnew₁] at hnone
        exact absurd hold₂ (hnone rfl)
    · rcases Table.get?_put_cases h₂ with ⟨-, hnew₂⟩ | ⟨-, hold₂⟩
      · rw [← hnew₂] at hnone
        exact absurd hold₁ (hnone rfl)
      · exact hs.oneBuilder call₁ call₂ key id₁ id₂ hold₁ hold₂
  · -- expects
    intro call' key id hcall'
    rcases Table.get?_put_cases hcall' with ⟨-, hnew⟩ | ⟨-, hold⟩
    · rw [← hnew] at hslot hstage
      rcases hstage with hwaits | ⟨hbuilds, -⟩
      · injection hwaits with hid
        exact Or.inl ⟨slot, hslot, hid.symm⟩
      · cases hbuilds
    · rcases hs.expects call' key id hold with hflight | ⟨outcome, hmem, hoffers⟩
      · exact Or.inl (hslots key id hflight)
      · refine Or.inr ⟨outcome, hmem, ?_⟩
        refine hmoves.offers ?_ ?_ hoffers
        · intro f hf
          rw [hfailures]
          exact ⟨f, hf, rfl⟩
        · exact owed_of_waiting hold
  · -- holds
    intro call' handle hheld
    exact hmoves.keeps _ _ _ (hs.holds call' handle hheld) (owed_of_held hheld)
  · -- unanswered
    intro call' y hy
    rcases Table.get?_put_cases hy with ⟨heq, -⟩ | ⟨-, hold⟩
    · rw [heq]
      exact hfree
    · exact hs.unanswered call' y hold

/-- A call joins a build that is under way. -/
theorem Sound.join (hs : s.Sound past) {call : Nat} {key : κ} {slot : BuildSlot}
    (hcall : s.calls.get? call = none) (hfree : s.answers.get? call = none)
    (hslot : s.cache.building.get? key = some slot) :
    ({ s with
      cache := s.cache.joined key
      calls := s.calls.put call ⟨key, .waiting slot.id⟩ } : CacheSystem κ α).Sound past := by
  have hwaiting : ∀ id, (s.calls.put call ⟨key, .waiting slot.id⟩).values.countP
      (·.stage == .waiting id) = s.waiting id + if slot.id = id then 1 else 0 := by
    intro id
    rw [Table.countP_values_put hcall]
    show s.waiting id + _ = s.waiting id + _
    by_cases hid : slot.id = id
    · rw [if_pos (by simp [hid]), if_pos hid]
    · rw [if_neg (by simp [hid]), if_neg hid]
  have hway : (s.cache.joined key).underWay = s.cache.underWay :=
    Table.map_values_modify _ _ _ _ (fun _ => rfl)
  have hjoined : (s.cache.joined key).building.get? key =
      some { slot with waiters := slot.waiters + 1 } := by
    show (s.cache.building.modify key _).get? key = _
    rw [Table.get?_modify, if_pos rfl, hslot]
    rfl
  refine hs.enter hcall hfree ?_ rfl rfl rfl rfl ?_ ?_ ⟨_, hjoined, Or.inl rfl⟩ ?_ ?_
  · -- one more waits for the build that is joined
    refine hs.balanced.joined hslot ?_ ?_
    · show (s.calls.put call _).values.countP _ = _
      rw [hwaiting, if_pos rfl]
    · intro id hid
      have hcount : (s.calls.put call ⟨key, .waiting slot.id⟩).values.countP
          (·.stage == .waiting id) = s.waiting id := by
        rw [hwaiting, if_neg (Ne.symm hid)]
        rfl
      refine ⟨?_, hcount⟩
      show s.holders id + (s.calls.put call _).values.countP _ = s.holders id + s.waiting id
      rw [hcount]
  · rw [hway]
    exact hs.numbersDistinct
  · rw [hway]
    exact hs.numbersBelow
  · rintro key' id ⟨slot', hslot', hid⟩
    show ∃ slot'', (s.cache.building.modify key _).get? key' = some slot'' ∧ _
    rw [Table.get?_modify]
    by_cases hkey : key' = key
    · rw [if_pos hkey, ← hkey, hslot']
      exact ⟨{ slot' with waiters := slot'.waiters + 1 }, rfl, hid⟩
    · rw [if_neg hkey]
      exact ⟨slot', hslot', hid⟩
  · intro key' slot' hslot'
    rcases Table.get?_modify_cases hslot hslot' with ⟨hkey, hnew⟩ | ⟨-, hold⟩
    · rw [hkey, hnew]
      exact Or.inr ⟨slot, hslot, rfl⟩
    · exact Or.inr ⟨slot', hold, rfl⟩

/-- A call begins a build. -/
theorem Sound.begin (hs : s.Sound past) {call : Nat} {key : κ} (hcall : s.calls.get? call = none)
    (hfree : s.answers.get? call = none) (hentry : s.cache.entries.get? key = none)
    (hslot : s.cache.building.get? key = none) :
    ({ s with
      cache := s.cache.begun key
      calls := s.calls.put call ⟨key, .building s.cache.nextId⟩ } : CacheSystem κ α).Sound
      past := by
  have hwaiting : ({ s with calls := s.calls.put call ⟨key, .building s.cache.nextId⟩ } :
      CacheSystem κ α).waiting = s.waiting := by
    funext id
    show (s.calls.put call _).values.countP _ = s.waiting id
    rw [Table.countP_values_put hcall]
    rfl
  have howed : ({ s with calls := s.calls.put call ⟨key, .building s.cache.nextId⟩ } :
      CacheSystem κ α).owed = s.owed := by
    funext id
    show s.holders id + _ = s.holders id + s.waiting id
    rw [hwaiting]
  have hway : (s.cache.begun key).underWay = s.cache.underWay ++ [s.cache.nextId] := by
    show (s.cache.building.put key _).values.map BuildSlot.id = _
    rw [Table.values_put_of_new hslot, List.map_append]
    rfl
  have hbegun : (s.cache.begun key).building.get? key = some ⟨s.cache.nextId, 0⟩ := by
    show (s.cache.building.put key _).get? key = _
    rw [Table.get?_put, if_pos rfl]
  refine hs.enter hcall hfree ?_ rfl rfl rfl rfl ?_ ?_ ⟨_, hbegun, Or.inr ⟨rfl, hslot⟩⟩ ?_ ?_
  · rw [hwaiting, howed]
    exact hs.balanced.begun hentry hslot hs.waiting_nextId
  · rw [hway, ← List.append_assoc]
    refine List.nodup_append.mpr ⟨hs.numbersDistinct, List.nodup_singleton _, ?_⟩
    intro id hid id' hid'
    rw [List.mem_singleton.mp hid']
    exact Nat.ne_of_lt (hs.numbersBelow id hid)
  · show ∀ id ∈ _ ++ (s.cache.begun key).underWay, id < s.cache.nextId + 1
    rw [hway, ← List.append_assoc]
    intro id hid
    rcases List.mem_append.mp hid with hid | hid
    · exact Nat.lt_succ_of_lt (hs.numbersBelow id hid)
    · rw [List.mem_singleton.mp hid]
      exact Nat.lt_succ_self _
  · rintro key' id ⟨slot', hslot', hid⟩
    have hkey : key' ≠ key := by
      rintro rfl
      rw [hslot] at hslot'
      cases hslot'
    refine ⟨slot', ?_, hid⟩
    show (s.cache.building.put key _).get? key' = _
    rw [Table.get?_put, if_neg hkey]
    exact hslot'
  · intro key' slot' hslot'
    rcases Table.get?_put_cases hslot' with ⟨hkey, hnew⟩ | ⟨-, hold⟩
    · rw [hkey, hnew]
      exact Or.inl rfl
    · exact Or.inr ⟨slot', hold, rfl⟩

/-- Every request keeps a system sound. -/
theorem Sound.request (hs : s.Sound past) (call : Nat) (key : κ) :
    (s.step (.request call key)).Sound past := by
  show (if s.isKnown call = true then s else s.request call key).Sound past
  by_cases hknown : s.isKnown call = true
  · rw [if_pos hknown]
    exact hs
  · rw [if_neg hknown]
    unfold isKnown at hknown
    rw [Bool.or_eq_true, not_or, Bool.not_eq_true, Bool.not_eq_true] at hknown
    have hcall := (Table.contains_eq_false _ _).mp hknown.1
    have hfree := (Table.contains_eq_false _ _).mp hknown.2
    unfold CacheSystem.request
    rcases Cache.request_cases s.options s.now s.cache key with
      ⟨-, heq⟩ | ⟨e, hopen, he, heq⟩ | ⟨slot, -, hslot, heq⟩ | ⟨-, hentry, hslot, heq⟩
    · rw [heq]
      exact hs.refused hcall hfree
    · rw [heq]
      exact hs.hit hcall hfree he hopen
    · rw [heq]
      exact hs.join hcall hfree hslot
    · rw [heq]
      exact hs.begin hcall hfree hentry hslot

/-! ## Ends of builds -/

theorem complete_def (s : CacheSystem κ α) (call : Nat) (key : κ) (id : Nat)
    (outcome : Except BuildFailure α) :
    s.complete call key id outcome =
      (s.absorb (s.cache.complete s.options s.now key id outcome)).answer call
        (.ofBuild key id outcome) := by
  cases outcome <;> rfl

/-- The builds under way after one of them has ended. -/
theorem underWay_erase (hs : s.Sound past) {key : κ} {slot : BuildSlot} {c' : Cache κ α}
    (hslot : s.cache.building.get? key = some slot)
    (hbuilding : c'.building = s.cache.building.erase key) :
    s.cache.underWay.Perm (slot.id :: c'.underWay) := by
  show (s.cache.building.values.map BuildSlot.id).Perm (slot.id :: c'.building.values.map BuildSlot.id)
  rw [hbuilding]
  exact (Table.values_perm_erase hs.balanced.buildingDistinct hslot).map BuildSlot.id

/-- A build ends. The hypotheses say what the cache is before anything is evicted. -/
theorem Sound.settle (hs : s.Sound past) {call : Nat} {key : κ} {slot : BuildSlot}
    {outcome : Except BuildFailure α}
    (hcall : s.calls.get? call = some ⟨key, .building slot.id⟩)
    (hslot : s.cache.building.get? key = some slot) {owed' : Nat → Nat}
    (howed : (s.answer call (.ofBuild key slot.id outcome)).owed = owed')
    (hb : (s.cache.settled s.now key slot.id outcome).Balanced owed' s.waiting)
    (ht : (s.cache.settled s.now key slot.id outcome).Tidy)
    (hm : s.cache.Moves ([⟨key, slot.id, outcome⟩].filterMap FinishedBuild.descriptor?) []
      (s.cache.settled s.now key slot.id outcome) owed')
    (hhandle : ∀ handle, CacheAnswer.ofBuild key slot.id outcome = .found handle →
      (s.cache.settled s.now key slot.id outcome).Holds handle.key handle.id handle.value ∧
        0 < owed' handle.id) :
    (s.complete call key slot.id outcome).Sound (past ++ [⟨key, slot.id, outcome⟩]) := by
  have hwaiting := waiting_answer_of_building hs.callsDistinct hcall
    (.ofBuild key slot.id outcome)
  have hshed := Cache.Sheds.evictExcess s.options (s.cache.settled s.now key slot.id outcome)
    hb.entriesDistinct
  rw [← Cache.complete_eq] at hshed
  have hbuilding : (s.cache.complete s.options s.now key slot.id outcome).2.building =
      s.cache.building.erase key := by
    rw [hshed.building_eq, Cache.building_settled]
  have hmoves := hm.shed hb hshed
  rw [complete_def]
  refine hs.answered (s.cache.complete s.options s.now key slot.id outcome).2 _ _
    (hs.unanswered call _ hcall) ?_ ?_ (hshed.tidy hb ht) ?_ ?_ ?_ ?_ ?_ ?_ ?_
  · cases outcome <;> exact fun h => by cases h
  · rw [howed, hwaiting]
    exact hshed.balanced hb
  · rw [howed]
    exact hmoves
  · have hway := underWay_erase hs hslot hbuilding
    rw [List.map_append, List.append_assoc]
    exact hway.symm.append_left _
  · rw [hshed.nextId_eq, Cache.nextId_settled]
  · -- the slot that goes is that of no other builder
    intro call' key' id hne hcall'
    obtain ⟨slot', hslot', hid⟩ := hs.builderSlot call' key' id hcall'
    refine ⟨slot', ?_, hid⟩
    have hkey : key' ≠ key := by
      rintro rfl
      exact hne (hs.oneBuilder call' call key' id slot.id hcall' hcall)
    rw [hbuilding, Table.get?_erase_of_ne _ hkey]
    exact hslot'
  · -- the other slots keep their builders
    intro key' slot' hslot'
    rw [hbuilding] at hslot'
    obtain ⟨hkey, hslot'⟩ := Table.get?_erase_cases hslot'
    obtain ⟨call', hcall'⟩ := hs.slotBuilder key' slot' hslot'
    refine ⟨call', ?_, hcall'⟩
    rintro rfl
    rw [hcall] at hcall'
    injection hcall' with hcall'
    injection hcall' with hsame _
    exact hkey hsame.symm
  · -- waiters find what has ended, whether it ended now or before
    intro call' key' id hne hcall'
    have hpos : 0 < s.waiting id := waiting_pos hcall'
    have hpos' : 0 < owed' id := by
      rw [← howed]
      exact owed_of_waiting ((calls_answer_of_ne s _ hne).trans hcall')
    have hended : ∀ {o : Except BuildFailure α},
        (s.cache.settled s.now key slot.id outcome).Offers key' id o →
        (s.cache.complete s.options s.now key slot.id outcome).2.Offers key' id o := by
      intro o hoffers
      refine (hshed.moves hb).offers ?_ hpos' hoffers
      intro f hf
      rw [hshed.failures_eq]
      exact ⟨f, hf, rfl⟩
    rcases hs.expects call' key' id hcall' with ⟨slot', hslot', hid⟩ | ⟨o, hmem, hoffers⟩
    · by_cases hkey : key' = key
      · -- the build that is awaited is the one that ends
        subst hkey
        rw [hslot] at hslot'
        injection hslot' with hslot'
        subst hslot'
        subst hid
        refine Or.inr ⟨outcome, List.mem_append_right _ (List.mem_singleton.mpr rfl), ?_⟩
        exact hended (Cache.offers_settled hs.balanced hslot s.now outcome hpos)
      · refine Or.inl ⟨slot', ?_, hid⟩
        rw [hbuilding, Table.get?_erase_of_ne _ hkey]
        exact hslot'
    · refine Or.inr ⟨o, List.mem_append_left _ hmem, hended ?_⟩
      refine hm.offers ?_ hpos' hoffers
      intro f hf
      exact ⟨f, Cache.failures_settled hs.balanced hslot s.now outcome hf, rfl⟩
  · intro handle hfound
    obtain ⟨hheld, hpos⟩ := hhandle handle hfound
    exact hshed.holds hb hheld hpos

/-- The end of a build keeps a system sound. -/
theorem Sound.complete (hs : s.Sound past) {call id : Nat} {key : κ}
    (hcall : s.calls.get? call = some ⟨key, .building id⟩) (outcome : Except BuildFailure α) :
    (s.complete call key id outcome).Sound (past ++ [⟨key, id, outcome⟩]) := by
  obtain ⟨slot, hslot, rfl⟩ := hs.builderSlot call key id hcall
  have hfree := hs.unanswered call _ hcall
  have hwaiting := waiting_answer_of_building hs.callsDistinct hcall
    (.ofBuild key slot.id outcome)
  cases outcome with
  | ok value =>
      have howed : ∀ id, (s.answer call (.found ⟨key, slot.id, value⟩)).owed id =
          s.owed id + if slot.id == id then 1 else 0 := by
        intro id
        have hwaiting : (s.answer call (.found ⟨key, slot.id, value⟩)).waiting = s.waiting := hwaiting
        show (s.answer call _).holders id + (s.answer call _).waiting id = _
        rw [hwaiting, holders_answer_found (hs.held_none hfree)]
        show s.holders id + (if slot.id == id then 1 else 0) + s.waiting id =
          s.holders id + s.waiting id + if slot.id == id then 1 else 0
        omega
      have hnew : (s.answer call (.found ⟨key, slot.id, value⟩)).owed slot.id =
          1 + s.waiting slot.id := by
        rw [howed, if_pos (by simp)]
        show s.holders slot.id + s.waiting slot.id + 1 = _
        rw [hs.holders_slot hslot]
        omega
      refine hs.settle hcall hslot rfl ?_ ⟨hs.tidy.1, ?_⟩
        (Cache.Moves.settled_ok hs.balanced hslot s.now value) ?_
      · refine hs.balanced.settled_ok hslot s.now value hnew ?_
        intro id hid
        show (s.answer call (.found ⟨key, slot.id, value⟩)).owed id = s.owed id
        rw [howed, if_neg (by simpa using hid.symm)]
        rfl
      · intro hclosed key' e he
        rcases Table.get?_put_cases he with ⟨-, heq⟩ | ⟨-, hold⟩
        · rw [heq]
          exact Nat.lt_of_lt_of_le Nat.zero_lt_one (Nat.le_add_right _ _)
        · exact hs.tidy.2 hclosed key' e hold
      · intro handle hfound
        injection hfound with hfound
        subst hfound
        refine ⟨Or.inl ⟨⟨slot.id, value,
          1 + ((s.cache.building.get? key).map (·.waiters)).getD 0, s.now, s.cache.tick + 1⟩, ?_,
          rfl, rfl⟩, ?_⟩
        · show (s.cache.entries.put key _).get? key = _
          rw [Table.get?_put, if_pos rfl]
        · show 0 < (s.answer call (.found ⟨key, slot.id, value⟩)).owed slot.id
          rw [hnew]
          omega
  | error failure =>
      have howed : (s.answer call (.failed failure)).owed = s.owed := by
        funext id
        have hwaiting : (s.answer call (.failed failure)).waiting = s.waiting := hwaiting
        show s.holders id + (s.answer call (.failed failure)).waiting id = s.holders id + s.waiting id
        rw [hwaiting]
      exact hs.settle hcall hslot howed (hs.balanced.settled_error hslot s.now failure)
        ⟨hs.tidy.1, hs.tidy.2⟩ (Cache.Moves.settled_error s.now key slot.id failure)
        (by rintro handle hfound; cases hfound)

end Linkage.CacheSystem

import Linkage.Proofs.Cache.Evictions

/-!
# What leaves a cache for want of room

When a descriptor has to go, it is the one that was acquired least recently among those that nobody is owed,
and no more go than have to.

* **`Sound.fits_step`** — there is room, or everything is referenced, which every event preserves;
* **`Sound.owed_of_leaves`** — nothing that is owed to someone leaves;
* **`Sound.evicts_step`** — an open cache whose descriptors do not expire loses one at a time;
* **`Occupancy`**, **`occupancy_run`** — all of it, for every run of a system that begins empty.
-/

namespace Linkage

variable {κ α : Type}

namespace CacheSystem

variable [DecidableEq κ] {s : CacheSystem κ α} {past : List (FinishedBuild κ α)} {history : List Nat}

/-! ## What an event does to the room -/

/-- Every event leaves a cache in which everything fits. -/
theorem Sound.fits_step (hs : s.Sound past) (h : s.cache.Fits s.options.capacity)
    (event : CacheEvent κ α) : (s.step event).cache.Fits s.options.capacity := by
  have hacts := hs.acts event
  generalize (s.step event).cache = c', (s.step event).closed = closed' at hacts ⊢
  cases hacts with
  | idle | refused => exact h
  | @taken call key => exact h.taken s.now key
  | joined | begun | abandoned | disposed => exact h.of_eq rfl
  | @completed call key slot outcome hslot =>
      obtain ⟨gone, hgone⟩ := Cache.evicts_evictOldest
        ((s.cache.settled s.now key slot.id outcome).size - s.options.capacity)
        (hs.balanced.distinct_settled hslot s.now outcome)
      rw [Cache.complete_eq]
      exact hgone.fits
  | observed key id => exact h.of_eq (Cache.frame_observe s.cache key id).1
  | @released call handle hheld =>
      obtain ⟨hlowered, -⟩ := hs.release_sheds hheld
      have hgiven := (Cache.giveBack_spec hs.balanced hs.tidy s.now (hs.holds call handle hheld)
        (owed_of_held hheld)).1
      obtain ⟨gone, hgone⟩ := Cache.evicts_evictOldest
        ((s.cache.giveBack s.now handle.key handle.id).2.size - s.options.capacity)
        (hgiven.entriesDistinct hlowered.entriesDistinct)
      exact hgone.fits.shed (Cache.Sheds.expire s.options s.now _)
  | expired => exact h.shed (Cache.Sheds.expire s.options s.now s.cache)
  | invalidated key => exact h.invalidate key
  | closing =>
      have hmarked : ({ s.cache with isClosed := s.cache.close.2.isClosed } : Cache κ α).Fits
          s.options.capacity := h.of_eq rfl
      exact hmarked.shed (Cache.close_spec hs.tidy).1

theorem Sound.fits_run (hs : s.Sound past) (h : s.cache.Fits s.options.capacity)
    (events : List (CacheEvent κ α)) : (s.run events).cache.Fits (s.run events).options.capacity := by
  induction events generalizing s past with
  | nil => exact h
  | cons event rest ih =>
      have hstep := hs.fits_step h event
      rw [← options_step s event] at hstep
      exact ih (hs.step event) hstep

/-- The number of descriptors that an event makes. -/
def madeBy (s : CacheSystem κ α) (event : CacheEvent κ α) : Nat :=
  ((s.finishedBy event).filterMap FinishedBuild.descriptor?).length

/-- While a cache is open, and descriptors neither expire nor are invalidated, an event only evicts, and takes
one descriptor at most. -/
theorem Sound.evicts_step (hs : s.Sound past) (h : s.cache.Fits s.options.capacity)
    {event : CacheEvent κ α} (httl : s.options.idleTtl = none)
    (hopen : (s.step event).cache.isClosed = false) (hevent : ∀ key, event ≠ .invalidate key) :
    ∃ c gone, s.cache.Revises (s.madeBy event) c ∧ c.entries.Distinct ∧
      c.Evicts (c.size - s.options.capacity) gone (s.step event).cache ∧ gone.length ≤ 1 := by
  have hfits := hs.fits_step h event
  have hdistinct := (hs.step event).balanced.entriesDistinct
  have hwasOpen : s.cache.isClosed = false := by
    refine Bool.eq_false_iff.mpr ?_
    intro hclosed
    rw [(hs.becomes_step event).closed hclosed] at hopen
    cases hopen
  have hacts := hs.acts event
  unfold madeBy
  generalize (s.step event).cache = c', (s.step event).closed = closed' at hacts hfits hdistinct hopen ⊢
  have hquiet : s.cache.Revises 0 c' → s.finishedBy event = [] →
      ∃ c gone, s.cache.Revises ((s.finishedBy event).filterMap FinishedBuild.descriptor?).length c ∧
        c.entries.Distinct ∧ c.Evicts (c.size - s.options.capacity) gone c' ∧ gone.length ≤ 1 := by
    intro hrevises hfinished
    rw [hfinished]
    exact ⟨c', [], hrevises, hdistinct, .of_fits hfits, Nat.zero_le _⟩
  cases hacts with
  | idle hasked hfinished => exact hquiet (.of_eq rfl) hfinished
  | refused => exact hquiet (.of_eq rfl) rfl
  | @taken call key =>
      refine hquiet (.modifyEntry s.cache key
        (fun e => { e with refs := e.refs + 1, lastUsed := s.now, tick := s.cache.tick + 1 })
        (fun _ => rfl) ?_ rfl) rfl
      intro e hzero
      exact absurd hzero (Nat.succ_ne_zero _)
  | joined | begun | abandoned | disposed => exact hquiet (.of_eq rfl) rfl
  | observed key id => exact hquiet (.of_eq (Cache.frame_observe s.cache key id).1) rfl
  | @completed call key slot outcome hslot hfinished =>
      have hsettled := hs.balanced.distinct_settled hslot s.now outcome
      have hrevises := Cache.Revises.settled hs.balanced hslot s.now outcome
      have hone := List.length_filterMap_le FinishedBuild.descriptor? [⟨key, slot.id, outcome⟩]
      obtain ⟨gone, hgone⟩ := Cache.evicts_evictOldest
        ((s.cache.settled s.now key slot.id outcome).size - s.options.capacity) hsettled
      rw [hfinished, Cache.complete_eq]
      refine ⟨_, gone, hrevises, hsettled, hgone, hgone.length_le_one hsettled ?_⟩
      rcases h with hroom | hrefs
      · refine Or.inl ?_
        rw [hrevises.size]
        exact Nat.add_le_add hroom hone
      · refine Or.inr ⟨key, ?_⟩
        intro e he hzero
        have hpos := Cache.refs_pos_settled hrefs (hs.balanced.entry_none hslot) s.now slot.id outcome e he
        omega
  | @released call handle hheld =>
      have hentries := Cache.entries_giveBack hwasOpen s.now handle.key handle.id
      have hlowered := (hs.release_sheds hheld).1.entriesDistinct
      have hrevises := (Cache.Revises.lowered s.now s.cache handle.key handle.id).congr hentries
      rw [← hentries] at hlowered
      obtain ⟨gone, hgone⟩ := Cache.evicts_evictOldest
        ((s.cache.giveBack s.now handle.key handle.id).2.size - s.options.capacity) hlowered
      have hrelease : (s.cache.release s.options s.now handle.key handle.id).2 =
          ((s.cache.giveBack s.now handle.key handle.id).2.evictExcess s.options).2 := by
        simp only [Cache.release, Cache.expire, httl]
      rw [hrelease]
      refine ⟨_, gone, hrevises, hlowered, hgone, hgone.length_le_one hlowered ?_⟩
      rcases h with hroom | hrefs
      · refine Or.inl ?_
        rw [hrevises.size]
        omega
      · refine Or.inr ⟨handle.key, ?_⟩
        rw [hentries]
        exact Cache.key_of_lowered hrefs s.now handle.key handle.id
  | expired =>
      have hexpire : (s.cache.expire s.options s.now).2 = s.cache := by simp only [Cache.expire, httl]
      exact hquiet (.of_eq (by rw [hexpire])) rfl
  | invalidated key => exact absurd rfl (hevent key)
  | closing =>
      rw [(Cache.close_spec hs.tidy).2.2] at hopen
      cases hopen

/-! ## What leaves -/

/-- The descriptor of a key is not under it any more. -/
def Leaves (s s' : CacheSystem κ α) (key : κ) (e : CacheEntry α) : Prop :=
  s.cache.entries.get? key = some e ∧ ∀ e', s'.cache.entries.get? key = some e' → e'.id ≠ e.id

/-- A descriptor that leaves its key is under no other. -/
theorem Sound.not_mem_of_leaves (hs : s.Sound past) {event : CacheEvent κ α} {key : κ}
    {e : CacheEntry α} (h : s.Leaves (s.step event) key e) :
    ∀ key' e', (s.step event).cache.entries.get? key' = some e' → e'.id ≠ e.id := by
  intro key' e' he' hid
  rcases (hs.becomes_step event).carries key' e.id (Or.inl ⟨e', he', hid⟩) with
    (⟨x, hx, hxid⟩ | ⟨slot, hslot, hslotId⟩) | ⟨-, -, hnew⟩
  · have hkey := hs.balanced.key_unique hx h.1 hxid
    subst hkey
    exact h.2 e' he' hid
  · exact hs.balanced.descriptor_ne_slot (Cache.entry_mem h.1) hslot hslotId.symm
  · have hbelow := hs.balanced.numbersBelow e.id
      (List.mem_append_left _ (List.mem_append_left _ (List.mem_map_of_mem (Cache.entry_mem h.1))))
    omega

/-- Only an invalidation retires a descriptor. -/
theorem Sound.retired_step (hs : s.Sound past) {event : CacheEvent κ α}
    (hevent : ∀ key, event ≠ .invalidate key) {id : Nat} {e : CacheEntry α}
    (he : (s.step event).cache.retired.get? id = some e) :
    ∃ old, s.cache.retired.get? id = some old := by
  have hdistinct := hs.balanced.retiredDistinct
  have hacts := hs.acts event
  generalize (s.step event).cache = c', (s.step event).closed = closed' at hacts he
  cases hacts with
  | idle | refused | taken | joined | begun | abandoned | disposed => exact ⟨e, he⟩
  | observed key id' =>
      rw [(Cache.frame_observe s.cache key id').2.2.2.2] at he
      exact ⟨e, he⟩
  | @completed call key slot outcome hslot =>
      have hretired : (s.cache.settled s.now key slot.id outcome).retired = s.cache.retired := by
        cases outcome <;> rfl
      have hold := (hs.complete_sheds hslot outcome).get?_retired (hretired ▸ hdistinct) he
      rw [hretired] at hold
      exact ⟨e, hold⟩
  | @released call handle hheld =>
      obtain ⟨hlowered, hshed, -⟩ := hs.release_sheds hheld
      have hold := hshed.get?_retired hlowered.retiredDistinct he
      unfold Cache.lowered at hold
      split at hold
      · exact ⟨e, hold⟩
      · obtain ⟨old, hget, -⟩ := Table.exists_of_get?_modify (CacheEntry.id)
          (f := fun e => { e with refs := e.refs - 1 }) (fun _ => rfl) hold
        exact ⟨old, hget⟩
  | expired => exact ⟨e, (Cache.Sheds.expire s.options s.now s.cache).get?_retired hdistinct he⟩
  | invalidated key => exact absurd rfl (hevent key)
  | closing => exact ⟨e, (Cache.close_spec hs.tidy).1.get?_retired hdistinct he⟩

/-- What was built and is neither under a key nor retired is owed to nobody. -/
theorem Sound.owed_of_gone (hs : s.Sound past) {d : Nat × α}
    (hbuilt : d ∈ past.filterMap FinishedBuild.descriptor?)
    (hgone : d ∉ s.cache.current ++ s.cache.outdated) : s.owed d.1 = 0 := by
  have hplace := hs.conserved.mem_iff.mpr hbuilt
  obtain ⟨v, hv, rfl⟩ := List.mem_map.mp ((List.mem_append.mp hplace).resolve_left hgone)
  have hheld : s.holders v.id = 0 := by
    refine Nat.eq_zero_of_not_pos ?_
    intro hpos
    obtain ⟨call, handle, hhandle, hid⟩ := hs.exists_held hpos
    exact hs.not_victim ((hs.holds call handle hhandle).mem hs.balanced) v hv hid.symm
  have hawaited : s.waiting v.id = 0 := by
    refine Nat.eq_zero_of_not_pos ?_
    intro hpos
    obtain ⟨call, key, hcall⟩ := hs.exists_waiting hpos
    exact hs.victim_not_awaited hv call key hcall
  show s.holders v.id + s.waiting v.id = 0
  rw [hheld, hawaited]

/-- Unless it is invalidated, a descriptor leaves only when it is owed to nobody. -/
theorem Sound.owed_of_leaves (hs : s.Sound past) {event : CacheEvent κ α} {key : κ}
    {e : CacheEntry α} (h : s.Leaves (s.step event) key e) (hevent : ∀ key, event ≠ .invalidate key) :
    (s.step event).owed e.id = 0 := by
  have hs' := hs.step event
  have hmem := Cache.entry_mem h.1
  have hbuilt : e.descriptor ∈ (past ++ s.finishedBy event).filterMap FinishedBuild.descriptor? := by
    rw [List.filterMap_append]
    exact List.mem_append_left _ (hs.conserved.mem_iff.mp (List.mem_append_left _ hmem))
  refine hs'.owed_of_gone hbuilt ?_
  intro hplace
  rcases List.mem_append.mp hplace with hplace | hplace
  · obtain ⟨x, hx, hdescriptor⟩ := List.mem_map.mp hplace
    obtain ⟨⟨key', y⟩, hentry, rfl⟩ := List.mem_map.mp hx
    have hget := Table.get?_of_mem hs'.balanced.entriesDistinct hentry
    exact hs.not_mem_of_leaves h key' y hget (congrArg Prod.fst hdescriptor)
  · obtain ⟨x, hx, hdescriptor⟩ := List.mem_map.mp hplace
    obtain ⟨⟨id, y⟩, hentry, rfl⟩ := List.mem_map.mp hx
    have hget := Table.get?_of_mem hs'.balanced.retiredDistinct hentry
    obtain ⟨old, hold⟩ := hs.retired_step hevent hget
    have hid : y.id = e.id := congrArg Prod.fst hdescriptor
    rw [hs'.balanced.retiredNumber id y hget] at hid
    exact hs.balanced.entry_ne_retired h.1 hold hid.symm

/-- What leaves for want of room was acquired less recently than all that could have gone instead. -/
theorem Sound.lessRecent_of_leaves (hs : s.Sound past) (hranked : s.cache.Ranked history)
    {event : CacheEvent κ α} {key : κ} {e : CacheEntry α} (h : s.Leaves (s.step event) key e)
    {key' : κ} {e' : CacheEntry α} (he' : (s.step event).cache.entries.get? key' = some e')
    (hle : e.tick ≤ e'.tick) : LessRecent (history ++ s.acquiredBy event) e.id e'.id := by
  have hages := hs.ages_step event
  have hnew : e.id ∉ s.acquiredBy event := by
    intro hmem
    obtain ⟨k, x, hx, hid⟩ := hages.present e.id hmem
    exact hs.not_mem_of_leaves h k x hx hid
  rcases hages.entries key' e' he' with ⟨-, old, hold, hid, htick⟩ | ⟨hacquired, -, -⟩
  · rw [← htick] at hle
    rcases hranked.order key key' e old h.1 hold hle with rfl | hrecent
    · -- a key has one descriptor
      have hsame : some e = some old := h.1.symm.trans hold
      injection hsame with hsame
      exact absurd (hid.symm.trans (congrArg CacheEntry.id hsame.symm)) (h.2 e' he')
    · rw [hid] at hrecent
      exact hrecent.append hnew
  · exact .of_new (by simp [hacquired]) hnew

/-- What is true of the descriptors in a system that has acquired them in this order. -/
structure Occupancy (s : CacheSystem κ α) (acquired : List Nat) : Prop where
  /-- There is room, or everything is referenced. -/
  fits : s.cache.size ≤ s.options.capacity ∨
    ∀ key e, s.cache.entries.get? key = some e → 0 < e.refs
  /-- The places of the descriptors are the order in which they were acquired last. -/
  order : ∀ key key' e e', s.cache.entries.get? key = some e → s.cache.entries.get? key' = some e' →
    key ≠ key' → (e.tick < e'.tick ↔ LessRecent acquired e.id e'.id)
  /-- A descriptor that is built is under its key, and referenced. -/
  made : ∀ event, ∀ f ∈ s.finishedBy event, ∀ value, f.outcome = .ok value →
    ∃ e, (s.step event).cache.entries.get? f.key = some e ∧ e.descriptor = (f.id, value) ∧ 0 < e.refs
  /-- Unless its key is invalidated, a descriptor stays as long as it is owed to someone. -/
  referenced : ∀ event key e, (∀ k, event ≠ .invalidate k) → s.Leaves (s.step event) key e →
    (s.step event).owed e.id = 0
  /-- From an open cache whose descriptors do not expire one leaves only if there is one too many. No other
  leaves with it, and those that stay without being referenced were acquired after it. -/
  evicted : ∀ event key e, s.options.idleTtl = none → (s.step event).cache.isClosed = false →
    (∀ k, event ≠ .invalidate k) → s.Leaves (s.step event) key e →
      s.options.capacity < s.cache.size + s.madeBy event ∧
        (s.step event).cache.size + 1 = s.cache.size + s.madeBy event ∧
        (∀ key' e', s.Leaves (s.step event) key' e' → key' = key) ∧
        ∀ key' e', (s.step event).cache.entries.get? key' = some e' → e'.refs = 0 →
          LessRecent (acquired ++ s.acquiredBy event) e.id e'.id

theorem Sound.made_step (hs : s.Sound past) (event : CacheEvent κ α) {f : FinishedBuild κ α}
    (hf : f ∈ s.finishedBy event) {value : α} (hvalue : f.outcome = .ok value) :
    ∃ e, (s.step event).cache.entries.get? f.key = some e ∧ e.descriptor = (f.id, value) ∧
      0 < e.refs := by
  cases event with
  | complete call outcome =>
      rcases step_complete_cases s call outcome with ⟨key, id, hcall, hstep, hdone⟩ | ⟨-, hdone⟩
      · obtain ⟨slot, hslot, rfl⟩ := hs.builderSlot call key id hcall
        rw [hdone] at hf
        obtain rfl := List.mem_singleton.mp hf
        have houtcome : outcome = .ok value := hvalue
        subst houtcome
        -- it is referenced by the one who built it, so the eviction leaves it
        have hentry : (s.cache.settled s.now key slot.id (.ok value)).entries.get? key = some _ :=
          (Table.get?_put ..).trans (if_pos rfl)
        have hpos := hs.balanced.refs_settled hslot s.now (.ok value) hentry rfl
        have hkept := (hs.complete_sheds hslot (.ok value)).keeps_entry
          (hs.balanced.distinct_settled hslot s.now (.ok value)) hentry hpos
        rw [hstep, complete_def, cache_answer]
        exact ⟨_, hkept, rfl, hpos⟩
      · rw [hdone] at hf
        cases hf
  | _ => cases hf

theorem Sound.evicted_step (hs : s.Sound past) (hfits : s.cache.Fits s.options.capacity)
    (hranked : s.cache.Ranked history) {event : CacheEvent κ α} {key : κ} {e : CacheEntry α}
    (httl : s.options.idleTtl = none) (hopen : (s.step event).cache.isClosed = false)
    (hevent : ∀ k, event ≠ .invalidate k) (h : s.Leaves (s.step event) key e) :
    s.options.capacity < s.cache.size + s.madeBy event ∧
      (s.step event).cache.size + 1 = s.cache.size + s.madeBy event ∧
      (∀ key' e', s.Leaves (s.step event) key' e' → key' = key) ∧
      ∀ key' e', (s.step event).cache.entries.get? key' = some e' → e'.refs = 0 →
        LessRecent (history ++ s.acquiredBy event) e.id e'.id := by
  obtain ⟨c, gone, hrevises, hdistinct, hevicts, hone⟩ := hs.evicts_step hfits httl hopen hevent
  have hdistinct' := (hs.step event).balanced.entriesDistinct
  -- what leaves is what is evicted
  have hgone : ∀ key' e', s.Leaves (s.step event) key' e' → ∃ x, (key', x) ∈ gone ∧
      (x.refs = 0 → x.tick = e'.tick) := by
    intro key' e' hleaves
    obtain ⟨x, hx, hid, htick⟩ := hrevises.kept key' e' hleaves.1
    rcases List.mem_append.mp (hevicts.split.mem_iff.mp (Table.mem_of_get? hx)) with hmem | hmem
    · exact ⟨x, hmem, htick⟩
    · exact absurd hid (hleaves.2 x (Table.get?_of_mem hdistinct' hmem))
  obtain ⟨x, hx, htick⟩ := hgone key e h
  have honly : gone = [(key, x)] := by
    obtain ⟨g, rfl⟩ := List.length_eq_one_iff.mp (Nat.le_antisymm hone (List.length_pos_of_mem hx))
    rw [List.mem_singleton.mp hx]
  have hsize := hevicts.size
  have hneeded := hevicts.needed (List.ne_nil_of_mem hx)
  rw [honly, List.length_singleton, hrevises.size] at hsize
  refine ⟨by omega, by omega, ?_, ?_⟩
  · intro key' e' hleaves
    obtain ⟨y, hy, -⟩ := hgone key' e' hleaves
    rw [honly] at hy
    exact congrArg Prod.fst (List.mem_singleton.mp hy)
  · intro key' e' he' hzero
    refine hs.lessRecent_of_leaves hranked h he' ?_
    rw [← htick (hevicts.unreferenced _ hx)]
    exact hevicts.oldest _ hx _ (Table.mem_of_get? he') hzero

theorem Sound.occupancy (hs : s.Sound past) (hfits : s.cache.Fits s.options.capacity)
    (hranked : s.cache.Ranked history) : s.Occupancy history where
  fits := hfits.imp_right fun hrefs key e he => hrefs _ (Table.mem_of_get? he)
  order key key' e e' he he' hne := by
    refine ⟨?_, ?_⟩
    · intro hlt
      exact (hranked.order key key' e e' he he' (Nat.le_of_lt hlt)).resolve_left hne
    · intro hrecent
      by_contra hnot
      have hback := hranked.order key' key e' e he' he (Nat.le_of_not_lt hnot)
      exact hrecent.asymm (hback.resolve_left hne.symm)
  made event f hf value hvalue := hs.made_step event hf hvalue
  referenced event key e hevent h := hs.owed_of_leaves h hevent
  evicted event key e httl hopen hevent h := hs.evicted_step hfits hranked httl hopen hevent h

/-- Whatever happens to a cache that begins empty, of whatever capacity and in whatever order, what it holds
fits or is referenced, and what leaves for want of room is the one that was acquired least recently of those
that nobody is owed. -/
theorem occupancy_run (o : CacheOptions) (events : List (CacheEvent κ α)) :
    (({ options := o } : CacheSystem κ α).run events).Occupancy
      (({ options := o } : CacheSystem κ α).acquired events) := by
  have hnew := sound_new (κ := κ) (α := α) o
  exact (hnew.run events).occupancy (hnew.fits_run (Or.inl (Nat.zero_le _)) events)
    (hnew.ranked_run (ranked_new o) events)

/-- With room for two, the descriptor that was taken again stays, although it was built first. -/
example : (({ options := { name := "plugins", capacity := 2 } } : CacheSystem String Nat).run
    [.request 0 "a", .complete 0 (.ok 7), .release 0, .request 1 "b", .complete 1 (.ok 8), .release 1,
      .request 2 "a", .release 2, .request 3 "c", .complete 3 (.ok 9)]).cache.entries.keys =
        ["a", "c"] := by
  rfl

end CacheSystem

end Linkage

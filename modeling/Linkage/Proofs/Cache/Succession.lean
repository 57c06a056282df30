import Linkage.Proofs.Cache.Runs

/-!
# The builds that stand for keys

A key has the number of a build if its descriptor comes from that build, or if that build is under way
for it. Numbers are given out in the order in which builds begin, so they tell how old a build is.

* **`Carries`** — the number of a build stands for a key;
* **`Becomes`** — what a cache may become in one step: a number comes to a key only as the newest of
  all, when a call asks for that key while the cache is open;
* **`Sound.becomes_step`** — every event is of this kind.
-/

namespace Linkage

variable {κ α : Type} [DecidableEq κ]

/-- The key that an event asks for. -/
def CacheEvent.asked? : CacheEvent κ α → Option κ
  | .request _ key => some key
  | _ => none

namespace Cache

variable {c c' c'' : Cache κ α} {asked : Option κ}

/-- The number of a build stands for a key: it is that of the descriptor or of the build under way. -/
def Carries (c : Cache κ α) (key : κ) (id : Nat) : Prop :=
  (∃ e, c.entries.get? key = some e ∧ e.id = id) ∨
    ∃ slot, c.building.get? key = some slot ∧ slot.id = id

/-- A step of a cache in which a key may be asked for. -/
structure Becomes (c : Cache κ α) (asked : Option κ) (c' : Cache κ α) : Prop where
  nextId : c.nextId ≤ c'.nextId
  closed : c.isClosed = true → c'.isClosed = true
  carries : ∀ key id, c'.Carries key id →
    c.Carries key id ∨ c.isClosed = false ∧ asked = some key ∧ id = c.nextId

namespace Becomes

/-- Nothing happens to what stands for keys. -/
theorem of_eq (hentries : c'.entries = c.entries) (hbuilding : c'.building = c.building)
    (hnext : c'.nextId = c.nextId) (hclosed : c.isClosed = true → c'.isClosed = true) :
    c.Becomes asked c' := by
  refine ⟨Nat.le_of_eq hnext.symm, hclosed, ?_⟩
  intro key id hcarries
  unfold Carries at hcarries
  rw [hentries, hbuilding] at hcarries
  exact Or.inl hcarries

theorem refl (c : Cache κ α) : c.Becomes asked c := of_eq rfl rfl rfl id

/-- A step, and then one that asks for nothing. -/
theorem trans (h : c.Becomes asked c') (h' : c'.Becomes none c'') : c.Becomes asked c'' := by
  refine ⟨Nat.le_trans h.nextId h'.nextId, fun hclosed => h'.closed (h.closed hclosed), ?_⟩
  intro key id hcarries
  rcases h'.carries key id hcarries with hbefore | ⟨-, hnone, -⟩
  · exact h.carries key id hbefore
  · cases hnone

/-- The entry of a key changes, but not its number. -/
theorem modifyEntry (c : Cache κ α) (key : κ) (f : CacheEntry α → CacheEntry α)
    (hf : ∀ e, (f e).id = e.id) :
    c.Becomes asked { c with entries := c.entries.modify key f } := by
  refine ⟨Nat.le_refl _, id, ?_⟩
  rintro key' id (⟨e, he, hid⟩ | hslot)
  · obtain ⟨old, hold, hsame⟩ := Table.exists_of_get?_modify CacheEntry.id hf he
    exact Or.inl (Or.inl ⟨old, hold, hsame.trans hid⟩)
  · exact Or.inl (Or.inr hslot)

/-- The build slot of a key changes, but not its number. -/
theorem modifySlot (c : Cache κ α) (key : κ) (f : BuildSlot → BuildSlot)
    (hf : ∀ slot, (f slot).id = slot.id) :
    c.Becomes asked { c with building := c.building.modify key f } := by
  refine ⟨Nat.le_refl _, id, ?_⟩
  rintro key' id (hentry | ⟨slot, hslot, hid⟩)
  · exact Or.inl (Or.inl hentry)
  · obtain ⟨old, hold, hsame⟩ := Table.exists_of_get?_modify BuildSlot.id hf hslot
    exact Or.inl (Or.inr ⟨old, hold, hsame.trans hid⟩)

theorem lowered (c : Cache κ α) (now : Nat) (key : κ) (id : Nat) :
    c.Becomes asked (c.lowered now key id) := by
  unfold Cache.lowered
  split
  · exact modifyEntry c key _ (fun _ => rfl)
  · exact of_eq rfl rfl rfl (fun h => h)

theorem observe (c : Cache κ α) (key : κ) (id : Nat) : c.Becomes asked (c.observe key id).2 := by
  unfold Cache.observe
  split
  · exact refl c
  · split
    · exact of_eq rfl rfl rfl (fun h => h)
    · split <;> exact refl c

/-- A request begins a build of its key, or none at all. -/
theorem request (o : CacheOptions) (now : Nat) (c : Cache κ α) (key : κ) :
    c.Becomes (some key) (c.request o now key).2 := by
  rcases request_cases o now c key with ⟨-, heq⟩ | ⟨e, -, -, heq⟩ | ⟨slot, -, -, heq⟩ |
    ⟨hopen, -, -, heq⟩
  · rw [heq]
    exact refl c
  · rw [heq]
    have htaken : c.Becomes (some key) _ := modifyEntry c key
      (fun e => { e with refs := e.refs + 1, lastUsed := now, tick := c.tick + 1 }) (fun _ => rfl)
    exact htaken.trans (of_eq rfl rfl rfl (fun h => h))
  · rw [heq]
    have hjoined : c.Becomes (some key) _ := modifySlot c key
      (fun slot => { slot with waiters := slot.waiters + 1 }) (fun _ => rfl)
    exact hjoined.trans (of_eq rfl rfl rfl (fun h => h))
  · rw [heq]
    refine ⟨Nat.le_succ _, fun h => h, ?_⟩
    rintro key' id (hentry | ⟨slot, hslot, hid⟩)
    · exact Or.inl (Or.inl hentry)
    · rcases Table.get?_put_cases hslot with ⟨rfl, rfl⟩ | ⟨-, hold⟩
      · exact Or.inr ⟨hopen, rfl, hid.symm⟩
      · exact Or.inl (Or.inr ⟨slot, hold, hid⟩)

/-- The descriptor that a build makes has the number that stood for the build. -/
theorem settled {key : κ} {slot : BuildSlot} (hs : c.building.get? key = some slot) (now : Nat)
    (outcome : Except BuildFailure α) : c.Becomes asked (c.settled now key slot.id outcome) := by
  refine ⟨Nat.le_of_eq (nextId_settled ..).symm, ?_, ?_⟩
  · cases outcome <;> exact fun h => h
  · rintro key' id (⟨e, he, hid⟩ | ⟨slot', hslot', hid⟩)
    · refine Or.inl ?_
      cases outcome with
      | ok value =>
          rcases Table.get?_put_cases he with ⟨rfl, rfl⟩ | ⟨-, hold⟩
          · exact Or.inr ⟨slot, hs, hid⟩
          · exact Or.inl ⟨e, hold, hid⟩
      | error failure => exact Or.inl ⟨e, he, hid⟩
    · rw [building_settled] at hslot'
      exact Or.inl (Or.inr ⟨slot', (Table.get?_erase_cases hslot').2, hid⟩)

theorem invalidate (c : Cache κ α) (key : κ) : c.Becomes asked (c.invalidate key).2 := by
  have herased : ∀ retired, c.Becomes asked
      { c with entries := c.entries.erase key, retired := retired } := by
    intro retired
    refine ⟨Nat.le_refl _, fun h => h, ?_⟩
    rintro key' id (⟨e, he, hid⟩ | hslot)
    · exact Or.inl (Or.inl ⟨e, (Table.get?_erase_cases he).2, hid⟩)
    · exact Or.inl (Or.inr hslot)
  rcases invalidate_cases c key with ⟨-, heq⟩ | ⟨e, -, -, heq⟩ | ⟨e, -, -, heq⟩
  · rw [heq]
    exact refl c
  · rw [heq]
    exact herased c.retired
  · rw [heq]
    exact herased (c.retired.put e.id e)

end Becomes

/-- A cache that gives up descriptors keeps no others. -/
theorem Sheds.becomes {victims : List (Victim κ α)} (h : c.Sheds victims c')
    (hdistinct : c.entries.Distinct) : c.Becomes asked c' := by
  refine ⟨Nat.le_of_eq h.nextId_eq.symm, fun hclosed => h.isClosed_eq.trans hclosed, ?_⟩
  rintro key id (⟨e, he, hid⟩ | ⟨slot, hslot, hid⟩)
  · exact Or.inl (Or.inl ⟨e, h.get?_entry hdistinct he, hid⟩)
  · rw [h.building_eq] at hslot
    exact Or.inl (Or.inr ⟨slot, hslot, hid⟩)

theorem Balanced.distinct_settled {owed waits : Nat → Nat} (b : c.Balanced owed waits) {key : κ}
    {slot : BuildSlot} (hs : c.building.get? key = some slot) (now : Nat)
    (outcome : Except BuildFailure α) : (c.settled now key slot.id outcome).entries.Distinct := by
  cases outcome with
  | ok value => exact b.entriesDistinct.put (b.entry_none hs) _
  | error failure => exact b.entriesDistinct

/-- The end of a build with the evictions that come of it. -/
theorem Balanced.becomes_complete {owed waits : Nat → Nat} (b : c.Balanced owed waits) {key : κ}
    {slot : BuildSlot} (hs : c.building.get? key = some slot) (o : CacheOptions) (now : Nat)
    (outcome : Except BuildFailure α) :
    c.Becomes asked (c.complete o now key slot.id outcome).2 := by
  have hdistinct := b.distinct_settled hs now outcome
  rw [complete_eq]
  exact (Becomes.settled hs now outcome).trans
    ((Sheds.evictExcess o (c.settled now key slot.id outcome) hdistinct).becomes hdistinct)

end Cache

namespace CacheSystem

variable {s : CacheSystem κ α} {past : List (FinishedBuild κ α)}

/-- Whatever happens, a number comes to a key only as the newest of all, when a call asks for that
key while the cache is open. -/
theorem Sound.becomes_step (hs : s.Sound past) (event : CacheEvent κ α) :
    s.cache.Becomes event.asked? (s.step event).cache := by
  have hdistinct := hs.balanced.entriesDistinct
  cases event with
  | elapse ms => exact Cache.Becomes.refl _
  | expire => exact (Cache.Sheds.expire s.options s.now s.cache).becomes hdistinct
  | request call key =>
      have hrequest := Cache.Becomes.request s.options s.now s.cache key
      unfold CacheSystem.step CacheSystem.request
      simp only
      split
      · exact Cache.Becomes.refl _
      · split
        all_goals simp only [cache_answer]
        all_goals exact hrequest
  | complete call outcome =>
      rcases step_complete_cases s call outcome with ⟨key, id, hcall, hstep, -⟩ | ⟨hstep, -⟩
      · obtain ⟨slot, hslot, rfl⟩ := hs.builderSlot call key id hcall
        rw [hstep, complete_def, cache_answer]
        exact hs.balanced.becomes_complete hslot s.options s.now outcome
      · rw [hstep]
        exact Cache.Becomes.refl _
  | wake call =>
      rcases step_wake_cases s call with ⟨key, id, -, hstep⟩ | hstep
      · have hobserve : s.cache.Becomes none _ := Cache.Becomes.observe s.cache key id
        rw [hstep]
        unfold CacheSystem.wake
        rcases hsighting : (s.cache.observe key id).1 with _ | handle | failure | _
        all_goals simp only [hsighting, cache_answer]
        all_goals exact hobserve
      · rw [hstep]
        exact Cache.Becomes.refl _
  | abandon call reason =>
      rcases step_abandon_cases s call reason with ⟨key, id, -, hstep⟩ | hstep
      · rw [hstep]
        unfold CacheSystem.abandon
        split
        · rw [cache_answer]
          exact Cache.Becomes.modifySlot s.cache key _ (fun _ => rfl)
        · exact Cache.Becomes.refl _
      · rw [hstep]
        exact Cache.Becomes.refl _
  | release call =>
      rcases step_release_cases s call with ⟨handle, hheld, hstep⟩ | hstep
      · obtain ⟨hlowered, hshed, -⟩ := hs.release_sheds hheld
        rw [hstep]
        exact (Cache.Becomes.lowered s.cache s.now handle.key handle.id).trans
          (hshed.becomes hlowered.entriesDistinct)
      · rw [hstep]
        exact Cache.Becomes.refl _
  | invalidate key => exact Cache.Becomes.invalidate s.cache key
  | close =>
      obtain ⟨hshed, -, hclosed⟩ := Cache.close_spec hs.tidy
      have hmarked : s.cache.Becomes (none : Option κ)
          { s.cache with isClosed := s.cache.close.2.isClosed } :=
        Cache.Becomes.of_eq rfl rfl rfl (fun _ => hclosed)
      exact hmarked.trans (hshed.becomes hdistinct)
  | dispose place =>
      unfold CacheSystem.step
      simp only
      split
      · exact Cache.Becomes.refl _
      · exact Cache.Becomes.of_eq rfl rfl rfl (fun h => h)

end CacheSystem

end Linkage

import Linkage.Proofs.Cache.Succession

/-!
# Keys that nobody asks for

A key is vacant if it has neither a descriptor nor a build under way. Only a request for it can change
that: **`Sound.vacant_run`**. A build that fails leaves its key vacant (**`Sound.vacant_of_failure`**),
and the next call that asks for a vacant key builds (**`request_vacant`**).
-/

namespace Linkage

variable {κ α : Type} [DecidableEq κ]

namespace Cache

variable {c c' : Cache κ α}

/-- A key has neither a descriptor nor a build under way. -/
def Vacant (c : Cache κ α) (key : κ) : Prop :=
  c.entries.get? key = none ∧ c.building.get? key = none

/-- No build stands for a vacant key. -/
theorem vacant_iff {key : κ} : c.Vacant key ↔ ∀ id, ¬ c.Carries key id := by
  constructor
  · rintro ⟨hentry, hslot⟩ id (⟨e, he, -⟩ | ⟨slot, hbuilds, -⟩)
    · rw [hentry] at he
      cases he
    · rw [hslot] at hbuilds
      cases hbuilds
  · intro h
    refine ⟨Option.eq_none_iff_forall_ne_some.mpr ?_, Option.eq_none_iff_forall_ne_some.mpr ?_⟩
    · exact fun e he => h e.id (Or.inl ⟨e, he, rfl⟩)
    · exact fun slot hslot => h slot.id (Or.inr ⟨slot, hslot, rfl⟩)

/-- A key that is not asked for stays vacant. -/
theorem Vacant.becomes {key : κ} (h : c.Vacant key) {asked : Option κ} (hb : c.Becomes asked c')
    (hasked : asked ≠ some key) : c'.Vacant key := by
  refine vacant_iff.mpr ?_
  intro id hcarries
  rcases hb.carries key id hcarries with hbefore | ⟨-, hsame, -⟩
  · exact vacant_iff.mp h id hbefore
  · exact hasked hsame

end Cache

namespace CacheSystem

variable {s : CacheSystem κ α} {past : List (FinishedBuild κ α)}

/-- A key stays vacant as long as nobody asks for it. -/
theorem Sound.vacant_run (hs : s.Sound past) {key : κ} (h : s.cache.Vacant key)
    {later : List (CacheEvent κ α)} (hlater : ∀ caller, .request caller key ∉ later) :
    (s.run later).cache.Vacant key := by
  induction later generalizing s past with
  | nil => exact h
  | cons event rest ih =>
      refine ih (hs.step event) (h.becomes (hs.becomes_step event) ?_) ?_
      · intro hasked
        cases event with
        | request caller key' =>
            injection hasked with hkey
            exact hlater caller (by rw [hkey]; exact List.mem_cons_self)
        | _ => cases hasked
      · intro caller hmem
        exact hlater caller (List.mem_cons_of_mem _ hmem)

/-- Where a key is vacant, and the cache open, the next call that asks for it builds. -/
theorem request_vacant {key : κ} (h : s.cache.Vacant key) {call : Nat}
    (hnew : s.isKnown call = false) (hopen : s.cache.isClosed = false) :
    (s.step (.request call key)).calls.get? call = some ⟨key, .building s.cache.nextId⟩ := by
  have hrequest : s.cache.request s.options s.now key =
      (.build s.cache.nextId, s.cache.begun key) := by
    rcases Cache.request_cases s.options s.now s.cache key with ⟨hclosed, -⟩ | ⟨e, -, he, -⟩ |
      ⟨slot, -, hslot, -⟩ | ⟨-, -, -, heq⟩
    · rw [hopen] at hclosed
      cases hclosed
    · rw [h.1] at he
      cases he
    · rw [h.2] at hslot
      cases hslot
    · exact heq
  have hstep : s.step (.request call key) = s.request call key := by
    show (if s.isKnown call = true then s else s.request call key) = s.request call key
    rw [hnew]
    rfl
  rw [hstep]
  unfold CacheSystem.request
  rw [hrequest]
  show (s.calls.put call _).get? call = _
  rw [Table.get?_put, if_pos rfl]

/-- A build that fails leaves its key vacant. -/
theorem Sound.vacant_of_failure (hs : s.Sound past) {call id : Nat} {key : κ}
    (hcall : s.calls.get? call = some ⟨key, .building id⟩) (failure : BuildFailure) :
    (s.step (.complete call (.error failure))).cache.Vacant key := by
  obtain ⟨slot, hslot, rfl⟩ := hs.builderSlot call key id hcall
  have hdistinct := hs.balanced.distinct_settled hslot s.now (.error failure)
  have hshed := Cache.Sheds.evictExcess s.options _ hdistinct
  rw [← Cache.complete_eq] at hshed
  have hstep : s.step (.complete call (.error failure)) =
      s.complete call key slot.id (.error failure) := by
    simp only [CacheSystem.step, hcall]
  have hsettled : (s.cache.settled s.now key slot.id (.error failure)).Vacant key := by
    refine ⟨hs.balanced.entry_none hslot, ?_⟩
    rw [Cache.building_settled, Table.get?_erase_self]
  have hevicted : (s.cache.settled s.now key slot.id (.error failure)).Becomes none _ :=
    hshed.becomes hdistinct
  rw [hstep, complete_def, cache_answer]
  exact hsettled.becomes hevicted (fun h => by cases h)

end CacheSystem

end Linkage

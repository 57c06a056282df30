import Linkage.Proofs.Cache.Succession

/-!
# What events do to a cache

Every event does at most one step of the cache. Which step it is, and under what condition, is said here
once; what a run does to a cache is read off from it.

* **`asked`** — the requests of a run, with how each of them goes on;
* **`Acts`**, **`Sound.acts`** — the steps that an event may do.
-/

namespace Linkage

variable {κ α : Type} [DecidableEq κ]

/-- A waiter that looks takes at most its failure away. -/
theorem Cache.frame_observe (c : Cache κ α) (key : κ) (id : Nat) :
    (c.observe key id).2.entries = c.entries ∧ (c.observe key id).2.tick = c.tick ∧
      (c.observe key id).2.building = c.building ∧ (c.observe key id).2.counts = c.counts ∧
      (c.observe key id).2.retired = c.retired := by
  unfold Cache.observe
  split
  · exact ⟨rfl, rfl, rfl, rfl, rfl⟩
  · split
    · exact ⟨rfl, rfl, rfl, rfl, rfl⟩
    · split <;> exact ⟨rfl, rfl, rfl, rfl, rfl⟩

namespace CacheSystem

variable {s : CacheSystem κ α} {past : List (FinishedBuild κ α)}

/-- The call that an event makes, with how its request goes on. -/
def askedBy (s : CacheSystem κ α) : CacheEvent κ α → List (Nat × CacheRequest κ α)
  | .request call key =>
    if s.isKnown call then [] else [(call, (s.cache.request s.options s.now key).1)]
  | _ => []

/-- The calls that are made in a run, in order. -/
def asked (s : CacheSystem κ α) : List (CacheEvent κ α) → List (Nat × CacheRequest κ α)
  | [] => []
  | event :: rest => s.askedBy event ++ (s.step event).asked rest

/-- The step of the cache that an event does, with what the cache becomes and with the victims that have
been closed after it. -/
inductive Acts (s : CacheSystem κ α) : CacheEvent κ α → Cache κ α → List (Victim κ α) → Prop
  | idle {event : CacheEvent κ α} (hasked : s.askedBy event = [])
      (hfinished : s.finishedBy event = []) : s.Acts event s.cache s.closed
  | refused {call : Nat} {key : κ}
      (hasked : s.askedBy (.request call key) = [(call, .refused (.closed s.options.name))]) :
      s.Acts (.request call key) s.cache s.closed
  | taken {call : Nat} {key : κ} {e : CacheEntry α} (he : s.cache.entries.get? key = some e)
      (hasked : s.askedBy (.request call key) = [(call, .hit ⟨key, e.id, e.value⟩)]) :
      s.Acts (.request call key) (s.cache.taken s.now key) s.closed
  | joined {call : Nat} {key : κ} {slot : BuildSlot} (hslot : s.cache.building.get? key = some slot)
      (hasked : s.askedBy (.request call key) = [(call, .wait slot.id)]) :
      s.Acts (.request call key) (s.cache.joined key) s.closed
  | begun {call : Nat} {key : κ} (hslot : s.cache.building.get? key = none)
      (hasked : s.askedBy (.request call key) = [(call, .build s.cache.nextId)]) :
      s.Acts (.request call key) (s.cache.begun key) s.closed
  | completed {call : Nat} {key : κ} {slot : BuildSlot} {outcome : Except BuildFailure α}
      (hslot : s.cache.building.get? key = some slot)
      (hfinished : s.finishedBy (.complete call outcome) = [⟨key, slot.id, outcome⟩]) :
      s.Acts (.complete call outcome) (s.cache.complete s.options s.now key slot.id outcome).2 s.closed
  | observed {call : Nat} (key : κ) (id : Nat) :
      s.Acts (.wake call) (s.cache.observe key id).2 s.closed
  | abandoned {call : Nat} {reason : String} (key : κ) :
      s.Acts (.abandon call reason) (s.cache.abandon key) s.closed
  | released {call : Nat} {handle : Handle κ α} (hheld : s.held.get? call = some handle) :
      s.Acts (.release call) (s.cache.release s.options s.now handle.key handle.id).2 s.closed
  | expired : s.Acts .expire (s.cache.expire s.options s.now).2 s.closed
  | invalidated (key : κ) : s.Acts (.invalidate key) (s.cache.invalidate key).2 s.closed
  | closing : s.Acts .close s.cache.close.2 s.closed
  | disposed {place : Nat} (v : Victim κ α) :
      s.Acts (.dispose place) s.cache.countEviction (s.closed ++ [v])

theorem acts_request (s : CacheSystem κ α) (call : Nat) (key : κ) :
    s.Acts (.request call key) (s.step (.request call key)).cache
      (s.step (.request call key)).closed := by
  by_cases hknown : s.isKnown call = true
  · have hstep : s.step (.request call key) = s := if_pos hknown
    rw [hstep]
    exact .idle (if_pos hknown) rfl
  · have hstep : s.step (.request call key) = s.request call key := if_neg hknown
    have hasked : s.askedBy (.request call key) =
        [(call, (s.cache.request s.options s.now key).1)] := if_neg hknown
    rw [hstep]
    unfold request
    rcases Cache.request_cases s.options s.now s.cache key with ⟨-, heq⟩ | ⟨e, -, he, heq⟩ |
      ⟨slot, -, hslot, heq⟩ | ⟨-, -, hslot, heq⟩ <;>
    rw [heq] at hasked <;> simp only [heq, cache_answer, closed_answer]
    · exact .refused hasked
    · exact .taken he hasked
    · exact .joined hslot hasked
    · exact .begun hslot hasked

/-- Every event does one of the steps. -/
theorem Sound.acts (hs : s.Sound past) (event : CacheEvent κ α) :
    s.Acts event (s.step event).cache (s.step event).closed := by
  cases event with
  | elapse ms => exact .idle rfl rfl
  | expire => exact .expired
  | request call key => exact acts_request s call key
  | complete call outcome =>
      rcases step_complete_cases s call outcome with ⟨key, id, hcall, hstep, hdone⟩ | ⟨hstep, hdone⟩
      · obtain ⟨slot, hslot, rfl⟩ := hs.builderSlot call key id hcall
        rw [hstep, complete_def, cache_answer, closed_answer]
        exact .completed hslot hdone
      · rw [hstep]
        exact .idle rfl hdone
  | wake call =>
      rcases step_wake_cases s call with ⟨key, id, -, hstep⟩ | hstep
      · have hobserved : s.Acts (.wake call) _ _ := .observed key id
        rw [hstep]
        unfold CacheSystem.wake
        rcases hsighting : (s.cache.observe key id).1 with _ | handle | failure | _ <;>
        simp only [hsighting, cache_answer, closed_answer] <;> exact hobserved
      · rw [hstep]
        exact .idle rfl rfl
  | abandon call reason =>
      rcases step_abandon_cases s call reason with ⟨key, id, -, hstep⟩ | hstep
      · rw [hstep]
        unfold CacheSystem.abandon
        split
        · rw [cache_answer, closed_answer]
          exact .abandoned key
        · exact .idle rfl rfl
      · rw [hstep]
        exact .idle rfl rfl
  | release call =>
      rcases step_release_cases s call with ⟨handle, hheld, hstep⟩ | hstep
      · rw [hstep]
        exact .released hheld
      · rw [hstep]
        exact .idle rfl rfl
  | invalidate key => exact .invalidated key
  | close => exact .closing
  | dispose place =>
      cases hplace : s.doomed[place]? with
      | none =>
          have hstep : s.step (.dispose place) = s := by simp only [CacheSystem.step, hplace]
          rw [hstep]
          exact .idle rfl rfl
      | some v =>
          simp only [CacheSystem.step, hplace]
          exact .disposed v

/-- What the end of a build gives up is unreferenced. -/
theorem Sound.complete_sheds (hs : s.Sound past) {key : κ} {slot : BuildSlot}
    (hslot : s.cache.building.get? key = some slot) (outcome : Except BuildFailure α) :
    (s.cache.settled s.now key slot.id outcome).Sheds
      (s.cache.complete s.options s.now key slot.id outcome).1
      (s.cache.complete s.options s.now key slot.id outcome).2 := by
  rw [Cache.complete_eq]
  exact Cache.Sheds.evictExcess s.options _ (hs.balanced.distinct_settled hslot s.now outcome)

/-- How a cache behaves does not change. -/
theorem options_step (s : CacheSystem κ α) (event : CacheEvent κ α) :
    (s.step event).options = s.options := by
  cases event with
  | elapse ms | expire | invalidate key | close => rfl
  | request call key =>
      simp only [step, request]
      split
      · rfl
      · split <;> simp only [options_answer]
  | complete call outcome =>
      rcases step_complete_cases s call outcome with ⟨key, id, -, hstep, -⟩ | ⟨hstep, -⟩
      · rw [hstep, complete_def, options_answer]
        rfl
      · rw [hstep]
  | wake call =>
      rcases step_wake_cases s call with ⟨key, id, -, hstep⟩ | hstep
      · rw [hstep]
        unfold wake
        rcases s.cache.observe key id with ⟨sighting, cache⟩
        cases sighting <;> simp only [options_answer]
      · rw [hstep]
  | abandon call reason =>
      rcases step_abandon_cases s call reason with ⟨key, id, -, hstep⟩ | hstep
      · rw [hstep]
        unfold abandon
        split <;> simp only [options_answer]
      · rw [hstep]
  | release call =>
      rcases step_release_cases s call with ⟨handle, -, hstep⟩ | hstep <;> rw [hstep]
      rfl
  | dispose place =>
      simp only [step]
      split <;> rfl

end CacheSystem

end Linkage

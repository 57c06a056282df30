import Linkage.Proofs.Cache.Delivery
import Mathlib.Data.Fintype.EquivFin

/-!
# What an invalidation is worth to later calls

An invalidation drops the descriptor of a key. A build that is under way for the key is not looked at:
it goes on, calls that come later join it or take the descriptor that it makes, and the invalidation
is lost on them.

* **`HeedsInvalidation`** — calls made after an invalidation get no descriptor whose build had begun
  before it;
* **`uses_step`** — a call has to do with one build only, which stood for its key when the call was
  made, or began then;
* **`Fresh`** — what later calls can count on after an invalidation that is heeded, kept by every event;
* **`heedsInvalidation_iff`** — an invalidation is heeded if and only if the cache is closed or no
  build of the key is under way.
-/

namespace Linkage

variable {κ α : Type}

/-- The build that a call waits for or does. -/
def CallStage.id : CallStage → Nat
  | .building id | .waiting id => id

/-- A waiter finds a descriptor only of the build that it looks for. -/
theorem Cache.observe_handle [DecidableEq κ] {c : Cache κ α} {key : κ} {id : Nat} {handle : Handle κ α}
    (h : (c.observe key id).1 = .found handle) : handle.key = key ∧ handle.id = id := by
  unfold Cache.observe at h
  split at h
  · cases h
  · split at h
    · cases h
    · split at h
      · injection h with h
        rw [← h]
        exact ⟨rfl, rfl⟩
      · injection h with h
        rw [← h]
        exact ⟨rfl, rfl⟩
      · cases h

namespace CacheSystem

variable {s : CacheSystem κ α} {past : List (FinishedBuild κ α)}

/-! ## The builds of calls -/

/-- A call waits for the build of a key, does it, or has got the descriptor that it made. -/
def Uses (s : CacheSystem κ α) (call : Nat) (key : κ) (id : Nat) : Prop :=
  (∃ stage, s.calls.get? call = some ⟨key, stage⟩ ∧ stage.id = id) ∨
    ∃ handle, s.answers.get? call = some (.found handle) ∧ handle.key = key ∧ handle.id = id

/-- What a call uses does not depend on anything else. -/
theorem SameCall.uses {s' : CacheSystem κ α} {call id : Nat} {key : κ} (h : s.SameCall s' call)
    (huses : s'.Uses call key id) : s.Uses call key id := by
  unfold Uses at huses
  rw [h.1, h.2] at huses
  exact huses

/-- A call that has ended uses what its answer holds. -/
theorem uses_answer {call id : Nat} {key : κ} {a : CacheAnswer κ α}
    (h : (s.answer call a).Uses call key id) :
    ∃ handle, a = .found handle ∧ handle.key = key ∧ handle.id = id := by
  rcases h with ⟨stage, hcall, -⟩ | ⟨handle, hanswer, hhandle⟩
  · rw [calls_answer, Table.get?_erase_self] at hcall
    cases hcall
  · rw [answers_answer, Table.get?_put, if_pos rfl] at hanswer
    injection hanswer with hanswer
    exact ⟨handle, hanswer, hhandle⟩

/-- There are always calls that have not been made. -/
theorem exists_unknown (s : CacheSystem κ α) : ∃ call, s.isKnown call = false := by
  obtain ⟨call, hcall⟩ := Infinite.exists_notMem_finset (s.calls.keys ++ s.answers.keys).toFinset
  rw [List.mem_toFinset, List.mem_append, not_or] at hcall
  refine ⟨call, Bool.or_eq_false_iff.mpr ⟨?_, ?_⟩⟩
  · exact (Table.contains_eq_false _ _).mpr (Table.get?_eq_none_iff.mpr hcall.1)
  · exact (Table.contains_eq_false _ _).mpr (Table.get?_eq_none_iff.mpr hcall.2)

variable [DecidableEq κ]

/-- Whatever happens after an invalidation of the key, a call that is not known at its time never gets
a descriptor of the key whose build had begun by then. -/
def HeedsInvalidation (s : CacheSystem κ α) (key : κ) : Prop :=
  ∀ later call handle, s.isKnown call = false →
    ((s.step (.invalidate key)).run later).answers.get? call = some (.found handle) →
    handle.key = key → s.cache.nextId ≤ handle.id

/-- A new call uses what its key has in an open cache, or the build that it begins. -/
theorem uses_request {call id : Nat} {key key' : κ} (hnew : s.isKnown call = false)
    (h : (s.request call key').Uses call key id) :
    s.cache.isClosed = false ∧ key' = key ∧ (s.cache.Carries key id ∨ id = s.cache.nextId) := by
  have hfree : s.answers.get? call = none := by
    unfold isKnown at hnew
    exact (Table.contains_eq_false _ _).mp (Bool.or_eq_false_iff.mp hnew).2
  -- a call that enters uses the build of its stage
  have henter : ∀ (c : Cache κ α) (stage : CallStage), CacheSystem.Uses
      { s with cache := c, calls := s.calls.put call ⟨key', stage⟩ } call key id →
      key' = key ∧ stage.id = id := by
    rintro c stage (⟨stage', hcall, hid⟩ | ⟨handle, hanswer, -⟩)
    · have hcall : (s.calls.put call ⟨key', stage⟩).get? call = some ⟨key, stage'⟩ := hcall
      rw [Table.get?_put, if_pos rfl] at hcall
      injection hcall with hcall
      injection hcall with hkey hstage
      exact ⟨hkey, hstage ▸ hid⟩
    · have hanswer : s.answers.get? call = some (.found handle) := hanswer
      rw [hfree] at hanswer
      cases hanswer
  unfold CacheSystem.request at h
  rcases Cache.request_cases s.options s.now s.cache key' with ⟨-, heq⟩ | ⟨e, hopen, he, heq⟩ |
    ⟨slot, hopen, hslot, heq⟩ | ⟨hopen, -, -, heq⟩
  · rw [heq] at h
    obtain ⟨handle, hfound, -⟩ := uses_answer h
    cases hfound
  · rw [heq] at h
    obtain ⟨handle, hfound, hkey, hid⟩ := uses_answer h
    injection hfound with hfound
    subst hfound
    have hkey : key' = key := hkey
    exact ⟨hopen, hkey, Or.inl (Or.inl ⟨e, hkey ▸ he, hid⟩)⟩
  · rw [heq] at h
    obtain ⟨hkey, hid⟩ := henter _ _ h
    exact ⟨hopen, hkey, Or.inl (Or.inr ⟨slot, hkey ▸ hslot, hid⟩)⟩
  · rw [heq] at h
    obtain ⟨hkey, hid⟩ := henter _ _ h
    exact ⟨hopen, hkey, Or.inr hid.symm⟩

/-- The build that a call has to do with is that of its request. -/
theorem uses_step (s : CacheSystem κ α) (event : CacheEvent κ α) {call id : Nat} {key : κ}
    (h : (s.step event).Uses call key id) :
    s.Uses call key id ∨ s.cache.isClosed = false ∧ event = .request call key ∧
      (s.cache.Carries key id ∨ id = s.cache.nextId) := by
  by_cases hevent : event.call? = some call
  · cases event with
    | request other key' =>
        injection hevent with hother
        subst hother
        by_cases hknown : s.isKnown other = true
        · rw [step_request_known hknown key'] at h
          exact Or.inl h
        · have hstep : s.step (.request other key') = s.request other key' := if_neg hknown
          rw [hstep] at h
          obtain ⟨hopen, hkey, hcarries⟩ := uses_request (Bool.not_eq_true _ ▸ hknown) h
          exact Or.inr ⟨hopen, by rw [hkey], hcarries⟩
    | complete other outcome =>
        injection hevent with hother
        subst hother
        rcases step_complete_cases s other outcome with ⟨key', id', hcall, hstep, -⟩ | ⟨hstep, -⟩
        · rw [hstep, complete_def] at h
          obtain ⟨handle, hfound, hkey, hid⟩ := uses_answer h
          cases outcome with
          | ok value =>
              injection hfound with hfound
              subst hfound
              have hkey : key' = key := hkey
              exact Or.inl (Or.inl ⟨.building id', hkey ▸ hcall, hid⟩)
          | error failure => cases hfound
        · rw [hstep] at h
          exact Or.inl h
    | wake other =>
        injection hevent with hother
        subst hother
        rcases step_wake_cases s other with ⟨key', id', hcall, hstep⟩ | hstep
        · rw [hstep] at h
          unfold CacheSystem.wake at h
          rcases hsighting : (s.cache.observe key' id').1 with _ | handle | failure | _
          all_goals simp only [hsighting] at h
          · exact Or.inl h
          · obtain ⟨handle', hfound, hkey, hid⟩ := uses_answer h
            injection hfound with hfound
            subst hfound
            obtain ⟨hkey', hid'⟩ := Cache.observe_handle hsighting
            refine Or.inl (Or.inl ⟨.waiting id', ?_, hid'.symm.trans hid⟩)
            rw [← hkey, hkey']
            exact hcall
          · obtain ⟨handle', hfound, -⟩ := uses_answer h
            cases hfound
          · obtain ⟨handle', hfound, -⟩ := uses_answer h
            cases hfound
        · rw [hstep] at h
          exact Or.inl h
    | abandon other reason =>
        injection hevent with hother
        subst hother
        rcases step_abandon_cases s other reason with ⟨key', id', -, hstep⟩ | hstep
        · rw [hstep] at h
          unfold CacheSystem.abandon at h
          split at h
          · obtain ⟨handle', hfound, -⟩ := uses_answer h
            cases hfound
          · exact Or.inl h
        · rw [hstep] at h
          exact Or.inl h
    | _ => cases hevent
  · have hsame : s.SameCall (s.step event) call := step_of_other s event hevent
    exact Or.inl (hsame.uses h)

/-! ## What later calls can count on -/

/-- No build older than `since` reaches a call that was not known before: the cache has none under the
key, and no such call has to do with one. -/
structure Fresh (s : CacheSystem κ α) (key : κ) (since : Nat) (known : Nat → Bool) : Prop where
  nextId : since ≤ s.cache.nextId
  cache : s.cache.isClosed = true ∨ ∀ id, s.cache.Carries key id → since ≤ id
  calls : ∀ call, known call = false → ∀ id, s.Uses call key id → since ≤ id

theorem Fresh.step (hs : s.Sound past) {key : κ} {since : Nat} {known : Nat → Bool}
    (h : s.Fresh key since known) (event : CacheEvent κ α) :
    (s.step event).Fresh key since known := by
  have hbecomes := hs.becomes_step event
  refine ⟨Nat.le_trans h.nextId hbecomes.nextId, ?_, ?_⟩
  · rcases h.cache with hclosed | hcarries
    · exact Or.inl (hbecomes.closed hclosed)
    · refine Or.inr ?_
      intro id hafter
      rcases hbecomes.carries key id hafter with hbefore | ⟨-, -, hnew⟩
      · exact hcarries id hbefore
      · rw [hnew]
        exact h.nextId
  · intro call hnew id hafter
    rcases uses_step s event hafter with hbefore | ⟨hopen, -, hcarries | hnext⟩
    · exact h.calls call hnew id hbefore
    · rcases h.cache with hclosed | hcache
      · rw [hopen] at hclosed
        cases hclosed
      · exact hcache id hcarries
    · rw [hnext]
      exact h.nextId

theorem Fresh.run (hs : s.Sound past) {key : κ} {since : Nat} {known : Nat → Bool}
    (h : s.Fresh key since known) (later : List (CacheEvent κ α)) :
    (s.run later).Fresh key since known := by
  induction later generalizing s past with
  | nil => exact h
  | cons event rest ih => exact ih (hs.step event) (h.step hs event)

/-- After an invalidation no descriptor stands under the key. -/
theorem entries_invalidate (c : Cache κ α) (key : κ) :
    (c.invalidate key).2.entries.get? key = none := by
  rcases Cache.invalidate_cases c key with ⟨hnone, heq⟩ | ⟨e, -, -, heq⟩ | ⟨e, -, -, heq⟩
  · rw [heq]
    exact hnone
  · rw [heq]
    exact Table.get?_erase_self _ _
  · rw [heq]
    exact Table.get?_erase_self _ _

theorem isClosed_invalidate (c : Cache κ α) (key : κ) :
    (c.invalidate key).2.isClosed = c.isClosed := by
  rcases Cache.invalidate_cases c key with ⟨-, heq⟩ | ⟨e, -, -, heq⟩ | ⟨e, -, -, heq⟩
  all_goals rw [heq]

/-- An invalidation is worth it if no build of the key is under way, or the cache does not answer any
more. -/
theorem Sound.fresh_invalidate (hs : s.Sound past) {key : κ}
    (h : s.cache.isClosed = true ∨ s.cache.building.get? key = none) :
    (s.step (.invalidate key)).Fresh key s.cache.nextId s.isKnown := by
  obtain ⟨-, -, -, hbuilding, -, -, -⟩ := Cache.invalidate_spec hs.balanced hs.tidy key
  have hbecomes := hs.becomes_step (.invalidate key)
  refine ⟨hbecomes.nextId, ?_, ?_⟩
  · refine h.imp hbecomes.closed ?_
    intro hnone id hcarries
    have hvacant : (s.step (.invalidate key)).cache.Vacant key :=
      ⟨entries_invalidate s.cache key, (congrArg (·.get? key) hbuilding).trans hnone⟩
    exact absurd hcarries (Cache.vacant_iff.mp hvacant id)
  · -- a call that is not known uses nothing
    intro call hnew id huses
    unfold isKnown at hnew
    obtain ⟨hcall, hfree⟩ := Bool.or_eq_false_iff.mp hnew
    have hcall := (Table.contains_eq_false _ _).mp hcall
    have hfree := (Table.contains_eq_false _ _).mp hfree
    rcases SameCall.uses (s := s) ⟨rfl, rfl⟩ huses with ⟨stage, hsome, -⟩ | ⟨handle, hsome, -⟩
    · rw [hcall] at hsome
      cases hsome
    · rw [hfree] at hsome
      cases hsome

/-! ## Invalidations that are lost -/

/-- A new call joins the build of its key that is under way. -/
theorem Sound.request_underWay (hs : s.Sound past) {key : κ} {slot : BuildSlot}
    (hslot : s.cache.building.get? key = some slot) (hopen : s.cache.isClosed = false) {call : Nat}
    (hnew : s.isKnown call = false) :
    (s.step (.request call key)).calls.get? call = some ⟨key, .waiting slot.id⟩ := by
  have hstep : s.step (.request call key) = s.request call key :=
    if_neg (by rw [hnew]; exact Bool.false_ne_true)
  rw [hstep]
  unfold CacheSystem.request
  rcases Cache.request_cases s.options s.now s.cache key with ⟨hclosed, -⟩ | ⟨e, -, he, -⟩ |
    ⟨slot', -, hslot', heq⟩ | ⟨-, -, hnone, -⟩
  · rw [hopen] at hclosed
    cases hclosed
  · rw [hs.balanced.entry_none hslot] at he
    cases he
  · rw [hslot] at hslot'
    injection hslot' with hslot'
    rw [heq, ← hslot']
    show (s.calls.put call _).get? call = _
    rw [Table.get?_put, if_pos rfl]
  · rw [hslot] at hnone
    cases hnone

/-- A call that is made while the build is under way gets what the build makes. -/
theorem Sound.joins_underWay (hs : s.Sound past) {builder : Nat} {key : κ} {slot : BuildSlot}
    (hslot : s.cache.building.get? key = some slot) (hopen : s.cache.isClosed = false)
    (hbuilder : s.calls.get? builder = some ⟨key, .building slot.id⟩) {call : Nat}
    (hnew : s.isKnown call = false) (value : α) :
    (s.run [.request call key, .complete builder (.ok value), .wake call]).answers.get? call =
      some (.found ⟨key, slot.id, value⟩) := by
  have hne : call ≠ builder := by
    rintro rfl
    simp [isKnown, Table.contains, hbuilder] at hnew
  have hother : (CacheEvent.request call key : CacheEvent κ α).call? ≠ some builder :=
    fun h => hne (Option.some.inj h)
  have hjoined := hs.step (.request call key)
  have hbuilder' : (s.step (.request call key)).calls.get? builder = _ :=
    (step_of_other s _ hother).1.trans hbuilder
  have hwaits := hs.request_underWay hslot hopen hnew
  have hpromised : CacheSystem.Promised _ call key slot.id (.ok value) :=
    (hjoined.complete_promises hbuilder' (.ok value) []).2 call key hwaits
  rcases hpromised with hanswer | ⟨-, hwoken⟩
  · exact (hjoined.step (.complete builder (.ok value))).answer_step hanswer (.wake call)
  · exact hwoken

/-- While a build of the key is under way in an open cache, an invalidation is lost. -/
theorem Sound.lost_invalidate [Nonempty α] (hs : s.Sound past) {key : κ} {slot : BuildSlot}
    (hslot : s.cache.building.get? key = some slot) (hopen : s.cache.isClosed = false) :
    ¬ s.HeedsInvalidation key := by
  intro hheeds
  obtain ⟨value⟩ : Nonempty α := inferInstance
  obtain ⟨call, hnew⟩ := s.exists_unknown
  obtain ⟨builder, hbuilder⟩ := hs.slotBuilder key slot hslot
  obtain ⟨-, -, -, hbuilding, -, -, -⟩ := Cache.invalidate_spec hs.balanced hs.tidy key
  have hslot' : (s.step (.invalidate key)).cache.building.get? key = some slot :=
    (congrArg (·.get? key) hbuilding).trans hslot
  have hopen' : (s.step (.invalidate key)).cache.isClosed = false :=
    (isClosed_invalidate s.cache key).trans hopen
  -- a call that is made next joins the build, which is older than the invalidation
  have hgets := (hs.step (.invalidate key)).joins_underWay hslot' hopen' hbuilder hnew value
  have hfresh : s.cache.nextId ≤ slot.id := hheeds _ call _ hnew hgets rfl
  have holder : slot.id < s.cache.nextId := hs.numbersBelow _ (List.mem_append_right _
    (List.mem_map_of_mem (f := BuildSlot.id) (Table.mem_values_of_get? hslot)))
  omega

/-- Whatever has happened to a cache that began empty: calls made after an invalidation of a key are
kept from the builds that had begun by then if and only if the cache is closed or there is no build
of the key under way. -/
theorem heedsInvalidation_iff [Nonempty α] (o : CacheOptions) (events : List (CacheEvent κ α))
    (key : κ) :
    let s := ({ options := o } : CacheSystem κ α).run events
    s.HeedsInvalidation key ↔ s.cache.isClosed = true ∨ s.cache.building.get? key = none := by
  intro s
  have hs : s.Sound _ := sound_run o events
  constructor
  · intro hheeds
    by_contra hlost
    rw [not_or, Bool.not_eq_true] at hlost
    obtain ⟨slot, hslot⟩ := Option.ne_none_iff_exists'.mp hlost.2
    exact hs.lost_invalidate hslot hlost.1 hheeds
  · intro h later call handle hnew hanswer hkey
    have hfresh := (hs.fresh_invalidate h).run (hs.step _) later
    exact hfresh.calls call hnew handle.id (Or.inr ⟨handle, hanswer, hkey, rfl⟩)

/-- An invalidation when the only build of the key has ended. -/
theorem heedsInvalidation_built :
    (({ options := { name := "plugins" } } : CacheSystem String Nat).run
      [.request 0 "a", .complete 0 (.ok 7)]).HeedsInvalidation "a" :=
  (heedsInvalidation_iff { name := "plugins" } [.request 0 "a", .complete 0 (.ok 7)] "a").mpr
    (Or.inr rfl)

/-- An invalidation while the key is being built: a call made afterwards gets the descriptor of that
build. -/
theorem not_heedsInvalidation_underWay :
    ¬ (({ options := { name := "plugins" } } : CacheSystem String Nat).run
      [.request 0 "a"]).HeedsInvalidation "a" := by
  intro hheeds
  have hold := hheeds [.complete 0 (.ok 7), .request 1 "a"] 1 ⟨"a", 1, 7⟩ rfl rfl rfl
  exact absurd hold (by decide)

end CacheSystem

end Linkage

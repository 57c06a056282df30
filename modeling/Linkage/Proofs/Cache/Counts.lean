import Linkage.Proofs.Cache.Actions
import Linkage.Proofs.Cache.Delivery

/-!
# What the counts of a cache add up to

The counts of a cache say how its history went: how the requests went on, what the builds came to, and how
many victims have been closed. When no call is under way they balance.

* **`countsOf`** — what the counts are for a history;
* **`Follows`**, **`Sound.follows_step`** — what becomes of a request, by how it went on;
* **`Tally`**, **`Tally.step`** — the counts are those of the history, which every event preserves;
* **`Accounts`**, **`accounts_run`** — the balance, for every run of a system that begins empty.
-/

namespace Linkage

variable {κ α : Type}

namespace CacheRequest

/-- A descriptor is there, or someone builds it already. -/
def isHit : CacheRequest κ α → Bool
  | .hit _ | .wait _ => true
  | .refused _ | .build _ => false

/-- The build that has to be done. -/
def begun? : CacheRequest κ α → Option Nat
  | .build id => some id
  | .refused _ | .hit _ | .wait _ => none

/-- The cache is closed. -/
def isRefused : CacheRequest κ α → Bool
  | .refused _ => true
  | .hit _ | .wait _ | .build _ => false

/-- A request that is not refused is a hit or begins a build. -/
theorem countP_not_isRefused (gets : List (Nat × CacheRequest κ α)) :
    gets.countP (!·.2.isRefused) = gets.countP (·.2.isHit) + gets.countP (·.2.begun?.isSome) := by
  have hone : ∀ r : CacheRequest κ α, (if !r.isRefused then 1 else 0) =
      (if r.isHit then 1 else 0) + if r.begun?.isSome then 1 else 0 := by
    intro r
    cases r <;> rfl
  induction gets with
  | nil => rfl
  | cons a rest ih =>
      simp only [List.countP_cons, ih, hone a.2]
      omega

end CacheRequest

/-- What the counts are after requests and builds, and after victims have been closed. -/
def countsOf (gets : List (Nat × CacheRequest κ α)) (past : List (FinishedBuild κ α))
    (closed : Nat) : CacheCounts where
  hits := gets.countP (·.2.isHit)
  misses := gets.countP (·.2.begun?.isSome)
  builds := past.countP (·.descriptor?.isSome)
  failures := past.countP (·.descriptor?.isNone)
  evictions := closed

namespace Cache

variable [DecidableEq κ]

theorem counts_lowered (c : Cache κ α) (now : Nat) (key : κ) (id : Nat) :
    (c.lowered now key id).counts = c.counts := by
  unfold lowered
  split <;> rfl

theorem counts_invalidate (c : Cache κ α) (key : κ) :
    (c.invalidate key).2.counts = c.counts := by
  rcases invalidate_cases c key with ⟨-, heq⟩ | ⟨e, -, -, heq⟩ | ⟨e, -, -, heq⟩ <;> rw [heq]

/-- The end of a build is counted by what it came to. -/
theorem counts_settled (c : Cache κ α) (now : Nat) (key : κ) (id : Nat)
    (outcome : Except BuildFailure α) :
    (c.settled now key id outcome).counts =
      { c.counts with
        builds := c.counts.builds +
          [FinishedBuild.mk key id outcome].countP (·.descriptor?.isSome)
        failures := c.counts.failures +
          [FinishedBuild.mk key id outcome].countP (·.descriptor?.isNone) } := by
  cases outcome <;> rfl

end Cache

namespace CacheSystem

variable {s : CacheSystem κ α} {past : List (FinishedBuild κ α)}
  {gets : List (Nat × CacheRequest κ α)}

/-! ## Requests and what becomes of them -/

/-- What has become of a call, by how its request went on. -/
def Follows (s : CacheSystem κ α) (call : Nat) : CacheRequest κ α → Prop
  | .refused refusal => refusal = .closed s.options.name ∧ s.answers.get? call = some (.refused refusal)
  | .hit handle => s.answers.get? call = some (.found handle)
  | .wait id =>
    (∃ key, s.calls.get? call = some ⟨key, .waiting id⟩) ∨
      (∃ reason, s.answers.get? call = some (.refused (.cancelled reason))) ∨
      ∃ key outcome, s.answers.get? call = some (.ofBuild key id outcome)
  | .build id =>
    (∃ key, s.calls.get? call = some ⟨key, .building id⟩) ∨
      ∃ key outcome, s.answers.get? call = some (.ofBuild key id outcome)

/-- A call that has asked is known. -/
theorem Follows.isKnown {call : Nat} {request : CacheRequest κ α} (h : s.Follows call request) :
    s.isKnown call = true := by
  unfold CacheSystem.isKnown Table.contains
  cases request with
  | refused refusal => simp [h.2]
  | hit handle =>
      have hanswer : s.answers.get? call = some (.found handle) := h
      simp [hanswer]
  | wait id =>
      rcases h with ⟨key, hcall⟩ | ⟨reason, hanswer⟩ | ⟨key, outcome, hanswer⟩
      · simp [hcall]
      · simp [hanswer]
      · simp [hanswer]
  | build id =>
      rcases h with ⟨key, hcall⟩ | ⟨key, outcome, hanswer⟩
      · simp [hcall]
      · simp [hanswer]

/-- Whether the answer to a call is that the cache is closed. -/
def isRejected (s : CacheSystem κ α) (call : Nat) : Bool :=
  match s.answers.get? call with
  | some (.refused (.closed _)) => true
  | _ => false

/-- A call is rejected if its request is refused. -/
theorem Follows.isRejected_eq {call : Nat} {request : CacheRequest κ α}
    (h : s.Follows call request) (hcalls : s.calls.entries = []) :
    s.isRejected call = request.isRefused := by
  have hnone : ∀ x, s.calls.get? call ≠ some x := by
    simp [Table.get?, hcalls]
  unfold isRejected
  cases request with
  | refused refusal => rw [h.2, h.1]; rfl
  | hit handle => rw [show s.answers.get? call = some (.found handle) from h]; rfl
  | wait id =>
      rcases h with ⟨key, hcall⟩ | ⟨reason, hanswer⟩ | ⟨key, outcome, hanswer⟩
      · exact absurd hcall (hnone _)
      · rw [hanswer]; rfl
      · rw [hanswer]; cases outcome <;> rfl
  | build id =>
      rcases h with ⟨key, hcall⟩ | ⟨key, outcome, hanswer⟩
      · exact absurd hcall (hnone _)
      · rw [hanswer]; cases outcome <;> rfl

/-- The books of a system after the requests `gets` and the builds of the `past`. -/
structure Tally (s : CacheSystem κ α) (gets : List (Nat × CacheRequest κ α))
    (past : List (FinishedBuild κ α)) : Prop where
  counts : s.cache.counts = countsOf gets past s.closed.length
  numbered : (gets.map Prod.fst).Nodup
  follows : ∀ a ∈ gets, s.Follows a.1 a.2
  /-- A build that was begun has ended or is under way. -/
  begun : (gets.filterMap (·.2.begun?)).Perm (past.map FinishedBuild.id ++ s.cache.underWay)

theorem tally_new (o : CacheOptions) : ({ options := o } : CacheSystem κ α).Tally [] [] where
  counts := rfl
  numbered := List.nodup_nil
  follows := by simp
  begun := List.Perm.refl _

variable [DecidableEq κ]

/-! ## Calls from event to event -/

/-- A builder goes on building until its build comes to an end. -/
theorem builder_stays {call id : Nat} {key : κ} (hcall : s.calls.get? call = some ⟨key, .building id⟩)
    {event : CacheEvent κ α} (h : ∀ outcome, event ≠ .complete call outcome) :
    (s.step event).calls.get? call = some ⟨key, .building id⟩ := by
  by_cases hevent : event.call? = some call
  · cases event with
    | request other key' =>
        injection hevent with hother
        subst hother
        rw [step_request_known (by simp [isKnown, Table.contains, hcall]) key']
        exact hcall
    | complete other outcome =>
        injection hevent with hother
        subst hother
        exact absurd rfl (h outcome)
    | wake other | abandon other reason =>
        injection hevent with hother
        subst hother
        simp only [step, hcall]
    | _ => cases hevent
  · exact (step_of_other s event hevent).1.trans hcall

/-- A builder goes on building, or has what its build came to. -/
theorem builder_step {call id : Nat} {key : κ} (hcall : s.calls.get? call = some ⟨key, .building id⟩)
    (event : CacheEvent κ α) :
    (s.step event).calls.get? call = some ⟨key, .building id⟩ ∨
      ∃ outcome, (s.step event).answers.get? call = some (.ofBuild key id outcome) := by
  by_cases hcomplete : ∃ outcome, event = .complete call outcome
  · obtain ⟨outcome, rfl⟩ := hcomplete
    have hstep : s.step (.complete call outcome) = s.complete call key id outcome := by
      simp only [step, hcall]
    refine Or.inr ⟨outcome, ?_⟩
    rw [hstep, complete_def, answers_answer, Table.get?_put, if_pos rfl]
  · exact Or.inl (builder_stays hcall fun outcome heq => hcomplete ⟨outcome, heq⟩)

/-- What has become of a call goes on as its request did. -/
theorem Sound.follows_step (hs : s.Sound past) {call : Nat} {request : CacheRequest κ α}
    (h : s.Follows call request) (event : CacheEvent κ α) : (s.step event).Follows call request := by
  cases request with
  | refused refusal => exact ⟨by rw [options_step]; exact h.1, hs.answer_step h.2 event⟩
  | hit handle => exact hs.answer_step h event
  | wait id =>
      rcases h with ⟨key, hcall⟩ | ⟨reason, hanswer⟩ | ⟨key, outcome, hanswer⟩
      · rcases hs.waiter_step hcall event with hwaits | ⟨reason, -, -, hanswer⟩ | ⟨outcome, -, hanswer⟩
        · exact Or.inl ⟨key, hwaits⟩
        · exact Or.inr (Or.inl ⟨reason, hanswer⟩)
        · exact Or.inr (Or.inr ⟨key, outcome, hanswer⟩)
      · exact Or.inr (Or.inl ⟨reason, hs.answer_step hanswer event⟩)
      · exact Or.inr (Or.inr ⟨key, outcome, hs.answer_step hanswer event⟩)
  | build id =>
      rcases h with ⟨key, hcall⟩ | ⟨key, outcome, hanswer⟩
      · exact (builder_step hcall event).imp (fun h => ⟨key, h⟩) (fun h => ⟨key, h⟩)
      · exact Or.inr ⟨key, outcome, hs.answer_step hanswer event⟩

/-- A call that asks now. -/
theorem follows_askedBy {event : CacheEvent κ α} {a : Nat × CacheRequest κ α}
    (ha : a ∈ s.askedBy event) : s.isKnown a.1 = false ∧ (s.step event).Follows a.1 a.2 := by
  unfold askedBy at ha
  split at ha
  · rename_i call key
    split at ha
    · cases ha
    · rename_i hnew
      rw [List.mem_singleton.mp ha]
      refine ⟨by simpa using hnew, ?_⟩
      have hstep : s.step (.request call key) = s.request call key := if_neg hnew
      rw [hstep]
      unfold request
      rcases Cache.request_cases s.options s.now s.cache key with ⟨-, heq⟩ | ⟨e, -, -, heq⟩ |
        ⟨slot, -, -, heq⟩ | ⟨-, -, -, heq⟩ <;> rw [heq]
      · refine ⟨rfl, ?_⟩
        simp only [answers_answer, Table.get?_put, if_pos]
      · show (answer _ call _).answers.get? call = _
        rw [answers_answer, Table.get?_put, if_pos rfl]
      · exact Or.inl ⟨key, by simp only [Table.get?_put, if_pos]⟩
      · exact Or.inl ⟨key, by simp only [Table.get?_put, if_pos]⟩
  · cases ha

/-! ## The counts of a history -/

/-- The counts stay those of the history. -/
theorem Sound.counts_step (hs : s.Sound past)
    (h : s.cache.counts = countsOf gets past s.closed.length) (event : CacheEvent κ α) :
    (s.step event).cache.counts =
      countsOf (gets ++ s.askedBy event) (past ++ s.finishedBy event)
        (s.step event).closed.length := by
  -- most steps leave the counts, and the events that do them neither ask nor end a build
  have hquiet : ∀ c' : Cache κ α, s.askedBy event = [] → s.finishedBy event = [] →
      c'.counts = s.cache.counts → c'.counts =
        countsOf (gets ++ s.askedBy event) (past ++ s.finishedBy event) s.closed.length := by
    intro c' hasked hfinished hcounts
    rw [hasked, hfinished, List.append_nil, List.append_nil, hcounts, h]
  have hacts := hs.acts event
  generalize (s.step event).cache = c', (s.step event).closed = closed' at hacts ⊢
  cases hacts with
  | idle hasked hfinished => exact hquiet _ hasked hfinished rfl
  | refused hasked => simp [hasked, finishedBy, h, countsOf, CacheRequest.isHit, CacheRequest.begun?]
  | taken he hasked =>
      simp [hasked, finishedBy, h, countsOf, CacheRequest.isHit, CacheRequest.begun?, Cache.taken,
        Cache.count]
  | joined hslot hasked =>
      simp [hasked, finishedBy, h, countsOf, CacheRequest.isHit, CacheRequest.begun?, Cache.joined,
        Cache.count]
  | begun hslot hasked =>
      simp [hasked, finishedBy, h, countsOf, CacheRequest.isHit, CacheRequest.begun?, Cache.begun,
        Cache.count]
  | completed hslot hfinished =>
      rw [(hs.complete_sheds hslot _).counts_eq, Cache.counts_settled, hfinished, h]
      simp [countsOf, askedBy]
  | observed key id => exact hquiet _ rfl rfl (Cache.frame_observe s.cache key id).2.2.2.1
  | abandoned key => exact hquiet _ rfl rfl rfl
  | released hheld =>
      refine hquiet _ rfl rfl ?_
      exact (hs.release_sheds hheld).2.1.counts_eq.trans (Cache.counts_lowered ..)
  | expired => exact hquiet _ rfl rfl (Cache.Sheds.expire s.options s.now s.cache).counts_eq
  | invalidated key => exact hquiet _ rfl rfl (Cache.counts_invalidate s.cache key)
  | closing => exact hquiet _ rfl rfl (Cache.close_spec hs.tidy).1.counts_eq
  | disposed v => simp [Cache.countEviction, Cache.count, h, countsOf, askedBy, finishedBy]

/-! ## Builds begun and ended -/

/-- A build that is begun is under way until it ends. -/
theorem Sound.underWay_step (hs : s.Sound past) (event : CacheEvent κ α) :
    ((s.finishedBy event).map FinishedBuild.id ++ (s.step event).cache.underWay).Perm
      (s.cache.underWay ++ (s.askedBy event).filterMap (·.2.begun?)) := by
  have hquiet : ∀ c' : Cache κ α, (s.askedBy event).filterMap (·.2.begun?) = [] →
      s.finishedBy event = [] → c'.building = s.cache.building →
      ((s.finishedBy event).map FinishedBuild.id ++ c'.underWay).Perm
        (s.cache.underWay ++ (s.askedBy event).filterMap (·.2.begun?)) := by
    intro c' hasked hfinished hbuilding
    have hway : c'.underWay = s.cache.underWay := by
      unfold Cache.underWay
      rw [hbuilding]
    simp [hasked, hfinished, hway]
  -- those who wait are counted at a build, which does not change its number
  have hwaiters : ∀ (key : κ) (f : BuildSlot → BuildSlot), (∀ slot, (f slot).id = slot.id) →
      (s.cache.building.modify key f).values.map BuildSlot.id = s.cache.underWay :=
    fun key f hf => Table.map_values_modify _ key f _ hf
  have hacts := hs.acts event
  generalize (s.step event).cache = c', (s.step event).closed = closed' at hacts ⊢
  cases hacts with
  | idle hasked hfinished => exact hquiet _ (by rw [hasked]; rfl) hfinished rfl
  | refused hasked => exact hquiet _ (by rw [hasked]; rfl) rfl rfl
  | taken he hasked => exact hquiet _ (by rw [hasked]; rfl) rfl rfl
  | @joined call key slot hslot hasked =>
      have hway : (s.cache.joined key).underWay = s.cache.underWay := hwaiters _ _ (fun _ => rfl)
      simp [hasked, finishedBy, CacheRequest.begun?, hway]
  | @begun call key hslot hasked =>
      have hway : (s.cache.begun key).underWay = s.cache.underWay ++ [s.cache.nextId] := by
        show (s.cache.building.put key _).values.map BuildSlot.id = _
        rw [Table.values_put_of_new hslot, List.map_append]
        rfl
      simp [hasked, finishedBy, CacheRequest.begun?, hway]
  | @completed call key slot outcome hslot hfinished =>
      have hway := underWay_erase hs hslot
        ((hs.complete_sheds hslot outcome).building_eq.trans (Cache.building_settled ..))
      rw [hfinished]
      simpa [askedBy] using hway.symm
  | observed key id => exact hquiet _ rfl rfl (Cache.frame_observe s.cache key id).2.2.1
  | abandoned key =>
      have hway : (s.cache.abandon key).underWay = s.cache.underWay := hwaiters _ _ (fun _ => rfl)
      simp [askedBy, finishedBy, hway]
  | released hheld =>
      refine hquiet _ rfl rfl ?_
      exact (hs.release_sheds hheld).2.1.building_eq.trans (Cache.frame_lowered ..).1
  | expired => exact hquiet _ rfl rfl (Cache.Sheds.expire s.options s.now s.cache).building_eq
  | invalidated key =>
      exact hquiet _ rfl rfl (Cache.invalidate_spec hs.balanced hs.tidy key).2.2.2.1
  | closing => exact hquiet _ rfl rfl (Cache.close_spec hs.tidy).1.building_eq
  | disposed v => exact hquiet _ rfl rfl rfl

/-! ## The balance -/

/-- Every event keeps the books. -/
theorem Tally.step (h : s.Tally gets past) (hs : s.Sound past) (event : CacheEvent κ α) :
    (s.step event).Tally (gets ++ s.askedBy event) (past ++ s.finishedBy event) where
  counts := hs.counts_step h.counts event
  numbered := by
    rw [List.map_append]
    refine List.nodup_append.mpr ⟨h.numbered, ?_, ?_⟩
    · unfold askedBy
      split
      · split <;> simp
      · exact List.nodup_nil
    · -- a call that asks has not asked before
      rintro call hold call' hnew rfl
      obtain ⟨a, ha, rfl⟩ := List.mem_map.mp hold
      obtain ⟨a', ha', hsame⟩ := List.mem_map.mp hnew
      have hknown := (h.follows a ha).isKnown
      rw [← hsame, (follows_askedBy ha').1] at hknown
      cases hknown
  follows a ha := by
    rcases List.mem_append.mp ha with ha | ha
    · exact hs.follows_step (h.follows a ha) event
    · exact (follows_askedBy ha).2
  begun := by
    have hway := hs.underWay_step event
    rw [List.filterMap_append, List.map_append, List.append_assoc]
    refine (h.begun.append_right _).trans ?_
    rw [List.append_assoc]
    exact hway.symm.append_left _

theorem Tally.run (h : s.Tally gets past) (hs : s.Sound past) (events : List (CacheEvent κ α)) :
    (s.run events).Tally (gets ++ s.asked events) (past ++ s.finished events) := by
  induction events generalizing s gets past with
  | nil => simpa [asked, finished, CacheSystem.run] using h
  | cons event rest ih =>
      rw [asked, finished, ← List.append_assoc, ← List.append_assoc]
      exact ih (h.step hs event) (hs.step event)

/-- No call is under way, and no call that took victims out has still to close one. -/
structure Quiet (s : CacheSystem κ α) : Prop where
  calls : s.calls.entries = []
  doomed : s.doomed = []

/-- What is true of the counts in a system after the requests `gets` and the builds of the `past`. -/
structure Accounts (s : CacheSystem κ α) (gets : List (Nat × CacheRequest κ α))
    (past : List (FinishedBuild κ α)) : Prop where
  /-- Every request is a call of its own. -/
  numbered : (gets.map Prod.fst).Nodup
  /-- The counts are those of the history. -/
  figures : s.Quiet → s.cache.counts = countsOf gets past s.closed.length
  /-- A request that was not rejected is a hit or a miss. -/
  requests : s.Quiet → s.cache.counts.hits + s.cache.counts.misses =
    (gets.filter fun a => !s.isRejected a.1).length
  /-- One that waited and was cancelled is a hit. -/
  cancelled : ∀ a ∈ gets, ∀ reason,
    s.answers.get? a.1 = some (.refused (.cancelled reason)) → a.2.isHit = true
  /-- A miss is a build that succeeded or failed. -/
  misses : s.Quiet → s.cache.counts.misses = s.cache.counts.builds + s.cache.counts.failures
  /-- What was built and not evicted is under its key, or retired and referenced. -/
  alive : s.Quiet → s.cache.counts.builds = s.cache.counts.evictions +
    (s.cache.entries.size + s.cache.retired.values.countP (0 < ·.refs))

/-- A call that was cancelled had joined a build. -/
theorem Follows.isHit_of_cancelled {call : Nat} {request : CacheRequest κ α} {reason : String}
    (h : s.Follows call request)
    (hanswer : s.answers.get? call = some (.refused (.cancelled reason))) (hs : s.Sound past) :
    request.isHit = true := by
  cases request with
  | hit handle | wait id => rfl
  | refused refusal =>
      rw [h.2, h.1] at hanswer
      cases hanswer
  | build id =>
      rcases h with ⟨key, hcall⟩ | ⟨key, outcome, hbuilt⟩
      · rw [hs.unanswered _ _ hcall] at hanswer
        cases hanswer
      · rw [hbuilt] at hanswer
        cases outcome <;> cases hanswer

/-- The descriptors that were built are in the cache, or are to be closed, or have been closed. -/
theorem Sound.countP_built (hs : s.Sound past) :
    past.countP (·.descriptor?.isSome) =
      s.cache.entries.size + s.cache.retired.size + (s.doomed.length + s.closed.length) := by
  have hlength := hs.conserved.length_eq
  rw [List.length_filterMap_eq_countP] at hlength
  rw [← hlength]
  simp [Cache.current, Cache.outdated, victims, Table.values, Table.size, Nat.add_assoc]

/-- What is retired is referenced. -/
theorem Sound.countP_retired (hs : s.Sound past) :
    s.cache.retired.values.countP (0 < ·.refs) = s.cache.retired.size := by
  have hall : ∀ e ∈ s.cache.retired.values, decide (0 < e.refs) = true := by
    intro e he
    obtain ⟨⟨id, x⟩, hentry, rfl⟩ := List.mem_map.mp he
    simpa using hs.tidy.1 id x (Table.get?_of_mem hs.balanced.retiredDistinct hentry)
  rw [List.countP_eq_length.mpr hall]
  simp [Table.values, Table.size]

/-- A tally balances when everything is quiet. -/
theorem Tally.accounts (h : s.Tally gets past) (hs : s.Sound past) : s.Accounts gets past where
  numbered := h.numbered
  figures _ := h.counts
  requests hquiet := by
    have hfilter : gets.filter (fun a => !s.isRejected a.1) = gets.filter (!·.2.isRefused) := by
      refine List.filter_congr ?_
      intro a ha
      rw [(h.follows a ha).isRejected_eq hquiet.calls]
    rw [hfilter, ← List.countP_eq_length_filter, CacheRequest.countP_not_isRefused, h.counts]
    rfl
  cancelled a ha reason hanswer := (h.follows a ha).isHit_of_cancelled hanswer hs
  misses hquiet := by
    have hbuilding : s.cache.building.entries = [] := by
      refine Table.entries_eq_nil ?_
      intro key slot hslot
      obtain ⟨call, hcall⟩ := hs.slotBuilder key slot hslot
      simp [Table.get?, hquiet.calls] at hcall
    have hlength := h.begun.length_eq
    rw [List.length_filterMap_eq_countP] at hlength
    have hsplit : past.length =
        past.countP (·.descriptor?.isSome) + past.countP (·.descriptor?.isNone) := by
      rw [List.length_eq_countP_add_countP fun f : FinishedBuild κ α => f.descriptor?.isSome]
      congr 2
      funext f
      cases f.descriptor? <;> rfl
    rw [h.counts]
    simpa [countsOf, Cache.underWay, Table.values, hbuilding, hsplit] using hlength
  alive hquiet := by
    have hbuilt := hs.countP_built
    rw [hquiet.doomed] at hbuilt
    rw [h.counts, hs.countP_retired]
    simp [countsOf] at hbuilt ⊢
    omega

/-- Whatever happens to a cache that begins empty, in whatever order, its counts balance whenever no call
is under way. -/
theorem accounts_run (o : CacheOptions) (events : List (CacheEvent κ α)) :
    (({ options := o } : CacheSystem κ α).run events).Accounts
      (({ options := o } : CacheSystem κ α).asked events)
      (({ options := o } : CacheSystem κ α).finished events) :=
  ((tally_new o).run (sound_new o) events).accounts (sound_run o events)

/-- A build that is waited for, with one wait that is cancelled, a failure, and a request that comes too
late. -/
example : (({ options := { name := "plugins" } } : CacheSystem String Nat).run
    [.request 0 "a", .request 1 "a", .abandon 1 "stopped", .complete 0 (.ok 7), .request 2 "b",
      .complete 2 (.error (.notFound "no b")), .close, .request 3 "a", .release 0,
      .dispose 0]).cache.counts = ⟨1, 2, 1, 1, 1⟩ := by
  rfl

end CacheSystem

end Linkage

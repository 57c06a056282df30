import Linkage.Proofs.Cache.Actions

/-!
# Which descriptor was acquired last

A descriptor is acquired when its build ends, and whenever a request takes it. The place that a cache
notes at a descriptor tells the order of these moments, because each of them gets a place of its own,
after all places before.

* **`acquired`** — the descriptors that a run acquires, in order;
* **`LessRecent`** — one descriptor was acquired after another for the last time;
* **`Ages`**, **`Sound.ages_step`** — what an event does to the places;
* **`Ranked`**, **`Ranked.ages`** — the places tell the order, which every event preserves.
-/

namespace Linkage

variable {κ α : Type}

/-- The descriptor that a request takes. -/
def CacheRequest.taken? : CacheRequest κ α → Option Nat
  | .hit handle => some handle.id
  | .refused _ | .wait _ | .build _ => none

/-! ## Orders of acquisition -/

/-- In a history of descriptors, `j` comes after the last time that `i` comes. -/
def LessRecent (history : List Nat) (i j : Nat) : Prop :=
  ∃ recent, recent <:+ history ∧ j ∈ recent ∧ i ∉ recent

namespace LessRecent

variable {history : List Nat} {i j : Nat}

theorem append (h : LessRecent history i j) {new : List Nat} (hi : i ∉ new) :
    LessRecent (history ++ new) i j := by
  obtain ⟨recent, ⟨before, rfl⟩, hj, hrecent⟩ := h
  exact ⟨recent ++ new, ⟨before, (List.append_assoc ..).symm⟩, List.mem_append_left _ hj,
    by simp [hrecent, hi]⟩

theorem of_new {new : List Nat} (hj : j ∈ new) (hi : i ∉ new) : LessRecent (history ++ new) i j :=
  ⟨new, List.suffix_append history new, hj, hi⟩

theorem asymm (h : LessRecent history i j) : ¬ LessRecent history j i := by
  obtain ⟨recent, hrecent, hj, hi⟩ := h
  rintro ⟨recent', hrecent', hi', hj'⟩
  -- of two ends of one history, one is an end of the other
  rcases List.suffix_or_suffix_of_suffix hrecent hrecent' with hsub | hsub
  · exact hj' (hsub.subset hj)
  · exact hi (hsub.subset hi')

end LessRecent

namespace Cache

variable [DecidableEq κ] {c c' c'' : Cache κ α} {acquired new : List Nat} {owed waits : Nat → Nat}

/-! ## Places -/

/-- A cache in which the places of the descriptors tell when they were acquired. -/
structure Ranked (c : Cache κ α) (acquired : List Nat) : Prop where
  ticks : ∀ key e, c.entries.get? key = some e → e.tick ≤ c.tick
  order : ∀ key key' e e', c.entries.get? key = some e → c.entries.get? key' = some e' →
    e.tick ≤ e'.tick → key = key' ∨ LessRecent acquired e.id e'.id

/-- A step of a cache that acquires descriptors: each of them gets the newest place, and the others that
are still there have kept theirs. -/
structure Ages (c : Cache κ α) (new : List Nat) (c' : Cache κ α) : Prop where
  tick : c.tick ≤ c'.tick
  entries : ∀ key e', c'.entries.get? key = some e' →
    (e'.id ∉ new ∧ ∃ e, c.entries.get? key = some e ∧ e.id = e'.id ∧ e.tick = e'.tick) ∨
      (new = [e'.id] ∧ c.tick < e'.tick ∧ e'.tick ≤ c'.tick)
  present : ∀ id ∈ new, ∃ key e', c'.entries.get? key = some e' ∧ e'.id = id

/-- The places go on telling the order. -/
theorem Ranked.ages (h : c.Ranked acquired) (ha : c.Ages new c') (b : c'.Balanced owed waits) :
    c'.Ranked (acquired ++ new) where
  ticks key e' he' := by
    rcases ha.entries key e' he' with ⟨-, e, he, -, htick⟩ | ⟨-, -, htick⟩
    · exact htick ▸ Nat.le_trans (h.ticks key e he) ha.tick
    · exact htick
  order key key' x x' hx hx' hle := by
    rcases ha.entries key x hx with ⟨hold, e, he, hid, htick⟩ | ⟨hnew, hlate, -⟩
    · rcases ha.entries key' x' hx' with ⟨-, e', he', hid', htick'⟩ | ⟨hnew', -, -⟩
      · -- both were there before
        rw [← htick, ← htick'] at hle
        refine (h.order key key' e e' he he' hle).imp_right ?_
        intro hrecent
        rw [hid, hid'] at hrecent
        exact hrecent.append hold
      · exact Or.inr (.of_new (by simp [hnew']) hold)
    · rcases ha.entries key' x' hx' with ⟨-, e', he', -, htick'⟩ | ⟨hnew', -, -⟩
      · have hbefore := h.ticks key' e' he'
        omega
      · have hsame : [x.id] = [x'.id] := hnew.symm.trans hnew'
        exact Or.inl (b.key_unique hx hx' (by simpa using hsame))

namespace Ages

/-- Nothing is acquired, and what is still there has kept its place. -/
theorem quiet (htick : c.tick ≤ c'.tick)
    (hkept : ∀ key e', c'.entries.get? key = some e' →
      ∃ e, c.entries.get? key = some e ∧ e.id = e'.id ∧ e.tick = e'.tick) : c.Ages [] c' where
  tick := htick
  entries key e' he' := Or.inl ⟨List.not_mem_nil, hkept key e' he'⟩
  present := by simp

theorem of_eq (hentries : c'.entries = c.entries) (htick : c.tick ≤ c'.tick) : c.Ages [] c' :=
  quiet htick fun _ e' he' => ⟨e', hentries ▸ he', rfl, rfl⟩

/-- After a step, a cache gives up descriptors that were not acquired in it. -/
theorem shed (h : c.Ages new c') {victims : List (Victim κ α)} (hshed : c'.Sheds victims c'')
    (hdistinct : c'.entries.Distinct)
    (hnew : ∀ key e, c'.entries.get? key = some e → e.id ∈ new → 0 < e.refs) : c.Ages new c'' where
  tick := hshed.tick_eq ▸ h.tick
  entries key e he := by
    rw [hshed.tick_eq]
    exact h.entries key e (hshed.get?_entry hdistinct he)
  present id hid := by
    obtain ⟨key, e, he, rfl⟩ := h.present id hid
    exact ⟨key, e, hshed.keeps_entry hdistinct he (hnew key e he hid), rfl⟩

theorem of_sheds {victims : List (Victim κ α)} (hshed : c.Sheds victims c')
    (hdistinct : c.entries.Distinct) : c.Ages [] c' :=
  (of_eq rfl (Nat.le_refl _)).shed hshed hdistinct (by simp)

/-- A descriptor that is taken gets the newest place. -/
theorem taken (b : c.Balanced owed waits) {key : κ} {e : CacheEntry α}
    (he : c.entries.get? key = some e) (now : Nat) : c.Ages [e.id] (c.taken now key) where
  tick := Nat.le_succ _
  entries key' e' he' := by
    rcases Table.get?_modify_cases he he' with ⟨-, rfl⟩ | ⟨hne, hold⟩
    · exact Or.inr ⟨rfl, Nat.lt_succ_self _, Nat.le_refl _⟩
    · refine Or.inl ⟨?_, e', hold, rfl, rfl⟩
      intro hid
      exact hne (b.key_unique hold he (List.mem_singleton.mp hid))
  present id hid := by
    rw [List.mem_singleton.mp hid]
    refine ⟨key, { e with refs := e.refs + 1, lastUsed := now, tick := c.tick + 1 }, ?_, rfl⟩
    simp [Cache.taken, Cache.count, he]

/-- So does the descriptor that a build makes. -/
theorem settled (b : c.Balanced owed waits) {key : κ} {slot : BuildSlot}
    (hslot : c.building.get? key = some slot) (now : Nat) (outcome : Except BuildFailure α) :
    c.Ages (([FinishedBuild.mk key slot.id outcome].filterMap FinishedBuild.descriptor?).map Prod.fst)
      (c.settled now key slot.id outcome) := by
  cases outcome with
  | error failure => exact of_eq rfl (Nat.le_refl _)
  | ok value =>
      refine ⟨Nat.le_succ _, ?_, ?_⟩
      · intro key' e' he'
        rcases Table.get?_put_cases he' with ⟨-, rfl⟩ | ⟨-, hold⟩
        · exact Or.inr ⟨rfl, Nat.lt_succ_self _, Nat.le_refl _⟩
        · refine Or.inl ⟨?_, e', hold, rfl, rfl⟩
          intro hid
          exact b.descriptor_ne_slot (entry_mem hold) hslot (List.mem_singleton.mp hid)
      · intro id hid
        rw [List.mem_singleton.mp hid]
        exact ⟨key, _, (Table.get?_put ..).trans (if_pos rfl), rfl⟩

theorem lowered (now : Nat) (c : Cache κ α) (key : κ) (id : Nat) :
    c.Ages [] (c.lowered now key id) := by
  unfold Cache.lowered
  split
  · refine quiet (Nat.le_refl _) ?_
    intro key' e' he'
    obtain ⟨e, he, hsame⟩ := Table.exists_of_get?_modify
      (fun e : CacheEntry α => (e.id, e.tick)) (f := CacheEntry.giveBack now) (fun _ => rfl) he'
    exact ⟨e, he, congrArg Prod.fst hsame, congrArg Prod.snd hsame⟩
  · exact of_eq rfl (Nat.le_refl _)

theorem invalidate (c : Cache κ α) (key : κ) : c.Ages [] (c.invalidate key).2 := by
  rcases invalidate_cases c key with ⟨-, heq⟩ | ⟨e, -, -, heq⟩ | ⟨e, -, -, heq⟩ <;> rw [heq]
  · exact of_eq rfl (Nat.le_refl _)
  all_goals
    exact quiet (Nat.le_refl _) fun key' e' he' => ⟨e', (Table.get?_erase_cases he').2, rfl, rfl⟩

end Ages

/-- What the end of a build adds is referenced. -/
theorem Balanced.refs_settled (b : c.Balanced owed waits) {key : κ}
    {slot : BuildSlot} (hslot : c.building.get? key = some slot) (now : Nat)
    (outcome : Except BuildFailure α) {key' : κ} {e : CacheEntry α}
    (he : (c.settled now key slot.id outcome).entries.get? key' = some e)
    (hid : e.id = slot.id) : 0 < e.refs := by
  cases outcome with
  | error failure => exact absurd hid (b.descriptor_ne_slot (entry_mem he) hslot)
  | ok value =>
      rcases Table.get?_put_cases he with ⟨-, rfl⟩ | ⟨-, hold⟩
      · exact Nat.lt_of_lt_of_le Nat.zero_lt_one (Nat.le_add_right _ _)
      · exact absurd hid (b.descriptor_ne_slot (entry_mem hold) hslot)

end Cache

namespace CacheSystem

variable [DecidableEq κ] {s : CacheSystem κ α} {past : List (FinishedBuild κ α)}
  {history : List Nat}

/-! ## Runs -/

/-- The descriptors that an event acquires: one that a request takes, or one that a build makes. -/
def acquiredBy (s : CacheSystem κ α) (event : CacheEvent κ α) : List Nat :=
  (s.askedBy event).filterMap (·.2.taken?) ++
    ((s.finishedBy event).filterMap FinishedBuild.descriptor?).map Prod.fst

/-- The descriptors that a run acquires, in order. -/
def acquired (s : CacheSystem κ α) : List (CacheEvent κ α) → List Nat
  | [] => []
  | event :: rest => s.acquiredBy event ++ (s.step event).acquired rest

/-- Every event gives the newest place to what it acquires, and leaves the others in theirs. -/
theorem Sound.ages_step (hs : s.Sound past) (event : CacheEvent κ α) :
    s.cache.Ages (s.acquiredBy event) (s.step event).cache := by
  have hdistinct := hs.balanced.entriesDistinct
  have hacts := hs.acts event
  unfold acquiredBy
  generalize (s.step event).cache = c', (s.step event).closed = closed' at hacts ⊢
  cases hacts with
  | idle hasked hfinished =>
      rw [hasked, hfinished]
      exact .of_eq rfl (Nat.le_refl _)
  | refused hasked =>
      rw [hasked]
      exact .of_eq rfl (Nat.le_refl _)
  | taken he hasked =>
      rw [hasked]
      exact .taken hs.balanced he s.now
  | joined hslot hasked | begun hslot hasked =>
      rw [hasked]
      exact .of_eq rfl (Nat.le_succ _)
  | @completed call key slot outcome hslot hfinished =>
      rw [hfinished]
      refine (Cache.Ages.settled hs.balanced hslot s.now outcome).shed (hs.complete_sheds hslot outcome)
        (hs.balanced.distinct_settled hslot s.now outcome) ?_
      intro key' e he hid
      refine hs.balanced.refs_settled hslot s.now outcome he ?_
      cases outcome with
      | ok value => exact List.mem_singleton.mp hid
      | error failure => cases hid
  | observed key id =>
      obtain ⟨hentries, htick, -⟩ := Cache.frame_observe s.cache key id
      exact .of_eq hentries (Nat.le_of_eq htick.symm)
  | abandoned key => exact .of_eq rfl (Nat.le_refl _)
  | @released call handle hheld =>
      obtain ⟨hlowered, hshed, -⟩ := hs.release_sheds hheld
      exact (Cache.Ages.lowered s.now s.cache handle.key handle.id).shed hshed
        hlowered.entriesDistinct (by simp)
  | expired => exact .of_sheds (Cache.Sheds.expire s.options s.now s.cache) hdistinct
  | invalidated key => exact .invalidate s.cache key
  | closing =>
      have hmarked : s.cache.Ages [] { s.cache with isClosed := s.cache.close.2.isClosed } :=
        .of_eq rfl (Nat.le_refl _)
      exact hmarked.shed (Cache.close_spec hs.tidy).1 hdistinct (by simp)
  | disposed v => exact .of_eq rfl (Nat.le_refl _)

/-- The places tell the order of acquisition after a run as before. -/
theorem Sound.ranked_run (hs : s.Sound past) (h : s.cache.Ranked history)
    (events : List (CacheEvent κ α)) : (s.run events).cache.Ranked (history ++ s.acquired events) := by
  induction events generalizing s past history with
  | nil => simpa [acquired, CacheSystem.run] using h
  | cons event rest ih =>
      rw [acquired, ← List.append_assoc]
      exact ih (hs.step event) (h.ages (hs.ages_step event) (hs.step event).balanced)

theorem ranked_new (o : CacheOptions) : ({ options := o } : CacheSystem κ α).cache.Ranked [] where
  ticks _ _ he := by cases he
  order _ _ _ _ he := by cases he

end CacheSystem

end Linkage

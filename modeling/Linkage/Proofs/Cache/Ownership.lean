import Linkage.Proofs.Cache.Succession

/-!
# Where descriptors are

A descriptor that was built is under its key, retired, or a victim, and never in two of these places.
Nobody holds a handle to a victim or waits for one, so closing it takes nothing from anyone; no victim
is closed twice; and when the cache is closed and everyone has gone, all descriptors that were ever
built have been closed.

* **`Custody`** — what this says about a system;
* **`custody_run`** — every run of a system that begins empty leaves it so;
* **`isClosed_of_close`** — after a close a cache is closed for good, as a drained one has to be.
-/

namespace Linkage.CacheSystem

variable {κ α : Type} [DecidableEq κ] {s : CacheSystem κ α} {past : List (FinishedBuild κ α)}

/-- The cache is closed, no call is under way, no handle is held, and no call that took victims out
has still to close one. -/
structure Drained (s : CacheSystem κ α) : Prop where
  closed : s.cache.isClosed = true
  calls : s.calls.entries = []
  held : s.held.entries = []
  doomed : s.doomed = []

/-- What is true of a system in which the descriptors `built` have been built, each of them a number
and a value. -/
structure Custody (s : CacheSystem κ α) (built : List (Nat × α)) : Prop where
  /-- Every descriptor is in one place. -/
  onePlace : (s.cache.current ++ s.cache.outdated ++ s.victims.map Victim.descriptor).Perm built
  distinct : (built.map Prod.fst).Nodup
  /-- What is held is in the cache. -/
  heldKept : ∀ call handle, s.held.get? call = some handle →
    (handle.id, handle.value) ∈ s.cache.current ++ s.cache.outdated
  /-- A victim, closed or not, is not held, and nobody waits for it. -/
  victimsUnowed : ∀ v ∈ s.victims, ∀ call,
    (∀ handle, s.held.get? call = some handle → handle.id ≠ v.id) ∧
      ∀ key, s.calls.get? call ≠ some ⟨key, .waiting v.id⟩
  closedOnce : (s.closed.map Victim.id).Nodup
  drained : s.Drained → (s.closed.map Victim.descriptor).Perm built ∧
    s.cache.entries.entries = [] ∧ s.cache.retired.entries = []

/-! ## Custody of a sound system -/

/-- Nobody waits for a victim: what a waiter waits for is under way or can be had. -/
theorem Sound.victim_not_awaited (hs : s.Sound past) {v : Victim κ α} (hv : v ∈ s.victims)
    (call : Nat) (key : κ) : s.calls.get? call ≠ some ⟨key, .waiting v.id⟩ := by
  intro hcall
  have hbuilt : ∃ f ∈ past, f.descriptor? = some v.descriptor := by
    have hmem := hs.conserved.mem_iff.mp
      (List.mem_append_right _ (List.mem_map_of_mem (f := Victim.descriptor) hv))
    exact List.mem_filterMap.mp hmem
  obtain ⟨f, hf, hdescriptor⟩ := hbuilt
  have hid : f.id = v.id := (f.id_of_descriptor hdescriptor).symm
  rcases hs.expects call key v.id hcall with ⟨slot, hslot, hslotId⟩ | ⟨outcome, hmem, hoffers⟩
  · refine hs.slot_not_mem_past hslot ?_
    rw [hslotId, ← hid]
    exact List.mem_map_of_mem hf
  · -- the build that made the victim is the one that is waited for
    have hsame : f = ⟨key, v.id, outcome⟩ :=
      List.inj_on_of_nodup_map (List.nodup_append.mp hs.numbersDistinct).1 hf hmem hid
    cases outcome with
    | ok value => exact hs.not_victim (hoffers.mem hs.balanced) v hv rfl
    | error failure =>
        rw [hsame] at hdescriptor
        cases hdescriptor

/-- A sound system has every descriptor of the past in custody. -/
theorem Sound.custody (hs : s.Sound past) :
    s.Custody (past.filterMap FinishedBuild.descriptor?) := by
  have hheld : ∀ call handle, s.held.get? call = some handle →
      (handle.id, handle.value) ∈ s.cache.current ++ s.cache.outdated :=
    fun call handle h => (hs.holds call handle h).mem hs.balanced
  refine ⟨hs.conserved, ?_, hheld, ?_, ?_, ?_⟩
  · exact (hs.conserved.map Prod.fst).nodup_iff.mp hs.placesDistinct
  · intro v hv call
    refine ⟨?_, hs.victim_not_awaited hv call⟩
    intro handle hhandle heq
    exact hs.not_victim (hheld call handle hhandle) v hv heq.symm
  · -- the victims that have been closed are some of the victims
    have hplaces := hs.placesDistinct
    rw [List.map_append] at hplaces
    have hvictims := (List.nodup_append.mp hplaces).2.1
    rw [List.map_map] at hvictims
    exact hvictims.sublist ((List.sublist_append_right s.doomed s.closed).map Victim.id)
  · rintro ⟨hclosed, hcalls, hhandles, hdoomed⟩
    have howed := owed_of_empty hcalls hhandles
    -- a closed cache keeps only what is owed, and nothing is
    have hentries : s.cache.entries.entries = [] := by
      refine Table.entries_eq_nil ?_
      intro key e he
      have hpos := hs.tidy.2 hclosed key e he
      rw [hs.balanced.entryRefs key e he, howed] at hpos
      exact Nat.lt_irrefl 0 hpos
    have hretired : s.cache.retired.entries = [] := by
      refine Table.entries_eq_nil ?_
      intro id e he
      have hpos := hs.tidy.1 id e he
      rw [hs.balanced.retiredRefs id e he, howed] at hpos
      exact Nat.lt_irrefl 0 hpos
    refine ⟨?_, hentries, hretired⟩
    have hconserved := hs.conserved
    unfold Cache.current Cache.outdated Table.values victims at hconserved
    rw [hentries, hretired, hdoomed] at hconserved
    exact hconserved

/-- Whatever happens to a cache that begins empty, in whatever order, every descriptor that was built
is in one place, is kept while it is owed to someone, and is closed once at most, and in the end
once. -/
theorem custody_run (o : CacheOptions) (events : List (CacheEvent κ α)) :
    (({ options := o } : CacheSystem κ α).run events).Custody
      ((({ options := o } : CacheSystem κ α).finished events).filterMap
        FinishedBuild.descriptor?) :=
  (sound_run o events).custody

/-- A cache that is closed stays closed. -/
theorem Sound.isClosed_run (hs : s.Sound past) (hclosed : s.cache.isClosed = true)
    (events : List (CacheEvent κ α)) : (s.run events).cache.isClosed = true := by
  induction events generalizing s past with
  | nil => exact hclosed
  | cons event rest ih => exact ih (hs.step event) ((hs.becomes_step event).closed hclosed)

/-- From a close on the cache is closed, so that it is drained once everyone has gone. -/
theorem isClosed_of_close (o : CacheOptions) (before later : List (CacheEvent κ α)) :
    (({ options := o } : CacheSystem κ α).run (before ++ .close :: later)).cache.isClosed = true := by
  have hs : (({ options := o } : CacheSystem κ α).run before).Sound _ := sound_run o before
  have hclosed : ((({ options := o } : CacheSystem κ α).run before).step .close).cache.isClosed = true :=
    (Cache.close_spec hs.tidy).2.2
  have hrun := (hs.step .close).isClosed_run hclosed later
  unfold CacheSystem.run at hrun ⊢
  rwa [List.foldl_append]

/-- A descriptor whose build ends after the cache was closed is closed with its last handle. -/
example : (({ options := { name := "plugins" } } : CacheSystem String Nat).run
    [.request 0 "a", .close, .complete 0 (.ok 7), .release 0, .dispose 0]).closed =
      [⟨"a", 1, 7⟩] := by
  rfl

end Linkage.CacheSystem

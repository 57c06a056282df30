import Linkage.Proofs.Cache.Balance

/-!
# Changes of a cache in one place

A step changes one table in one place and may then give up descriptors. Each theorem here is about
one such change, and says under which terms the books are right afterwards: the references to one
descriptor, the waiters for one build, a build that begins or ends, a failure that is heard of, a
descriptor that is retired.
-/

namespace Linkage.Cache

variable {κ α : Type} [DecidableEq κ] {c c' : Cache κ α} {owed waits owed' waits' : Nat → Nat}

/-! ## The books and what they are about -/

/-- The books are about the tables and the number of the next build alone. -/
theorem Balanced.of_eq (b : c.Balanced owed waits) (hentries : c'.entries = c.entries)
    (hretired : c'.retired = c.retired) (hbuilding : c'.building = c.building)
    (hfailures : c'.failures = c.failures) (hnext : c.nextId ≤ c'.nextId) :
    c'.Balanced owed waits := by
  have hnumbers : c'.numbers = c.numbers := by
    unfold numbers current outdated underWay
    rw [hentries, hretired, hbuilding, hfailures]
  have hentry : ∀ key e, c'.entries.get? key = some e → c.entries.get? key = some e :=
    fun key e h => hentries ▸ h
  have houtdated : ∀ id e, c'.retired.get? id = some e → c.retired.get? id = some e :=
    fun id e h => hretired ▸ h
  exact {
    entriesDistinct := hentries ▸ b.entriesDistinct
    retiredDistinct := hretired ▸ b.retiredDistinct
    buildingDistinct := hbuilding ▸ b.buildingDistinct
    failuresDistinct := hfailures ▸ b.failuresDistinct
    numbersDistinct := hnumbers ▸ b.numbersDistinct
    numbersBelow := fun id hid => Nat.lt_of_lt_of_le (b.numbersBelow id (hnumbers ▸ hid)) hnext
    exclusive := fun key e he => hbuilding ▸ b.exclusive key e (hentry key e he)
    retiredNumber := fun id e he => b.retiredNumber id e (houtdated id e he)
    entryRefs := fun key e he => b.entryRefs key e (hentry key e he)
    retiredRefs := fun id e he => b.retiredRefs id e (houtdated id e he)
    slotWaiters := fun key slot hs => b.slotWaiters key slot (hbuilding ▸ hs)
    pending := fun id f hf => b.pending id f (hfailures ▸ hf) }

/-- The books do not depend on what is said of other builds. -/
theorem Balanced.congr (b : c.Balanced owed waits)
    (howed : ∀ d ∈ c.current ++ c.outdated, owed' d.1 = owed d.1)
    (hslot : ∀ key slot, c.building.get? key = some slot → waits' slot.id = waits slot.id)
    (hfailed : ∀ id f, c.failures.get? id = some f → waits' id = waits id) :
    c.Balanced owed' waits' := by
  refine { b with entryRefs := ?_, retiredRefs := ?_, slotWaiters := ?_, pending := ?_ }
  · intro key e he
    rw [b.entryRefs key e he]
    exact (howed _ (entry_mem he)).symm
  · intro id e he
    rw [b.retiredRefs id e he, ← b.retiredNumber id e he]
    exact (howed _ (retired_mem he)).symm
  · intro key slot hs
    rw [hslot key slot hs]
    exact b.slotWaiters key slot hs
  · intro id f hf
    rw [hfailed id f hf]
    exact b.pending id f hf

/-! ## References and waiters -/

/-- A change of the references to a descriptor under a key. -/
theorem Balanced.modifyEntry (b : c.Balanced owed waits) {key : κ} {e : CacheEntry α}
    (he : c.entries.get? key = some e) (f : CacheEntry α → CacheEntry α)
    (hf : ∀ x, (f x).descriptor = x.descriptor) (hrefs : (f e).refs = owed' e.id)
    (hothers : ∀ id, id ≠ e.id → owed' id = owed id) :
    ({ c with entries := c.entries.modify key f } : Cache κ α).Balanced owed' waits := by
  have hcurrent : (c.entries.modify key f).values.map CacheEntry.descriptor = c.current :=
    Table.map_values_modify _ _ _ _ hf
  have hid : ∀ x, (f x).id = x.id := fun x => congrArg Prod.fst (hf x)
  have hnumbers : ({ c with entries := c.entries.modify key f } : Cache κ α).numbers = c.numbers := by
    show (((c.entries.modify key f).values.map _ ++ c.outdated).map Prod.fst ++ c.underWay) ++ _ = _
    rw [hcurrent]
    rfl
  refine { b with entriesDistinct := b.entriesDistinct.modify key f, numbersDistinct := ?_,
                  numbersBelow := ?_, exclusive := ?_, entryRefs := ?_, retiredRefs := ?_ }
  · rw [hnumbers]; exact b.numbersDistinct
  · rw [hnumbers]; exact b.numbersBelow
  · intro key' e' he'
    rcases Table.get?_modify_cases he he' with ⟨rfl, -⟩ | ⟨-, hold⟩
    · exact b.exclusive key' e he
    · exact b.exclusive key' e' hold
  · -- the other keys hold descriptors of other builds
    intro key' e' he'
    rcases Table.get?_modify_cases he he' with ⟨-, hnew⟩ | ⟨hkey, hold⟩
    · rw [hnew, hrefs, hid]
    · have hne : e'.id ≠ e.id := fun h => hkey (b.key_unique hold he h)
      rw [hothers _ hne]
      exact b.entryRefs key' e' hold
  · intro id e' he'
    have hne : id ≠ e.id := (b.entry_ne_retired he he').symm
    rw [hothers _ hne]
    exact b.retiredRefs id e' he'

/-- A change of the references to a retired descriptor. -/
theorem Balanced.modifyRetired (b : c.Balanced owed waits) {id : Nat} {e : CacheEntry α}
    (he : c.retired.get? id = some e) (f : CacheEntry α → CacheEntry α)
    (hf : ∀ x, (f x).descriptor = x.descriptor) (hrefs : (f e).refs = owed' id)
    (hothers : ∀ id', id' ≠ id → owed' id' = owed id') :
    ({ c with retired := c.retired.modify id f } : Cache κ α).Balanced owed' waits := by
  have houtdated : (c.retired.modify id f).values.map CacheEntry.descriptor = c.outdated :=
    Table.map_values_modify _ _ _ _ hf
  have hid : ∀ x, (f x).id = x.id := fun x => congrArg Prod.fst (hf x)
  have hnumbers : ({ c with retired := c.retired.modify id f } : Cache κ α).numbers = c.numbers := by
    show ((c.current ++ (c.retired.modify id f).values.map _).map Prod.fst ++ c.underWay) ++ _ = _
    rw [houtdated]
    rfl
  refine { b with retiredDistinct := b.retiredDistinct.modify id f, numbersDistinct := ?_,
                  numbersBelow := ?_, retiredNumber := ?_, entryRefs := ?_, retiredRefs := ?_ }
  · rw [hnumbers]; exact b.numbersDistinct
  · rw [hnumbers]; exact b.numbersBelow
  · intro id' e' he'
    rcases Table.get?_modify_cases he he' with ⟨hkey, hnew⟩ | ⟨-, hold⟩
    · rw [hnew, hid, hkey]
      exact b.retiredNumber id e he
    · exact b.retiredNumber id' e' hold
  · intro key e' he'
    have hne : e'.id ≠ id := b.entry_ne_retired he' he
    rw [hothers _ hne]
    exact b.entryRefs key e' he'
  · intro id' e' he'
    rcases Table.get?_modify_cases he he' with ⟨hkey, hnew⟩ | ⟨hkey, hold⟩
    · rw [hnew, hrefs, hkey]
    · rw [hothers _ hkey]
      exact b.retiredRefs id' e' hold

/-- A change of the waiters for a build under way. -/
theorem Balanced.modifySlot (b : c.Balanced owed waits) {key : κ} {slot : BuildSlot}
    (hs : c.building.get? key = some slot) (f : BuildSlot → BuildSlot)
    (hf : ∀ x, (f x).id = x.id) (hwaiters : (f slot).waiters = waits' slot.id)
    (hothers : ∀ id, id ≠ slot.id → owed' id = owed id ∧ waits' id = waits id) :
    ({ c with building := c.building.modify key f } : Cache κ α).Balanced owed' waits' := by
  have hway : (c.building.modify key f).values.map BuildSlot.id = c.underWay :=
    Table.map_values_modify _ _ _ _ hf
  have hnumbers : ({ c with building := c.building.modify key f } : Cache κ α).numbers =
      c.numbers := by
    show ((c.current ++ c.outdated).map Prod.fst ++ (c.building.modify key f).values.map _) ++ _ = _
    rw [hway]
    rfl
  have howed : ∀ d ∈ c.current ++ c.outdated, owed' d.1 = owed d.1 :=
    fun d hd => (hothers _ (b.descriptor_ne_slot hd hs)).1
  refine { b with buildingDistinct := b.buildingDistinct.modify key f, numbersDistinct := ?_,
                  numbersBelow := ?_, exclusive := ?_, entryRefs := ?_, retiredRefs := ?_,
                  slotWaiters := ?_, pending := ?_ }
  · rw [hnumbers]; exact b.numbersDistinct
  · rw [hnumbers]; exact b.numbersBelow
  · intro key' e he
    have hnone := b.exclusive key' e he
    rw [Table.get?_modify]
    by_cases hkey : key' = key
    · rw [hkey, hs] at hnone
      cases hnone
    · rw [if_neg hkey]
      exact hnone
  · intro key' e he
    rw [b.entryRefs key' e he]
    exact (howed _ (entry_mem he)).symm
  · intro id e he
    rw [b.retiredRefs id e he, ← b.retiredNumber id e he]
    exact (howed _ (retired_mem he)).symm
  · intro key' slot' hs'
    rcases Table.get?_modify_cases hs hs' with ⟨-, hnew⟩ | ⟨hkey, hold⟩
    · rw [hnew, hwaiters, hf]
    · have hne : slot'.id ≠ slot.id := fun h => hkey (b.slot_unique hold hs h)
      rw [(hothers _ hne).2]
      exact b.slotWaiters key' slot' hold
  · intro id f' hf'
    have hne : id ≠ slot.id := (b.slot_ne_failure hs hf').symm
    rw [(hothers _ hne).2]
    exact b.pending id f' hf'

/-! ## Builds and failures -/

/-- A build begins under the next number, and nobody waits for it. -/
theorem Balanced.beginBuild (b : c.Balanced owed waits) {key : κ}
    (hentry : c.entries.get? key = none) (hslot : c.building.get? key = none)
    (hwaits : waits c.nextId = 0) :
    ({ c with building := c.building.put key ⟨c.nextId, 0⟩, nextId := c.nextId + 1 } :
      Cache κ α).Balanced owed waits := by
  have hfresh : c.nextId ∉ c.numbers := fun h => Nat.lt_irrefl _ (b.numbersBelow _ h)
  have hnumbers : (({ c with
      building := c.building.put key ⟨c.nextId, 0⟩
      nextId := c.nextId + 1 } : Cache κ α).numbers).Perm (c.nextId :: c.numbers) := by
    have hway : (c.building.put key ⟨c.nextId, 0⟩).values.map BuildSlot.id =
        c.underWay ++ [c.nextId] := by
      rw [Table.values_put_of_new hslot, List.map_append]
      rfl
    show (((c.current ++ c.outdated).map Prod.fst ++
      (c.building.put key ⟨c.nextId, 0⟩).values.map BuildSlot.id) ++ c.failures.keys).Perm _
    rw [hway, ← List.append_assoc, List.append_assoc _ [c.nextId]]
    exact List.perm_middle
  refine { b with buildingDistinct := b.buildingDistinct.put hslot _, numbersDistinct := ?_,
                  numbersBelow := ?_, exclusive := ?_, slotWaiters := ?_ }
  · exact hnumbers.nodup_iff.mpr (List.nodup_cons.mpr ⟨hfresh, b.numbersDistinct⟩)
  · intro id hid
    rcases List.mem_cons.mp (hnumbers.mem_iff.mp hid) with rfl | hid
    · exact Nat.lt_succ_self _
    · exact Nat.lt_succ_of_lt (b.numbersBelow id hid)
  · intro key' e he
    have hkey : key' ≠ key := by
      rintro rfl
      rw [hentry] at he
      cases he
    rw [Table.get?_put, if_neg hkey]
    exact b.exclusive key' e he
  · intro key' slot hs
    rcases Table.get?_put_cases hs with ⟨-, hnew⟩ | ⟨-, hold⟩
    · rw [hnew]
      exact hwaits.symm
    · exact b.slotWaiters key' slot hold

/-- The slot of a build that ends is taken away. -/
theorem numbers_perm_eraseSlot (b : c.Balanced owed waits) {key : κ} {slot : BuildSlot}
    (hs : c.building.get? key = some slot) :
    c.numbers.Perm (slot.id ::
      ({ c with building := c.building.erase key } : Cache κ α).numbers) := by
  have hway : c.underWay.Perm (slot.id :: (c.building.erase key).values.map BuildSlot.id) :=
    (Table.values_perm_erase b.buildingDistinct hs).map BuildSlot.id
  have hmid := (hway.append_left ((c.current ++ c.outdated).map Prod.fst)).append_right
    c.failures.keys
  exact hmid.trans (List.perm_middle.append_right _)

/-- A build ends well: its descriptor comes under its key, owed to the builder and to those who
waited. -/
theorem Balanced.enroll (b : c.Balanced owed waits) {key : κ} {slot : BuildSlot} {e : CacheEntry α}
    (hs : c.building.get? key = some slot) (hid : e.id = slot.id) (hrefs : e.refs = owed' slot.id)
    (hothers : ∀ id, id ≠ slot.id → owed' id = owed id) :
    ({ c with building := c.building.erase key, entries := c.entries.put key e } :
      Cache κ α).Balanced owed' waits := by
  have hentry := b.entry_none hs
  have hnumbers : (({ c with building := c.building.erase key, entries := c.entries.put key e } :
      Cache κ α).numbers).Perm c.numbers := by
    refine List.Perm.trans ?_ (numbers_perm_eraseSlot b hs).symm
    have hcurrent : (c.entries.put key e).values.map CacheEntry.descriptor =
        c.current ++ [e.descriptor] := by
      rw [Table.values_put_of_new hentry, List.map_append]
      rfl
    show ((((c.entries.put key e).values.map CacheEntry.descriptor ++ c.outdated).map Prod.fst ++
      (c.building.erase key).values.map BuildSlot.id) ++ c.failures.keys).Perm _
    rw [hcurrent, List.append_assoc c.current, ← hid]
    have hmid : ((c.current ++ ([e.descriptor] ++ c.outdated)).map Prod.fst).Perm
        (e.id :: (c.current ++ c.outdated).map Prod.fst) :=
      (List.perm_middle (a := e.descriptor)).map Prod.fst
    exact (hmid.append_right _).append_right _
  have howed : ∀ d ∈ c.current ++ c.outdated, owed' d.1 = owed d.1 :=
    fun d hd => hothers _ (b.descriptor_ne_slot hd hs)
  refine { b with entriesDistinct := b.entriesDistinct.put hentry e,
                  buildingDistinct := b.buildingDistinct.erase key, numbersDistinct := ?_,
                  numbersBelow := ?_, exclusive := ?_, entryRefs := ?_, retiredRefs := ?_,
                  slotWaiters := ?_ }
  · exact hnumbers.nodup_iff.mpr b.numbersDistinct
  · intro id hid
    exact b.numbersBelow id (hnumbers.mem_iff.mp hid)
  · intro key' e' he'
    rw [Table.get?_erase]
    rcases Table.get?_put_cases he' with ⟨hkey, -⟩ | ⟨hkey, hold⟩
    · rw [if_pos hkey]
    · rw [if_neg hkey]
      exact b.exclusive key' e' hold
  · intro key' e' he'
    rcases Table.get?_put_cases he' with ⟨-, hnew⟩ | ⟨-, hold⟩
    · rw [hnew, hrefs, hid]
    · rw [b.entryRefs key' e' hold]
      exact (howed _ (entry_mem hold)).symm
  · intro id e' he'
    rw [b.retiredRefs id e' he', ← b.retiredNumber id e' he']
    exact (howed _ (retired_mem he')).symm
  · intro key' slot' hs'
    obtain ⟨-, hold⟩ := Table.get?_erase_cases hs'
    exact b.slotWaiters key' slot' hold

/-- A build fails, and nobody waited for it. -/
theorem Balanced.dropSlot (b : c.Balanced owed waits) {key : κ} {slot : BuildSlot}
    (hs : c.building.get? key = some slot) :
    ({ c with building := c.building.erase key } : Cache κ α).Balanced owed waits := by
  have hnumbers := numbers_perm_eraseSlot b hs
  refine { b with buildingDistinct := b.buildingDistinct.erase key, numbersDistinct := ?_,
                  numbersBelow := ?_, exclusive := ?_, slotWaiters := ?_ }
  · exact (List.nodup_cons.mp (hnumbers.nodup_iff.mp b.numbersDistinct)).2
  · intro id hid
    exact b.numbersBelow id (hnumbers.mem_iff.mpr (List.mem_cons_of_mem _ hid))
  · intro key' e' he'
    rw [Table.get?_erase]
    by_cases hkey : key' = key
    · rw [if_pos hkey]
    · rw [if_neg hkey]
      exact b.exclusive key' e' he'
  · intro key' slot' hs'
    obtain ⟨-, hold⟩ := Table.get?_erase_cases hs'
    exact b.slotWaiters key' slot' hold

/-- A build fails, and the failure is kept for those who waited. -/
theorem Balanced.keepFailure (b : c.Balanced owed waits) {key : κ} {slot : BuildSlot}
    {f : FailedBuild} (hs : c.building.get? key = some slot) (hpending : f.pending = slot.waiters)
    (hwaiters : 0 < slot.waiters) :
    ({ c with building := c.building.erase key, failures := c.failures.put slot.id f } :
      Cache κ α).Balanced owed waits := by
  have hnew : c.failures.get? slot.id = none := by
    cases hget : c.failures.get? slot.id with
    | none => rfl
    | some f' => exact absurd rfl (b.slot_ne_failure hs hget)
  have hkeys : (c.failures.put slot.id f).keys = c.failures.keys ++ [slot.id] := by
    unfold Table.keys
    rw [Table.entries_put_of_new hnew, List.map_append]
    rfl
  have hnumbers : (({ c with
      building := c.building.erase key
      failures := c.failures.put slot.id f } : Cache κ α).numbers).Perm c.numbers := by
    refine List.Perm.trans ?_ (numbers_perm_eraseSlot b hs).symm
    show (((c.current ++ c.outdated).map Prod.fst ++ _) ++ (c.failures.put slot.id f).keys).Perm _
    rw [hkeys, ← List.append_assoc]
    exact List.perm_append_singleton _ _
  have hdrop := b.dropSlot hs
  refine { hdrop with failuresDistinct := b.failuresDistinct.put hnew f, numbersDistinct := ?_,
                      numbersBelow := ?_, pending := ?_ }
  · exact hnumbers.nodup_iff.mpr b.numbersDistinct
  · intro id hid
    exact b.numbersBelow id (hnumbers.mem_iff.mp hid)
  · intro id f' hf'
    rcases Table.get?_put_cases hf' with ⟨hkey, hnew⟩ | ⟨-, hold⟩
    · have := b.slotWaiters key slot hs
      rw [hnew, hkey]
      exact ⟨by omega, by omega⟩
    · exact b.pending id f' hold

/-- One of those who waited for a failed build hears of it; after the last one the failure is
forgotten. -/
theorem Balanced.hearFailure (b : c.Balanced owed waits) {id : Nat} {f : FailedBuild}
    (hf : c.failures.get? id = some f) (hwaits : waits id = waits' id + 1)
    (hothers : ∀ j, j ≠ id → owed' j = owed j ∧ waits' j = waits j) :
    ({ c with failures :=
        if f.pending ≤ 1 then c.failures.erase id
        else c.failures.modify id fun f => { f with pending := f.pending - 1 } } :
      Cache κ α).Balanced owed' waits' := by
  have hpending := (b.pending id f hf).1
  have howed : ∀ d ∈ c.current ++ c.outdated, owed' d.1 = owed d.1 := by
    intro d hd
    refine (hothers _ ?_).1
    have hdisjoint := (List.nodup_append.mp b.numbersDistinct).2.2
    exact hdisjoint _ (List.mem_append_left _ (List.mem_map_of_mem hd)) _
      (List.mem_map_of_mem (f := Prod.fst) (Table.mem_of_get? hf))
  have hslot : ∀ key slot, c.building.get? key = some slot → waits' slot.id = waits slot.id :=
    fun key slot hs => (hothers _ (b.slot_ne_failure hs hf)).2
  by_cases hlast : f.pending ≤ 1
  · -- nobody is left to hear of the failure
    rw [if_pos hlast]
    have hsub : (c.failures.erase id).keys.Sublist c.failures.keys := List.filter_sublist.map _
    have hdrop : ({ c with failures := c.failures.erase id } : Cache κ α).Balanced owed waits := by
      refine { b with failuresDistinct := b.failuresDistinct.erase id, numbersDistinct := ?_,
                      numbersBelow := ?_, pending := ?_ }
      · exact List.Nodup.sublist (hsub.append_left _) b.numbersDistinct
      · intro j hj
        exact b.numbersBelow j ((hsub.append_left _).subset hj)
      · intro j f' hf'
        obtain ⟨-, hold⟩ := Table.get?_erase_cases hf'
        exact b.pending j f' hold
    refine hdrop.congr howed hslot ?_
    intro j f' hf'
    exact (hothers j (Table.get?_erase_cases hf').1).2
  · -- one less is to hear of it, and nothing else is new
    rw [if_neg hlast]
    have hkeys : (c.failures.modify id fun f => { f with pending := f.pending - 1 }).keys =
        c.failures.keys := Table.keys_modify _ _ _
    have hcongr : c.Balanced owed' (fun j => if j = id then waits id else waits' j) := by
      refine b.congr howed ?_ ?_
      · intro key slot hs
        rw [if_neg (b.slot_ne_failure hs hf)]
        exact hslot key slot hs
      · intro j f' _
        by_cases hkey : j = id
        · rw [if_pos hkey, hkey]
        · rw [if_neg hkey]
          exact (hothers j hkey).2
    refine { hcongr with failuresDistinct := b.failuresDistinct.modify id _,
                         numbersDistinct := ?_, numbersBelow := ?_, slotWaiters := ?_,
                         pending := ?_ }
    · show (((c.current ++ c.outdated).map Prod.fst ++ c.underWay) ++ Table.keys _).Nodup
      rw [hkeys]
      exact b.numbersDistinct
    · intro j hj
      have hj : j ∈ ((c.current ++ c.outdated).map Prod.fst ++ c.underWay) ++ Table.keys _ := hj
      rw [hkeys] at hj
      exact b.numbersBelow j hj
    · intro key slot hs
      rw [hslot key slot hs]
      exact b.slotWaiters key slot hs
    · intro j f' hf'
      rcases Table.get?_modify_cases hf hf' with ⟨hkey, hnew⟩ | ⟨hkey, hold⟩
      · rw [hnew, hkey]
        exact ⟨by simp only; omega, by omega⟩
      · rw [(hothers j hkey).2]
        exact b.pending j f' hold

/-- Retiring a descriptor takes it from one table to the other. -/
theorem stock_perm_retire (b : c.Balanced owed waits) {key : κ} {e : CacheEntry α}
    (he : c.entries.get? key = some e) :
    (c.current ++ c.outdated).Perm ((c.entries.erase key).values.map CacheEntry.descriptor ++
      (c.retired.put e.id e).values.map CacheEntry.descriptor) := by
  have hcurrent : c.current.Perm
      (e.descriptor :: (c.entries.erase key).values.map CacheEntry.descriptor) :=
    (Table.values_perm_erase b.entriesDistinct he).map CacheEntry.descriptor
  have houtdated : (c.retired.put e.id e).values.map CacheEntry.descriptor =
      c.outdated ++ [e.descriptor] := by
    rw [Table.values_put_of_new (b.retired_none he), List.map_append]
    rfl
  rw [houtdated, ← List.append_assoc]
  exact (hcurrent.append_right _).trans (List.perm_append_singleton _ _).symm

/-- A descriptor that is still referenced is retired when its key is invalidated. -/
theorem Balanced.retire (b : c.Balanced owed waits) {key : κ} {e : CacheEntry α}
    (he : c.entries.get? key = some e) :
    ({ c with entries := c.entries.erase key, retired := c.retired.put e.id e } :
      Cache κ α).Balanced owed waits := by
  have hnew := b.retired_none he
  have hnumbers : (({ c with entries := c.entries.erase key, retired := c.retired.put e.id e } :
      Cache κ α).numbers).Perm c.numbers := by
    have hstock := (stock_perm_retire b he).symm
    exact ((hstock.map Prod.fst).append_right _).append_right _
  refine { b with entriesDistinct := b.entriesDistinct.erase key,
                  retiredDistinct := b.retiredDistinct.put hnew e, numbersDistinct := ?_,
                  numbersBelow := ?_, exclusive := ?_, retiredNumber := ?_, entryRefs := ?_,
                  retiredRefs := ?_ }
  · exact hnumbers.nodup_iff.mpr b.numbersDistinct
  · intro id hid
    exact b.numbersBelow id (hnumbers.mem_iff.mp hid)
  · intro key' e' he'
    obtain ⟨-, hold⟩ := Table.get?_erase_cases he'
    exact b.exclusive key' e' hold
  · intro id e' he'
    rcases Table.get?_put_cases he' with ⟨hkey, hnew⟩ | ⟨-, hold⟩
    · rw [hnew, hkey]
    · exact b.retiredNumber id e' hold
  · intro key' e' he'
    obtain ⟨-, hold⟩ := Table.get?_erase_cases he'
    exact b.entryRefs key' e' hold
  · intro id e' he'
    rcases Table.get?_put_cases he' with ⟨hkey, hnew⟩ | ⟨-, hold⟩
    · rw [hnew, hkey]
      exact b.entryRefs key e he
    · exact b.retiredRefs id e' hold

end Linkage.Cache

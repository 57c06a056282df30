import Linkage.Cache.System
import Linkage.Proofs.Table

/-!
# The books of a cache

A cache keeps its books right if every descriptor in it counts exactly the references it is owed to,
every build under way its waiters, and every failed build those who have not heard of it. The owed
references and the waits are functions of the number of a build here; whoever has the calls and the
handles in view says what they are.

* **`Balanced`** — the books are right, and no number stands for two things at once;
* **`Sheds`** — a cache gives up descriptors that nobody is owed, and changes in nothing else. All
  evictions are of this kind, and it keeps the books right (`Sheds.balanced`) and every descriptor
  that is owed to someone (`Sheds.holds`);
* **one lemma for each step** — what it does to the books.
-/

namespace Linkage

variable {κ α : Type}

/-- A descriptor: the number of its build, and its value. -/
def CacheEntry.descriptor (e : CacheEntry α) : Nat × α := (e.id, e.value)

/-- The descriptor of a victim. -/
def Victim.descriptor (v : Victim κ α) : Nat × α := (v.id, v.value)

namespace Cache

/-- The descriptors under keys. -/
def current (c : Cache κ α) : List (Nat × α) := c.entries.values.map CacheEntry.descriptor

/-- The descriptors that were invalidated and are still referenced. -/
def outdated (c : Cache κ α) : List (Nat × α) := c.retired.values.map CacheEntry.descriptor

/-- The numbers of the builds under way. -/
def underWay (c : Cache κ α) : List Nat := c.building.values.map (·.id)

/-- The numbers of the builds that something in the cache stands for. -/
def numbers (c : Cache κ α) : List Nat :=
  (c.current ++ c.outdated).map Prod.fst ++ c.underWay ++ c.failures.keys

/-! ## Giving up descriptors -/

section Sheds

variable {c c' c'' : Cache κ α} {victims victims' : List (Victim κ α)}

theorem retired_mem {id : Nat} {e : CacheEntry α} (h : c.retired.get? id = some e) :
    e.descriptor ∈ c.current ++ c.outdated :=
  List.mem_append_right _ (List.mem_map_of_mem (Table.mem_values_of_get? h))

theorem perm_append_append_comm {β : Type} (a b c d : List β) :
    ((a ++ b) ++ (c ++ d)).Perm ((a ++ c) ++ (b ++ d)) := by
  rw [List.append_assoc, List.append_assoc]
  refine List.Perm.append_left a ?_
  rw [← List.append_assoc, ← List.append_assoc]
  exact List.perm_append_comm.append_right d

theorem current_eq (c : Cache κ α) :
    c.current = c.entries.entries.map (fun e => e.2.descriptor) := by
  unfold current Table.values
  rw [List.map_map]
  rfl

theorem outdated_eq (c : Cache κ α) :
    c.outdated = c.retired.entries.map (fun e => e.2.descriptor) := by
  unfold outdated Table.values
  rw [List.map_map]
  rfl

/-- A cache gives up descriptors to which there is no reference, and nothing else changes. -/
structure Sheds (c : Cache κ α) (victims : List (Victim κ α)) (c' : Cache κ α) : Prop where
  frame : c' = { c with entries := c'.entries, retired := c'.retired }
  split : ∃ (gone : List (κ × CacheEntry α)) (goneRetired : List (Nat × CacheEntry α)),
    c.entries.entries.Perm (gone ++ c'.entries.entries) ∧
    c.retired.entries.Perm (goneRetired ++ c'.retired.entries) ∧
    (victims.map Victim.descriptor).Perm
      (gone.map (·.2.descriptor) ++ goneRetired.map (·.2.descriptor)) ∧
    (∀ e ∈ gone, e.2.refs = 0) ∧ ∀ e ∈ goneRetired, e.2.refs = 0

namespace Sheds

theorem refl (c : Cache κ α) : c.Sheds [] c :=
  ⟨rfl, [], [], List.Perm.refl _, List.Perm.refl _, List.Perm.refl _, by simp, by simp⟩

theorem trans (h : c.Sheds victims c') (h' : c'.Sheds victims' c'') :
    c.Sheds (victims ++ victims') c'' := by
  obtain ⟨hframe, gone, goneR, hentries, hretired, hvictims, hrefs, hrefsR⟩ := h
  obtain ⟨hframe', gone', goneR', hentries', hretired', hvictims', hrefs', hrefsR'⟩ := h'
  refine ⟨?_, gone ++ gone', goneR ++ goneR', ?_, ?_, ?_, ?_, ?_⟩
  · rw [hframe', hframe]
  · rw [List.append_assoc]
    exact hentries.trans (hentries'.append_left gone)
  · rw [List.append_assoc]
    exact hretired.trans (hretired'.append_left goneR)
  · rw [List.map_append, List.map_append, List.map_append]
    exact (hvictims.append hvictims').trans (perm_append_append_comm _ _ _ _)
  · intro e he
    rcases List.mem_append.mp he with he | he
    · exact hrefs e he
    · exact hrefs' e he
  · intro e he
    rcases List.mem_append.mp he with he | he
    · exact hrefsR e he
    · exact hrefsR' e he

/-- Taking out unreferenced descriptors. -/
theorem takeOut (c : Cache κ α) (gone : κ × CacheEntry α → Bool)
    (hgone : ∀ e, gone e = true → e.2.refs = 0) :
    c.Sheds (c.takeOut gone).1 (c.takeOut gone).2 := by
  refine ⟨rfl, c.entries.entries.filter gone, [], ?_, List.Perm.refl _, ?_, ?_, by simp⟩
  · exact (List.filter_append_perm gone c.entries.entries).symm
  · show (((c.entries.entries.filter gone).map _).map Victim.descriptor).Perm _
    rw [List.map_map, List.map_nil, List.append_nil]
    exact List.Perm.refl _
  · intro e he
    exact hgone e (List.mem_filter.mp he).2

/-- Dropping one unreferenced descriptor that is retired. -/
theorem eraseRetired {c : Cache κ α} (hc : c.retired.Distinct) (key : κ) {id : Nat}
    {e : CacheEntry α} (he : c.retired.get? id = some e) (hid : e.id = id) (hrefs : e.refs = 0) :
    c.Sheds [⟨key, id, e.value⟩] { c with retired := c.retired.erase id } := by
  refine ⟨rfl, [], [(id, e)], List.Perm.refl _, Table.entries_perm_erase hc he, ?_, by simp, ?_⟩
  · subst hid
    exact List.Perm.refl _
  · intro e' he'
    rw [List.mem_singleton.mp he']
    exact hrefs

theorem expire (o : CacheOptions) (now : Nat) (c : Cache κ α) :
    c.Sheds (c.expire o now).1 (c.expire o now).2 := by
  unfold Cache.expire
  cases o.idleTtl with
  | none => exact refl c
  | some ttl =>
      refine takeOut c _ ?_
      intro e he
      have hand := (Bool.and_eq_true _ _).mp he
      simpa using hand.1

theorem entriesDistinct (h : c.Sheds victims c') (hc : c.entries.Distinct) :
    c'.entries.Distinct := by
  obtain ⟨_, gone, _, hentries, _⟩ := h
  have hkeys := (hentries.map Prod.fst).nodup_iff.mp hc
  rw [List.map_append] at hkeys
  exact (List.nodup_append.mp hkeys).2.1

theorem retiredDistinct (h : c.Sheds victims c') (hc : c.retired.Distinct) :
    c'.retired.Distinct := by
  obtain ⟨_, _, goneR, _, hretired, _⟩ := h
  have hkeys := (hretired.map Prod.fst).nodup_iff.mp hc
  rw [List.map_append] at hkeys
  exact (List.nodup_append.mp hkeys).2.1

/-- What is still retired was so before. -/
theorem get?_retired (h : c.Sheds victims c') (hc : c.retired.Distinct) {id : Nat}
    {e : CacheEntry α} (he : c'.retired.get? id = some e) : c.retired.get? id = some e := by
  obtain ⟨_, _, goneR, _, hretired, _⟩ := h
  refine Table.get?_of_mem hc ?_
  exact hretired.mem_iff.mpr (List.mem_append_right _ (Table.mem_of_get? he))

/-- A retired descriptor that is referenced stays. -/
theorem keeps_retired (h : c.Sheds victims c') (hc : c.retired.Distinct) {id : Nat}
    {e : CacheEntry α} (he : c.retired.get? id = some e) (hrefs : 0 < e.refs) :
    c'.retired.get? id = some e := by
  have hc' := h.retiredDistinct hc
  obtain ⟨_, _, goneR, _, hretired, _, _, hgoneR⟩ := h
  refine Table.get?_of_mem hc' ?_
  rcases List.mem_append.mp (hretired.mem_iff.mp (Table.mem_of_get? he)) with hmem | hmem
  · have := hgoneR _ hmem
    simp only at this
    omega
  · exact hmem

theorem building_eq (h : c.Sheds victims c') : c'.building = c.building := by
  rw [h.frame]

theorem failures_eq (h : c.Sheds victims c') : c'.failures = c.failures := by
  rw [h.frame]

theorem nextId_eq (h : c.Sheds victims c') : c'.nextId = c.nextId := by
  rw [h.frame]

theorem isClosed_eq (h : c.Sheds victims c') : c'.isClosed = c.isClosed := by
  rw [h.frame]

theorem counts_eq (h : c.Sheds victims c') : c'.counts = c.counts := by
  rw [h.frame]

theorem tick_eq (h : c.Sheds victims c') : c'.tick = c.tick := by
  rw [h.frame]

/-- Nothing is lost: what is no longer in the cache is a victim. -/
theorem descriptors (h : c.Sheds victims c') :
    (c.current ++ c.outdated).Perm
      (victims.map Victim.descriptor ++ (c'.current ++ c'.outdated)) := by
  obtain ⟨_, gone, goneR, hentries, hretired, hvictims, _⟩ := h
  have hcurrent : c.current.Perm (gone.map (·.2.descriptor) ++ c'.current) := by
    rw [current_eq, current_eq, ← List.map_append]
    exact hentries.map _
  have houtdated : c.outdated.Perm (goneR.map (·.2.descriptor) ++ c'.outdated) := by
    rw [outdated_eq, outdated_eq, ← List.map_append]
    exact hretired.map _
  have hboth := (hcurrent.append houtdated).trans (perm_append_append_comm _ _ _ _)
  exact hboth.trans (hvictims.symm.append_right _)

/-- The numbers that are left were there before. -/
theorem numbers_perm (h : c.Sheds victims c') :
    (victims.map Victim.id ++ c'.numbers).Perm c.numbers := by
  have hids : ((c.current ++ c.outdated).map Prod.fst).Perm
      (victims.map Victim.id ++ (c'.current ++ c'.outdated).map Prod.fst) := by
    refine (h.descriptors.map Prod.fst).trans ?_
    rw [List.map_append, List.map_map]
    exact List.Perm.refl _
  unfold numbers underWay
  rw [h.building_eq, h.failures_eq, ← List.append_assoc, ← List.append_assoc]
  exact (hids.symm.append_right _).append_right _

end Sheds

theorem mem_of_oldest? {l : List (κ × CacheEntry α)} {e : κ × CacheEntry α}
    (h : oldest? l = some e) : e ∈ l ∧ e.2.refs = 0 := by
  induction l with
  | nil => simp [oldest?] at h
  | cons head rest ih =>
      unfold oldest? at h
      by_cases hrefs : head.2.refs ≠ 0
      · rw [if_pos hrefs] at h
        exact ⟨List.mem_cons_of_mem _ (ih h).1, (ih h).2⟩
      · rw [if_neg hrefs] at h
        have hzero : head.2.refs = 0 := by simpa using hrefs
        cases hrest : oldest? rest with
        | none =>
            rw [hrest] at h
            injection h with h
            subst h
            exact ⟨List.mem_cons_self, hzero⟩
        | some other =>
            rw [hrest] at h ih
            by_cases htick : other.2.tick < head.2.tick
            · simp only [if_pos htick] at h
              exact ⟨List.mem_cons_of_mem _ (ih h).1, (ih h).2⟩
            · simp only [if_neg htick] at h
              injection h with h
              subst h
              exact ⟨List.mem_cons_self, hzero⟩

end Sheds

variable [DecidableEq κ]

/-- The books are right: `owed id` references are owed to the descriptor of a build, and `waits id`
calls wait for it. -/
structure Balanced (c : Cache κ α) (owed waits : Nat → Nat) : Prop where
  entriesDistinct : c.entries.Distinct
  retiredDistinct : c.retired.Distinct
  buildingDistinct : c.building.Distinct
  failuresDistinct : c.failures.Distinct
  numbersDistinct : c.numbers.Nodup
  numbersBelow : ∀ id ∈ c.numbers, id < c.nextId
  exclusive : ∀ key e, c.entries.get? key = some e → c.building.get? key = none
  retiredNumber : ∀ id e, c.retired.get? id = some e → e.id = id
  entryRefs : ∀ key e, c.entries.get? key = some e → e.refs = owed e.id
  retiredRefs : ∀ id e, c.retired.get? id = some e → e.refs = owed id
  slotWaiters : ∀ key slot, c.building.get? key = some slot → slot.waiters = waits slot.id
  pending : ∀ id f, c.failures.get? id = some f → f.pending = waits id ∧ 0 < waits id

/-- The descriptor of a build can be had: under its key, or retired. -/
def Holds (c : Cache κ α) (key : κ) (id : Nat) (value : α) : Prop :=
  (∃ e, c.entries.get? key = some e ∧ e.id = id ∧ e.value = value) ∨
    ∃ e, c.retired.get? id = some e ∧ e.value = value

/-- Nothing is kept that should be gone: what is retired is referenced, and after the cache was
closed everything is. -/
def Tidy (c : Cache κ α) : Prop :=
  (∀ id e, c.retired.get? id = some e → 0 < e.refs) ∧
    (c.isClosed = true → ∀ key e, c.entries.get? key = some e → 0 < e.refs)

/-! ## Numbers -/

section Numbers

variable {c : Cache κ α} {owed waits : Nat → Nat}

theorem entry_mem {key : κ} {e : CacheEntry α} (h : c.entries.get? key = some e) :
    e.descriptor ∈ c.current ++ c.outdated :=
  List.mem_append_left _ (List.mem_map_of_mem (Table.mem_values_of_get? h))

namespace Balanced

/-- Different keys hold descriptors of different builds. -/
theorem key_unique (b : Balanced c owed waits) {key key' : κ} {e e' : CacheEntry α}
    (h : c.entries.get? key = some e) (h' : c.entries.get? key' = some e') (hid : e.id = e'.id) :
    key = key' := by
  have hnodup : (c.entries.entries.map (fun e => e.2.id)).Nodup := by
    have hcurrent := (List.nodup_append.mp (List.nodup_append.mp b.numbersDistinct).1).1
    rw [List.map_append] at hcurrent
    have := (List.nodup_append.mp hcurrent).1
    unfold current Table.values at this
    rwa [List.map_map, List.map_map] at this
  -- the numbers under keys are distinct, so a number has one key
  have heq := List.inj_on_of_nodup_map hnodup (Table.mem_of_get? h) (Table.mem_of_get? h') hid
  exact (Prod.mk.inj heq).1

/-- A retired descriptor is of another build than those under keys. -/
theorem entry_ne_retired (b : Balanced c owed waits) {key : κ} {id : Nat} {e e' : CacheEntry α}
    (h : c.entries.get? key = some e) (h' : c.retired.get? id = some e') : e.id ≠ id := by
  have hcurrent := (List.nodup_append.mp (List.nodup_append.mp b.numbersDistinct).1).1
  rw [List.map_append] at hcurrent
  have hmem : e.id ∈ c.current.map Prod.fst :=
    List.mem_map_of_mem (f := Prod.fst) (List.mem_map_of_mem (Table.mem_values_of_get? h))
  have hmem' : e'.id ∈ c.outdated.map Prod.fst :=
    List.mem_map_of_mem (f := Prod.fst) (List.mem_map_of_mem (Table.mem_values_of_get? h'))
  rw [← b.retiredNumber id e' h']
  exact (List.nodup_append.mp hcurrent).2.2 _ hmem _ hmem'

/-- What is under a key is not retired. -/
theorem retired_none (b : Balanced c owed waits) {key : κ} {e : CacheEntry α}
    (h : c.entries.get? key = some e) : c.retired.get? e.id = none := by
  cases hget : c.retired.get? e.id with
  | none => rfl
  | some e' => exact absurd rfl (b.entry_ne_retired h hget)

/-- The key of a build under way holds no descriptor. -/
theorem entry_none (b : Balanced c owed waits) {key : κ} {slot : BuildSlot}
    (h : c.building.get? key = some slot) : c.entries.get? key = none := by
  cases hget : c.entries.get? key with
  | none => rfl
  | some e =>
      have hnone := b.exclusive key e hget
      rw [h] at hnone
      cases hnone

/-- A descriptor is of another build than those under way. -/
theorem descriptor_ne_slot (b : Balanced c owed waits) {key : κ} {slot : BuildSlot} {d : Nat × α}
    (hd : d ∈ c.current ++ c.outdated) (h : c.building.get? key = some slot) : d.1 ≠ slot.id :=
  (List.nodup_append.mp (List.nodup_append.mp b.numbersDistinct).1).2.2 _
    (List.mem_map_of_mem (f := Prod.fst) hd) _
    (List.mem_map_of_mem (f := BuildSlot.id) (Table.mem_values_of_get? h))

/-- A build under way has not failed. -/
theorem slot_ne_failure (b : Balanced c owed waits) {key : κ} {slot : BuildSlot} {id : Nat}
    {f : FailedBuild} (h : c.building.get? key = some slot) (h' : c.failures.get? id = some f) :
    slot.id ≠ id :=
  (List.nodup_append.mp b.numbersDistinct).2.2 _
    (List.mem_append_right _ (List.mem_map_of_mem (f := BuildSlot.id) (Table.mem_values_of_get? h)))
    _ (List.mem_map_of_mem (f := Prod.fst) (Table.mem_of_get? h'))

/-- Different keys have different builds under way. -/
theorem slot_unique (b : Balanced c owed waits) {key key' : κ} {slot slot' : BuildSlot}
    (h : c.building.get? key = some slot) (h' : c.building.get? key' = some slot')
    (hid : slot.id = slot'.id) : key = key' := by
  have hnodup : (c.building.entries.map (fun e => e.2.id)).Nodup := by
    have := (List.nodup_append.mp (List.nodup_append.mp b.numbersDistinct).1).2.1
    unfold underWay Table.values at this
    rwa [List.map_map] at this
  have heq := List.inj_on_of_nodup_map hnodup (Table.mem_of_get? h) (Table.mem_of_get? h') hid
  exact (Prod.mk.inj heq).1

end Balanced

theorem Holds.mem {key : κ} {id : Nat} {value : α} (h : c.Holds key id value)
    (b : Balanced c owed waits) : (id, value) ∈ c.current ++ c.outdated := by
  rcases h with ⟨e, he, rfl, rfl⟩ | ⟨e, he, rfl⟩
  · exact entry_mem he
  · have hmem := retired_mem he
    unfold CacheEntry.descriptor at hmem
    rwa [b.retiredNumber id e he] at hmem

end Numbers

/-! ## Giving up what is under a key -/

namespace Sheds

variable {c c' : Cache κ α} {victims : List (Victim κ α)} {owed waits : Nat → Nat}

/-- Taking out one unreferenced descriptor. -/
theorem erase {c : Cache κ α} (hc : c.entries.Distinct) {key : κ} {e : CacheEntry α}
    (he : c.entries.get? key = some e) (hrefs : e.refs = 0) :
    c.Sheds [⟨key, e.id, e.value⟩] { c with entries := c.entries.erase key } := by
  refine ⟨rfl, [(key, e)], [], Table.entries_perm_erase hc he, List.Perm.refl _,
    List.Perm.refl _, ?_, by simp⟩
  intro e' he'
  rw [List.mem_singleton.mp he']
  exact hrefs

theorem evictOldest (n : Nat) (c : Cache κ α) (hc : c.entries.Distinct) :
    c.Sheds (c.evictOldest n).1 (c.evictOldest n).2 := by
  induction n generalizing c with
  | zero => exact refl c
  | succ n ih =>
      unfold Cache.evictOldest
      cases hold : oldest? c.entries.entries with
      | none => exact refl c
      | some oldest =>
          obtain ⟨key, e⟩ := oldest
          obtain ⟨hmem, hrefs⟩ := mem_of_oldest? hold
          have hget := Table.get?_of_mem hc hmem
          have hfirst := erase hc hget hrefs
          exact hfirst.trans (ih _ (hc.erase key))

theorem evictExcess (o : CacheOptions) (c : Cache κ α) (hc : c.entries.Distinct) :
    c.Sheds (c.evictExcess o).1 (c.evictExcess o).2 :=
  evictOldest _ c hc

/-- What is still under a key was there before. -/
theorem get?_entry (h : c.Sheds victims c') (hc : c.entries.Distinct) {key : κ} {e : CacheEntry α}
    (he : c'.entries.get? key = some e) : c.entries.get? key = some e := by
  obtain ⟨_, gone, _, hentries, _⟩ := h
  refine Table.get?_of_mem hc ?_
  exact hentries.mem_iff.mpr (List.mem_append_right _ (Table.mem_of_get? he))

/-- A descriptor that is referenced stays under its key. -/
theorem keeps_entry (h : c.Sheds victims c') (hc : c.entries.Distinct) {key : κ}
    {e : CacheEntry α} (he : c.entries.get? key = some e) (hrefs : 0 < e.refs) :
    c'.entries.get? key = some e := by
  have hc' := h.entriesDistinct hc
  obtain ⟨_, gone, _, hentries, _, _, hgone, _⟩ := h
  refine Table.get?_of_mem hc' ?_
  rcases List.mem_append.mp (hentries.mem_iff.mp (Table.mem_of_get? he)) with hmem | hmem
  · -- what is given up has no references
    have := hgone _ hmem
    simp only at this
    omega
  · exact hmem

/-- The books stay right. -/
theorem balanced (h : c.Sheds victims c') (b : c.Balanced owed waits) : c'.Balanced owed waits where
  entriesDistinct := h.entriesDistinct b.entriesDistinct
  retiredDistinct := h.retiredDistinct b.retiredDistinct
  buildingDistinct := h.building_eq ▸ b.buildingDistinct
  failuresDistinct := h.failures_eq ▸ b.failuresDistinct
  numbersDistinct := (List.nodup_append.mp (h.numbers_perm.nodup_iff.mpr b.numbersDistinct)).2.1
  numbersBelow id hid := by
    rw [h.nextId_eq]
    exact b.numbersBelow id (h.numbers_perm.mem_iff.mp (List.mem_append_right _ hid))
  exclusive key e he := by
    rw [h.building_eq]
    exact b.exclusive key e (h.get?_entry b.entriesDistinct he)
  retiredNumber id e he := b.retiredNumber id e (h.get?_retired b.retiredDistinct he)
  entryRefs key e he := b.entryRefs key e (h.get?_entry b.entriesDistinct he)
  retiredRefs id e he := b.retiredRefs id e (h.get?_retired b.retiredDistinct he)
  slotWaiters := h.building_eq ▸ b.slotWaiters
  pending := h.failures_eq ▸ b.pending

/-- What is owed to someone can still be had. -/
theorem holds (h : c.Sheds victims c') (b : c.Balanced owed waits) {key : κ} {id : Nat} {value : α}
    (hheld : c.Holds key id value) (howed : 0 < owed id) : c'.Holds key id value := by
  rcases hheld with ⟨e, he, rfl, rfl⟩ | ⟨e, he, rfl⟩
  · have hrefs := b.entryRefs key e he
    exact Or.inl ⟨e, h.keeps_entry b.entriesDistinct he (by omega), rfl, rfl⟩
  · have hrefs := b.retiredRefs id e he
    exact Or.inr ⟨e, h.keeps_retired b.retiredDistinct he (by omega), rfl⟩

/-- A tidy cache stays tidy. -/
theorem tidy (h : c.Sheds victims c') (b : c.Balanced owed waits) (ht : c.Tidy) : c'.Tidy := by
  refine ⟨?_, ?_⟩
  · intro id e he
    exact ht.1 id e (h.get?_retired b.retiredDistinct he)
  · intro hclosed key e he
    rw [h.isClosed_eq] at hclosed
    exact ht.2 hclosed key e (h.get?_entry b.entriesDistinct he)

/-- No victim is owed to anyone. -/
theorem victims_owed (h : c.Sheds victims c') (b : c.Balanced owed waits) :
    ∀ v ∈ victims, owed v.id = 0 := by
  obtain ⟨_, gone, goneR, hentries, hretired, hvictims, hrefs, hrefsR⟩ := h
  intro v hv
  have hmem : v.descriptor ∈ gone.map (·.2.descriptor) ++ goneR.map (·.2.descriptor) :=
    hvictims.mem_iff.mp (List.mem_map_of_mem hv)
  rcases List.mem_append.mp hmem with hmem | hmem
  · obtain ⟨⟨key, e⟩, he, hd⟩ := List.mem_map.mp hmem
    have hget := Table.get?_of_mem b.entriesDistinct
      (hentries.mem_iff.mpr (List.mem_append_left _ he))
    have hid : e.id = v.id := congrArg Prod.fst hd
    rw [← hid, ← b.entryRefs key e hget]
    exact hrefs _ he
  · obtain ⟨⟨id, e⟩, he, hd⟩ := List.mem_map.mp hmem
    have hget := Table.get?_of_mem b.retiredDistinct
      (hretired.mem_iff.mpr (List.mem_append_left _ he))
    have hid : e.id = v.id := congrArg Prod.fst hd
    rw [← hid, b.retiredNumber id e hget, ← b.retiredRefs id e hget]
    exact hrefsR _ he

end Sheds

end Cache

end Linkage

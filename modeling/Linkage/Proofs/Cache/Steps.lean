import Linkage.Proofs.Cache.Changes

/-!
# What the steps of a cache do to its books

The steps of a cache, put together from changes in one place and descriptors given up.

* **`Moves`** — what a step does to the descriptors: none is lost, and what is owed to someone can
  still be had;
* **`request_cases`** — a request is refused, takes a descriptor, joins a build or begins one;
* **`complete_eq`** — a build ends, and then descriptors are evicted;
* **`observe_found`**, **`observe_failed`** — what a waiter finds when its build has ended;
* **`release_spec`** — a reference that was owed is given back.
-/

namespace Linkage.Cache

variable {κ α : Type} [DecidableEq κ] {c c' : Cache κ α} {owed waits owed' waits' : Nat → Nat}

/-! ## What a step does to the descriptors -/

/-- A step of a cache adds `made` to its descriptors and gives up `victims`; what is owed to someone
afterwards can still be had. -/
structure Moves (c : Cache κ α) (made : List (Nat × α)) (victims : List (Victim κ α))
    (c' : Cache κ α) (owed' : Nat → Nat) : Prop where
  stock : (made ++ (c.current ++ c.outdated)).Perm
    (victims.map Victim.descriptor ++ (c'.current ++ c'.outdated))
  keeps : ∀ key id value, c.Holds key id value → 0 < owed' id → c'.Holds key id value

theorem Sheds.moves {victims : List (Victim κ α)} (h : c.Sheds victims c')
    (b : c.Balanced owed waits) : c.Moves [] victims c' owed :=
  ⟨h.descriptors, fun _ _ _ hheld howed => h.holds b hheld howed⟩

theorem Moves.shed {made : List (Nat × α)} {victims : List (Victim κ α)} {c'' : Cache κ α}
    (h : c.Moves made [] c' owed) (b : c'.Balanced owed waits) (h' : c'.Sheds victims c'') :
    c.Moves made victims c'' owed := by
  refine ⟨h.stock.trans h'.descriptors, ?_⟩
  intro key id value hheld howed
  exact h'.holds b (h.keeps key id value hheld howed) howed

/-- A step that leaves the descriptors and where they are. -/
theorem Moves.of_eq (hentries : c'.entries = c.entries) (hretired : c'.retired = c.retired) :
    c.Moves [] [] c' owed := by
  refine ⟨?_, ?_⟩
  · show (c.current ++ c.outdated).Perm (c'.current ++ c'.outdated)
    unfold current outdated
    rw [hentries, hretired]
  · intro key id value hheld _
    unfold Holds
    rw [hentries, hretired]
    exact hheld

theorem Moves.modifyEntry (c : Cache κ α) (key : κ) (f : CacheEntry α → CacheEntry α)
    (hf : ∀ x, (f x).descriptor = x.descriptor) :
    c.Moves [] [] { c with entries := c.entries.modify key f } owed := by
  refine ⟨?_, ?_⟩
  · show (c.current ++ c.outdated).Perm
      ((c.entries.modify key f).values.map CacheEntry.descriptor ++ c.outdated)
    rw [Table.map_values_modify _ _ _ _ hf]
    exact List.Perm.refl _
  · intro key' id value hheld _
    rcases hheld with ⟨e, he, rfl, rfl⟩ | hretired
    · refine Or.inl ?_
      show ∃ e', (c.entries.modify key f).get? key' = some e' ∧ _
      rw [Table.get?_modify]
      by_cases hkey : key' = key
      · rw [if_pos hkey, ← hkey, he, Option.map_some]
        exact ⟨f e, rfl, congrArg Prod.fst (hf e), congrArg Prod.snd (hf e)⟩
      · rw [if_neg hkey]
        exact ⟨e, he, rfl, rfl⟩
    · exact Or.inr hretired

theorem Moves.modifyRetired (c : Cache κ α) (id : Nat) (f : CacheEntry α → CacheEntry α)
    (hf : ∀ x, (f x).descriptor = x.descriptor) :
    c.Moves [] [] { c with retired := c.retired.modify id f } owed := by
  refine ⟨?_, ?_⟩
  · show (c.current ++ c.outdated).Perm
      (c.current ++ (c.retired.modify id f).values.map CacheEntry.descriptor)
    rw [Table.map_values_modify _ _ _ _ hf]
    exact List.Perm.refl _
  · intro key' id' value hheld _
    rcases hheld with hentry | ⟨e, he, rfl⟩
    · exact Or.inl hentry
    · refine Or.inr ?_
      show ∃ e', (c.retired.modify id f).get? id' = some e' ∧ _
      rw [Table.get?_modify]
      by_cases hkey : id' = id
      · rw [if_pos hkey, ← hkey, he, Option.map_some]
        exact ⟨f e, rfl, congrArg Prod.snd (hf e)⟩
      · rw [if_neg hkey]
        exact ⟨e, he, rfl⟩

/-! ## Requests -/

/-- The cache after the descriptor of a key was taken once more. -/
def taken (now : Nat) (c : Cache κ α) (key : κ) : Cache κ α :=
  { c with
    tick := c.tick + 1
    entries := c.entries.modify key fun e =>
      { e with refs := e.refs + 1, lastUsed := now, tick := c.tick + 1 }
  }.count fun n => { n with hits := n.hits + 1 }

/-- The cache after one more call waits for the build of a key. -/
def joined (c : Cache κ α) (key : κ) : Cache κ α :=
  { c with
    tick := c.tick + 1
    building := c.building.modify key fun slot => { slot with waiters := slot.waiters + 1 }
  }.count fun n => { n with hits := n.hits + 1 }

/-- The cache after a build of a key has begun. -/
def begun (c : Cache κ α) (key : κ) : Cache κ α :=
  { c with
    tick := c.tick + 1
    nextId := c.nextId + 1
    building := c.building.put key ⟨c.nextId, 0⟩
  }.count fun n => { n with misses := n.misses + 1 }

/-- The ways in which a cache takes a request. -/
theorem request_cases (o : CacheOptions) (now : Nat) (c : Cache κ α) (key : κ) :
    (c.isClosed = true ∧ c.request o now key = (.refused (.closed o.name), c)) ∨
    (∃ e, c.isClosed = false ∧ c.entries.get? key = some e ∧
      c.request o now key = (.hit ⟨key, e.id, e.value⟩, c.taken now key)) ∨
    (∃ slot, c.isClosed = false ∧ c.building.get? key = some slot ∧
      c.request o now key = (.wait slot.id, c.joined key)) ∨
    (c.isClosed = false ∧ c.entries.get? key = none ∧ c.building.get? key = none ∧
      c.request o now key = (.build c.nextId, c.begun key)) := by
  unfold request
  by_cases hclosed : c.isClosed = true
  · exact Or.inl ⟨hclosed, if_pos hclosed⟩
  · refine Or.inr ?_
    rw [if_neg hclosed]
    have hopen : c.isClosed = false := by simpa using hclosed
    cases hentry : c.entries.get? key with
    | some e => exact Or.inl ⟨e, hopen, rfl, rfl⟩
    | none =>
        cases hslot : c.building.get? key with
        | some slot => exact Or.inr (Or.inl ⟨slot, hopen, rfl, rfl⟩)
        | none => exact Or.inr (Or.inr ⟨hopen, rfl, rfl, rfl⟩)

theorem Balanced.taken (b : c.Balanced owed waits) {key : κ} {e : CacheEntry α}
    (he : c.entries.get? key = some e) (now : Nat) (howed : owed' e.id = owed e.id + 1)
    (hothers : ∀ id, id ≠ e.id → owed' id = owed id) :
    (c.taken now key).Balanced owed' waits := by
  refine (b.modifyEntry he
    (fun e => { e with refs := e.refs + 1, lastUsed := now, tick := c.tick + 1 })
    (fun _ => rfl) ?_ hothers).of_eq rfl rfl rfl rfl (Nat.le_refl _)
  show e.refs + 1 = owed' e.id
  rw [howed, b.entryRefs key e he]

theorem Moves.taken (now : Nat) (key : κ) : c.Moves [] [] (c.taken now key) owed' := by
  have hmoves : c.Moves [] [] _ owed' := Moves.modifyEntry c key
    (fun e => { e with refs := e.refs + 1, lastUsed := now, tick := c.tick + 1 }) (fun _ => rfl)
  exact ⟨hmoves.stock, hmoves.keeps⟩

theorem Balanced.joined (b : c.Balanced owed waits) {key : κ} {slot : BuildSlot}
    (hs : c.building.get? key = some slot) (hwaits : waits' slot.id = waits slot.id + 1)
    (hothers : ∀ id, id ≠ slot.id → owed' id = owed id ∧ waits' id = waits id) :
    (c.joined key).Balanced owed' waits' := by
  refine (b.modifySlot hs (fun slot => { slot with waiters := slot.waiters + 1 }) (fun _ => rfl)
    ?_ hothers).of_eq rfl rfl rfl rfl (Nat.le_refl _)
  show slot.waiters + 1 = waits' slot.id
  rw [hwaits, b.slotWaiters key slot hs]

theorem Balanced.begun (b : c.Balanced owed waits) {key : κ} (hentry : c.entries.get? key = none)
    (hslot : c.building.get? key = none) (hwaits : waits c.nextId = 0) :
    (c.begun key).Balanced owed waits :=
  (b.beginBuild hentry hslot hwaits).of_eq rfl rfl rfl rfl (Nat.le_refl _)

/-! ## Ends of builds -/

/-- The cache after a build has ended, before anything is evicted. -/
def settled (now : Nat) (c : Cache κ α) (key : κ) (id : Nat) (outcome : Except BuildFailure α) :
    Cache κ α :=
  let waiters := ((c.building.get? key).map (·.waiters)).getD 0
  match outcome with
  | .ok value => { c with building := c.building.erase key }.enroll now key id value waiters
  | .error failure => { c with building := c.building.erase key }.recordFailure id failure waiters

theorem complete_eq (o : CacheOptions) (now : Nat) (c : Cache κ α) (key : κ) (id : Nat)
    (outcome : Except BuildFailure α) :
    c.complete o now key id outcome = (c.settled now key id outcome).evictExcess o := by
  cases outcome <;> rfl

theorem building_settled (now : Nat) (c : Cache κ α) (key : κ) (id : Nat)
    (outcome : Except BuildFailure α) :
    (c.settled now key id outcome).building = c.building.erase key := by
  cases outcome <;> rfl

theorem nextId_settled (now : Nat) (c : Cache κ α) (key : κ) (id : Nat)
    (outcome : Except BuildFailure α) : (c.settled now key id outcome).nextId = c.nextId := by
  cases outcome <;> rfl

theorem Balanced.settled_ok (b : c.Balanced owed waits) {key : κ} {slot : BuildSlot}
    (hs : c.building.get? key = some slot) (now : Nat) (value : α)
    (howed : owed' slot.id = 1 + waits slot.id)
    (hothers : ∀ id, id ≠ slot.id → owed' id = owed id) :
    (c.settled now key slot.id (.ok value)).Balanced owed' waits := by
  refine (b.enroll (e := ⟨slot.id, value, 1 + slot.waiters, now, c.tick + 1⟩) hs rfl ?_
    hothers).of_eq ?_ rfl rfl rfl (Nat.le_refl _)
  · show 1 + slot.waiters = owed' slot.id
    rw [howed, b.slotWaiters key slot hs]
  · show c.entries.put key ⟨slot.id, value, 1 + ((c.building.get? key).map _).getD 0, _, _⟩ = _
    rw [hs]
    rfl

theorem Balanced.settled_error (b : c.Balanced owed waits) {key : κ} {slot : BuildSlot}
    (hs : c.building.get? key = some slot) (now : Nat) (failure : BuildFailure) :
    (c.settled now key slot.id (.error failure)).Balanced owed waits := by
  have hfailures : (c.settled now key slot.id (.error failure)).failures =
      if slot.waiters = 0 then c.failures
      else c.failures.put slot.id ⟨failure, slot.waiters⟩ := by
    show (if ((c.building.get? key).map (·.waiters)).getD 0 = 0 then c.failures
      else c.failures.put slot.id ⟨failure, ((c.building.get? key).map (·.waiters)).getD 0⟩) = _
    rw [hs]
    rfl
  by_cases hnobody : slot.waiters = 0
  · rw [if_pos hnobody] at hfailures
    exact (b.dropSlot hs).of_eq rfl rfl rfl hfailures (Nat.le_refl _)
  · rw [if_neg hnobody] at hfailures
    exact (b.keepFailure (f := ⟨failure, slot.waiters⟩) hs rfl (by omega)).of_eq rfl rfl rfl
      hfailures (Nat.le_refl _)

theorem Moves.settled_ok (b : c.Balanced owed waits) {key : κ} {slot : BuildSlot}
    (hs : c.building.get? key = some slot) (now : Nat) (value : α) :
    c.Moves [(slot.id, value)] [] (c.settled now key slot.id (.ok value)) owed' := by
  have hnone := b.entry_none hs
  refine ⟨?_, ?_⟩
  · have hcurrent : (c.settled now key slot.id (.ok value)).current =
        c.current ++ [(slot.id, value)] := by
      show (c.entries.put key _).values.map CacheEntry.descriptor = _
      rw [Table.values_put_of_new hnone, List.map_append]
      rfl
    show ([(slot.id, value)] ++ (c.current ++ c.outdated)).Perm
      ((c.settled now key slot.id (.ok value)).current ++ c.outdated)
    rw [hcurrent, ← List.append_assoc]
    exact (List.perm_append_comm).append_right _
  · intro key' id' value' hheld _
    rcases hheld with ⟨e, he, rfl, rfl⟩ | hretired
    · refine Or.inl ⟨e, ?_, rfl, rfl⟩
      have hkey : key' ≠ key := by
        rintro rfl
        rw [hnone] at he
        cases he
      show (c.entries.put key _).get? key' = some e
      rw [Table.get?_put, if_neg hkey]
      exact he
    · exact Or.inr hretired

theorem Moves.settled_error (now : Nat) (key : κ) (id : Nat) (failure : BuildFailure) :
    c.Moves [] [] (c.settled now key id (.error failure)) owed' :=
  Moves.of_eq rfl rfl

/-- What a build came to can be had by those who waited for it. -/
def Offers (c : Cache κ α) (key : κ) (id : Nat) : Except BuildFailure α → Prop
  | .ok value => c.Holds key id value
  | .error failure => ∃ f, c.failures.get? id = some f ∧ f.failure = failure

/-- What a build came to is kept for those who wait for it. -/
theorem Moves.offers {made : List (Nat × α)} {gone : List (Victim κ α)}
    (hm : c.Moves made gone c' owed') {key : κ} {id : Nat} {outcome : Except BuildFailure α}
    (hfailures : ∀ f, c.failures.get? id = some f →
      ∃ f', c'.failures.get? id = some f' ∧ f'.failure = f.failure)
    (howed : 0 < owed' id) (h : c.Offers key id outcome) : c'.Offers key id outcome := by
  cases outcome with
  | ok value => exact hm.keeps key id value h howed
  | error failure =>
      obtain ⟨f, hf, hfailure⟩ := h
      obtain ⟨f', hf', heq⟩ := hfailures f hf
      exact ⟨f', hf', heq.trans hfailure⟩

/-- What the build came to is on offer right after its end. -/
theorem offers_settled (b : c.Balanced owed waits) {key : κ} {slot : BuildSlot}
    (hs : c.building.get? key = some slot) (now : Nat) (outcome : Except BuildFailure α)
    (hwaits : 0 < waits slot.id) : (c.settled now key slot.id outcome).Offers key slot.id outcome := by
  cases outcome with
  | ok value =>
      refine Or.inl ⟨⟨slot.id, value, 1 + ((c.building.get? key).map (·.waiters)).getD 0, now,
        c.tick + 1⟩, ?_, rfl, rfl⟩
      show (c.entries.put key _).get? key = _
      rw [Table.get?_put, if_pos rfl]
  | error failure =>
      have hwaiters := b.slotWaiters key slot hs
      refine ⟨⟨failure, slot.waiters⟩, ?_, rfl⟩
      show (if ((c.building.get? key).map (·.waiters)).getD 0 = 0 then c.failures
        else c.failures.put slot.id ⟨failure, ((c.building.get? key).map (·.waiters)).getD 0⟩).get?
          slot.id = _
      rw [hs]
      show (if slot.waiters = 0 then c.failures
        else c.failures.put slot.id ⟨failure, slot.waiters⟩).get? slot.id = _
      rw [if_neg (by omega), Table.get?_put, if_pos rfl]

/-- A failure that was kept before the end of another build is still kept. -/
theorem failures_settled (b : c.Balanced owed waits) {key : κ} {slot : BuildSlot}
    (hs : c.building.get? key = some slot) (now : Nat) (outcome : Except BuildFailure α) {id : Nat}
    {f : FailedBuild} (hf : c.failures.get? id = some f) :
    (c.settled now key slot.id outcome).failures.get? id = some f := by
  cases outcome with
  | ok value => exact hf
  | error failure =>
      have hne : id ≠ slot.id := (b.slot_ne_failure hs hf).symm
      show (if _ then c.failures else c.failures.put slot.id _).get? id = some f
      split
      · exact hf
      · rw [Table.get?_put, if_neg hne]
        exact hf

/-! ## Waiters -/

/-- Whether a build of a key is under way, as a waiter sees it. -/
theorem inFlight_iff (c : Cache κ α) (key : κ) (id : Nat) :
    (c.building.get? key).any (·.id == id) = true ↔
      ∃ slot, c.building.get? key = some slot ∧ slot.id = id := by
  rw [Option.any_eq_true]
  constructor
  · rintro ⟨slot, hs, hid⟩
    exact ⟨slot, hs, by simpa using hid⟩
  · rintro ⟨slot, hs, hid⟩
    exact ⟨slot, hs, by simpa using hid⟩

theorem observe_stillBuilding {key : κ} {slot : BuildSlot}
    (hs : c.building.get? key = some slot) :
    c.observe key slot.id = (.stillBuilding, c) := by
  unfold observe
  rw [if_pos ((inFlight_iff c key slot.id).mpr ⟨slot, hs, rfl⟩)]

/-- The cache after one waiter has heard of a failure. -/
def heard (c : Cache κ α) (id : Nat) (f : FailedBuild) : Cache κ α :=
  { c with failures :=
      if f.pending ≤ 1 then c.failures.erase id
      else c.failures.modify id fun f => { f with pending := f.pending - 1 } }

theorem observe_failed {key : κ} {id : Nat} {f : FailedBuild}
    (hs : ∀ slot, c.building.get? key = some slot → slot.id ≠ id)
    (hf : c.failures.get? id = some f) :
    c.observe key id = (.failed f.failure, c.heard id f) := by
  have hended : ¬ (c.building.get? key).any (·.id == id) = true := by
    rw [inFlight_iff]
    rintro ⟨slot, hslot, hid⟩
    exact hs slot hslot hid
  unfold observe
  rw [if_neg hended, hf]
  rfl

/-- What can be had has not failed. -/
theorem Balanced.failure_none (b : c.Balanced owed waits) {key : κ} {id : Nat} {value : α}
    (hheld : c.Holds key id value) : c.failures.get? id = none := by
  cases hget : c.failures.get? id with
  | none => rfl
  | some f =>
      have hdisjoint := (List.nodup_append.mp b.numbersDistinct).2.2
      have hmem : id ∈ (c.current ++ c.outdated).map Prod.fst ++ c.underWay :=
        List.mem_append_left _ (List.mem_map_of_mem (f := Prod.fst) (hheld.mem b))
      exact absurd rfl (hdisjoint id hmem id
        (List.mem_map_of_mem (f := Prod.fst) (Table.mem_of_get? hget)))

theorem observe_found (b : c.Balanced owed waits) {key : κ} {id : Nat} {value : α}
    (hs : ∀ slot, c.building.get? key = some slot → slot.id ≠ id)
    (hheld : c.Holds key id value) : c.observe key id = (.found ⟨key, id, value⟩, c) := by
  have hended : ¬ (c.building.get? key).any (·.id == id) = true := by
    rw [inFlight_iff]
    rintro ⟨slot, hslot, hid⟩
    exact hs slot hslot hid
  unfold observe
  rw [if_neg hended, b.failure_none hheld]
  rcases hheld with ⟨e, he, rfl, rfl⟩ | ⟨e, he, rfl⟩
  · rw [he, Option.filter_some_pos (by simp)]
  · have hother : (c.entries.get? key).filter (fun e => e.id == id) = none := by
      cases hget : c.entries.get? key with
      | none => rfl
      | some e' =>
          have hne := b.entry_ne_retired hget he
          rw [Option.filter_some_neg (by simpa using hne)]
    rw [hother, he]

theorem Balanced.abandon (b : c.Balanced owed waits) {key : κ} {slot : BuildSlot}
    (hs : c.building.get? key = some slot) (hwaits : waits slot.id = waits' slot.id + 1)
    (hothers : ∀ id, id ≠ slot.id → owed' id = owed id ∧ waits' id = waits id) :
    (c.abandon key).Balanced owed' waits' := by
  refine b.modifySlot hs (fun slot => { slot with waiters := slot.waiters - 1 }) (fun _ => rfl)
    ?_ hothers
  show slot.waiters - 1 = waits' slot.id
  have := b.slotWaiters key slot hs
  omega

/-! ## Giving back -/

/-- The cache after a reference was given back, before anything is evicted. -/
def lowered (now : Nat) (c : Cache κ α) (key : κ) (id : Nat) : Cache κ α :=
  match (c.entries.get? key).filter (·.id == id) with
  | some _ => { c with entries := c.entries.modify key (CacheEntry.giveBack now) }
  | none => { c with retired := c.retired.modify id fun e => { e with refs := e.refs - 1 } }

/-- What `lowered` is, by the place of the descriptor. -/
theorem lowered_cases (b : c.Balanced owed waits) {key : κ} {id : Nat} {value : α} (now : Nat)
    (hheld : c.Holds key id value) :
    (∃ e, c.entries.get? key = some e ∧ e.id = id ∧
      (c.entries.get? key).filter (·.id == id) = some e ∧
      c.lowered now key id = { c with entries := c.entries.modify key (CacheEntry.giveBack now) }) ∨
    (∃ e, c.retired.get? id = some e ∧ (c.entries.get? key).filter (·.id == id) = none ∧
      c.lowered now key id =
        { c with retired := c.retired.modify id fun e => { e with refs := e.refs - 1 } }) := by
  rcases hheld with ⟨e, he, hid, rfl⟩ | ⟨e, he, rfl⟩
  · have hfilter : (c.entries.get? key).filter (·.id == id) = some e := by
      rw [he, Option.filter_some_pos (by simpa using hid)]
    refine Or.inl ⟨e, he, hid, hfilter, ?_⟩
    unfold lowered
    rw [hfilter]
  · have hfilter : (c.entries.get? key).filter (·.id == id) = none := by
      cases hget : c.entries.get? key with
      | none => rfl
      | some e' =>
          have hne := b.entry_ne_retired hget he
          rw [Option.filter_some_neg (by simpa using hne)]
    refine Or.inr ⟨e, he, hfilter, ?_⟩
    unfold lowered
    rw [hfilter]

theorem Balanced.lowered (b : c.Balanced owed waits) {key : κ} {id : Nat} {value : α} (now : Nat)
    (hheld : c.Holds key id value) (howed : owed id = owed' id + 1)
    (hothers : ∀ j, j ≠ id → owed' j = owed j) :
    (c.lowered now key id).Balanced owed' waits := by
  rcases lowered_cases b now hheld with ⟨e, he, rfl, -, heq⟩ | ⟨e, he, -, heq⟩
  · rw [heq]
    refine b.modifyEntry he (CacheEntry.giveBack now) (fun _ => rfl) ?_ hothers
    have := b.entryRefs key e he
    show e.refs - 1 = owed' e.id
    omega
  · rw [heq]
    refine b.modifyRetired he (fun e => { e with refs := e.refs - 1 }) (fun _ => rfl) ?_ hothers
    have := b.retiredRefs id e he
    show e.refs - 1 = owed' id
    omega

theorem Moves.lowered (now : Nat) (key : κ) (id : Nat) :
    c.Moves [] [] (c.lowered now key id) owed' := by
  unfold Cache.lowered
  split
  · exact Moves.modifyEntry c key _ (fun _ => rfl)
  · exact Moves.modifyRetired c id _ (fun _ => rfl)

theorem frame_lowered (now : Nat) (c : Cache κ α) (key : κ) (id : Nat) :
    (c.lowered now key id).building = c.building ∧ (c.lowered now key id).failures = c.failures ∧
      (c.lowered now key id).nextId = c.nextId ∧ (c.lowered now key id).isClosed = c.isClosed := by
  unfold lowered
  split <;> exact ⟨rfl, rfl, rfl, rfl⟩

/-- Giving back is lowering the references and then giving up the descriptor if it was to go with
its last one; a tidy cache stays tidy. -/
theorem giveBack_spec (b : c.Balanced owed waits) (ht : c.Tidy) {key : κ} {id : Nat} {value : α}
    (now : Nat) (hheld : c.Holds key id value) (hpos : 0 < owed id) :
    (c.lowered now key id).Sheds (c.giveBack now key id).1 (c.giveBack now key id).2 ∧
      (c.giveBack now key id).2.Tidy := by
  rcases lowered_cases b now hheld with ⟨e, he, hid, hfilter, heq⟩ | ⟨e, he, hfilter, heq⟩
  · -- the descriptor is under its key, and goes with its last reference if the cache is closed
    have hrefs : e.refs = owed id := by rw [b.entryRefs key e he, hid]
    have hget : (c.entries.modify key (CacheEntry.giveBack now)).get? key =
        some (CacheEntry.giveBack now e) := by
      rw [Table.get?_modify, if_pos rfl, he, Option.map_some]
    by_cases hlast : e.refs ≤ 1 ∧ c.isClosed = true
    · have hgive : c.giveBack now key id =
          ([⟨key, id, e.value⟩], { c with entries := c.entries.erase key }) := by
        unfold giveBack
        rw [hfilter]
        exact if_pos hlast
      rw [hgive, heq]
      refine ⟨?_, ?_⟩
      · have hshed := Sheds.erase
          (c := { c with entries := c.entries.modify key (CacheEntry.giveBack now) })
          (b.entriesDistinct.modify key _) hget (by show e.refs - 1 = 0; omega)
        rw [Table.erase_modify] at hshed
        subst hid
        exact hshed
      · refine ⟨ht.1, ?_⟩
        intro hclosed key' e' he'
        obtain ⟨-, hold⟩ := Table.get?_erase_cases he'
        exact ht.2 hclosed key' e' hold
    · have hgive : c.giveBack now key id =
          ([], { c with entries := c.entries.modify key (CacheEntry.giveBack now) }) := by
        unfold giveBack
        rw [hfilter]
        exact if_neg hlast
      rw [hgive, heq]
      refine ⟨Sheds.refl _, ht.1, ?_⟩
      intro hclosed key' e' he'
      have hclosed : c.isClosed = true := hclosed
      rcases Table.get?_modify_cases he he' with ⟨-, hnew⟩ | ⟨-, hold⟩
      · rw [hnew]
        show 0 < e.refs - 1
        have : ¬ e.refs ≤ 1 := fun h => hlast ⟨h, hclosed⟩
        omega
      · exact ht.2 hclosed key' e' hold
  · -- the descriptor is retired, and goes with its last reference
    have hrefs : e.refs = owed id := b.retiredRefs id e he
    by_cases hlast : e.refs ≤ 1
    · have hgive : c.giveBack now key id =
          ([⟨key, id, e.value⟩], { c with retired := c.retired.erase id }) := by
        unfold giveBack
        rw [hfilter, he]
        exact if_pos hlast
      rw [hgive, heq]
      refine ⟨?_, ?_, ht.2⟩
      · have hshed := Sheds.eraseRetired
          (c := { c with retired := c.retired.modify id fun e => { e with refs := e.refs - 1 } })
          (b.retiredDistinct.modify id _) key
          (e := { e with refs := e.refs - 1 })
          (by
            show (c.retired.modify id _).get? id = _
            rw [Table.get?_modify, if_pos rfl, he, Option.map_some])
          (b.retiredNumber id e he) (by show e.refs - 1 = 0; omega)
        rw [Table.erase_modify] at hshed
        exact hshed
      · intro id' e' he'
        obtain ⟨-, hold⟩ := Table.get?_erase_cases he'
        exact ht.1 id' e' hold
    · have hgive : c.giveBack now key id =
          ([], { c with retired := c.retired.modify id fun e => { e with refs := e.refs - 1 } }) := by
        unfold giveBack
        rw [hfilter, he]
        exact if_neg hlast
      rw [hgive, heq]
      refine ⟨Sheds.refl _, ?_, ht.2⟩
      intro id' e' he'
      rcases Table.get?_modify_cases he he' with ⟨-, hnew⟩ | ⟨-, hold⟩
      · rw [hnew]
        show 0 < e.refs - 1
        omega
      · exact ht.1 id' e' hold

/-- A reference that was owed is given back, and descriptors may be evicted. -/
theorem release_spec (o : CacheOptions) (b : c.Balanced owed waits) (ht : c.Tidy) {key : κ}
    {id : Nat} {value : α} (now : Nat) (hheld : c.Holds key id value)
    (howed : owed id = owed' id + 1) (hothers : ∀ j, j ≠ id → owed' j = owed j) :
    (c.lowered now key id).Sheds (c.release o now key id).1 (c.release o now key id).2 ∧
      (c.release o now key id).2.Tidy := by
  obtain ⟨hgiven, htidy⟩ := giveBack_spec b ht now hheld (by omega)
  have hbalanced := hgiven.balanced (b.lowered now hheld howed hothers)
  have hexcess := Sheds.evictExcess o (c.giveBack now key id).2 hbalanced.entriesDistinct
  have hexpired := Sheds.expire o now ((c.giveBack now key id).2.evictExcess o).2
  refine ⟨(hgiven.trans hexcess).trans hexpired, ?_⟩
  exact hexpired.tidy (hexcess.balanced hbalanced) (hexcess.tidy hbalanced htidy)

/-! ## Invalidation and closing -/

/-- The ways in which a key is invalidated. -/
theorem invalidate_cases (c : Cache κ α) (key : κ) :
    (c.entries.get? key = none ∧ c.invalidate key = ((false, []), c)) ∨
    (∃ e, c.entries.get? key = some e ∧ e.refs = 0 ∧
      c.invalidate key =
        ((true, [⟨key, e.id, e.value⟩]), { c with entries := c.entries.erase key })) ∨
    (∃ e, c.entries.get? key = some e ∧ 0 < e.refs ∧
      c.invalidate key = ((true, []),
        { c with entries := c.entries.erase key, retired := c.retired.put e.id e })) := by
  unfold invalidate
  cases hentry : c.entries.get? key with
  | none => exact Or.inl ⟨rfl, rfl⟩
  | some e =>
      refine Or.inr ?_
      by_cases hrefs : e.refs = 0
      · exact Or.inl ⟨e, rfl, hrefs, if_pos hrefs⟩
      · exact Or.inr ⟨e, rfl, Nat.pos_of_ne_zero hrefs, if_neg hrefs⟩

theorem Moves.retire (b : c.Balanced owed waits) {key : κ} {e : CacheEntry α}
    (he : c.entries.get? key = some e) :
    c.Moves [] [] { c with entries := c.entries.erase key, retired := c.retired.put e.id e }
      owed' := by
  refine ⟨stock_perm_retire b he, ?_⟩
  · intro key' id value hheld _
    rcases hheld with ⟨e', he', rfl, rfl⟩ | ⟨e', he', rfl⟩
    · by_cases hkey : key' = key
      · rw [hkey, he] at he'
        injection he' with he'
        subst he'
        refine Or.inr ⟨e, ?_, rfl⟩
        show (c.retired.put e.id e).get? e.id = some e
        rw [Table.get?_put, if_pos rfl]
      · refine Or.inl ⟨e', ?_, rfl, rfl⟩
        show (c.entries.erase key).get? key' = some e'
        rw [Table.get?_erase, if_neg hkey]
        exact he'
    · refine Or.inr ⟨e', ?_, rfl⟩
      have hne : id ≠ e.id := (b.entry_ne_retired he he').symm
      show (c.retired.put e.id e).get? id = some e'
      rw [Table.get?_put, if_neg hne]
      exact he'

/-- An invalidation keeps the books, gives up at most the descriptor of the key, and touches neither
builds nor failures. -/
theorem invalidate_spec (b : c.Balanced owed waits) (ht : c.Tidy) (key : κ) :
    (c.invalidate key).2.Balanced owed waits ∧ (c.invalidate key).2.Tidy ∧
      c.Moves [] (c.invalidate key).1.2 (c.invalidate key).2 owed ∧
      (c.invalidate key).2.building = c.building ∧ (c.invalidate key).2.failures = c.failures ∧
      (c.invalidate key).2.nextId = c.nextId ∧ ∀ v ∈ (c.invalidate key).1.2, owed v.id = 0 := by
  rcases invalidate_cases c key with ⟨-, heq⟩ | ⟨e, he, hrefs, heq⟩ | ⟨e, he, hrefs, heq⟩
  · rw [heq]
    exact ⟨b, ht, Moves.of_eq rfl rfl, rfl, rfl, rfl, by simp⟩
  · have hshed := Sheds.erase b.entriesDistinct he hrefs
    rw [heq]
    exact ⟨hshed.balanced b, hshed.tidy b ht, hshed.moves b, rfl, rfl, rfl, hshed.victims_owed b⟩
  · rw [heq]
    refine ⟨b.retire he, ⟨?_, ?_⟩, Moves.retire b he, rfl, rfl, rfl, by simp⟩
    · intro id e' he'
      rcases Table.get?_put_cases he' with ⟨-, hnew⟩ | ⟨-, hold⟩
      · rw [hnew]
        exact hrefs
      · exact ht.1 id e' hold
    · intro hclosed key' e' he'
      obtain ⟨-, hold⟩ := Table.get?_erase_cases he'
      exact ht.2 hclosed key' e' hold

/-- Closing gives up what is unreferenced, and leaves nothing of the kind. -/
theorem close_spec (ht : c.Tidy) :
    ({ c with isClosed := c.close.2.isClosed } : Cache κ α).Sheds c.close.1 c.close.2 ∧
      c.close.2.Tidy ∧ c.close.2.isClosed = true := by
  unfold close
  by_cases hclosed : c.isClosed = true
  · rw [if_pos hclosed]
    exact ⟨Sheds.refl c, ht, hclosed⟩
  · rw [if_neg hclosed]
    refine ⟨Sheds.takeOut { c with isClosed := true } _ (by simp), ⟨ht.1, ?_⟩, rfl⟩
    intro _ key e he
    have hmem := Table.mem_of_get? he
    have hkept := (List.mem_filter.mp hmem).2
    simp only [Bool.not_eq_true', beq_eq_false_iff_ne] at hkept
    exact Nat.pos_of_ne_zero hkept

end Linkage.Cache

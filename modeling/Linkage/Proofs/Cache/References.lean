import Linkage.Proofs.Cache.Delivery
import Linkage.Proofs.Cache.Ownership

/-!
# References to descriptors

Every descriptor in a cache, under its key or retired, counts the handles to it that are held and the calls
that wait for its build and have not looked yet. So there is always a reference to take away when a handle is
given back or a waiter hears, and nothing is left when everyone has gone.

* **`Cache.stock`** — the descriptors with their counts;
* **`GivesBack`**, **`Sound.givesBack`** — what giving back a handle changes: one count, that of the
  descriptor that the handle is to, wherever it is by then;
* **`Sound.leaves`** — a waiter that is cancelled is not counted any more, and never again;
* **`References`**, **`references_run`** — all of it, for every run of a system that begins empty.
-/

namespace Linkage

variable {κ α : Type}

namespace Cache

/-- All descriptors with their counts: those under keys, and those that are retired. -/
def stock (c : Cache κ α) : List (CacheEntry α) := c.entries.values ++ c.retired.values

variable {c c' : Cache κ α} {owed waits : Nat → Nat}

theorem map_descriptor_stock (c : Cache κ α) :
    c.stock.map CacheEntry.descriptor = c.current ++ c.outdated :=
  List.map_append

theorem mem_stock_of_retired {id : Nat} {e : CacheEntry α} (h : c.retired.get? id = some e) :
    e ∈ c.stock := List.mem_append_right _ (Table.mem_values_of_get? h)

/-- What a cache gives up it has counted no reference to. -/
theorem Sheds.stock_perm {victims : List (Victim κ α)} (h : c.Sheds victims c') :
    ∃ gone : List (CacheEntry α), c.stock.Perm (gone ++ c'.stock) ∧ (∀ e ∈ gone, e.refs = 0) ∧
      (victims.map Victim.descriptor).Perm (gone.map CacheEntry.descriptor) := by
  obtain ⟨-, gone, goneRetired, hentries, hretired, hvictims, hrefs, hrefsRetired⟩ := h
  refine ⟨gone.map Prod.snd ++ goneRetired.map Prod.snd, ?_, ?_, ?_⟩
  · have hboth := (hentries.map Prod.snd).append (hretired.map Prod.snd)
    rw [List.map_append, List.map_append] at hboth
    exact hboth.trans (perm_append_append_comm _ _ _ _)
  · intro e he
    rcases List.mem_append.mp he with he | he
    · obtain ⟨x, hx, rfl⟩ := List.mem_map.mp he
      exact hrefs x hx
    · obtain ⟨x, hx, rfl⟩ := List.mem_map.mp he
      exact hrefsRetired x hx
  · rw [List.map_append, List.map_map, List.map_map]
    exact hvictims

variable [DecidableEq κ]

theorem mem_stock_of_entry {key : κ} {e : CacheEntry α} (h : c.entries.get? key = some e) :
    e ∈ c.stock := List.mem_append_left _ (Table.mem_values_of_get? h)

/-- No build has two descriptors. -/
theorem Balanced.nodup_stock (b : c.Balanced owed waits) : (c.stock.map CacheEntry.id).Nodup := by
  have hnumbers := (List.nodup_append.mp (List.nodup_append.mp b.numbersDistinct).1).1
  rwa [← map_descriptor_stock, List.map_map] at hnumbers

/-- Every descriptor counts what it is owed to. -/
theorem Balanced.refs_of_mem (b : c.Balanced owed waits) {e : CacheEntry α} (he : e ∈ c.stock) :
    e.refs = owed e.id := by
  rcases List.mem_append.mp he with he | he
  · obtain ⟨⟨key, x⟩, hentry, rfl⟩ := List.mem_map.mp he
    exact b.entryRefs key x (Table.get?_of_mem b.entriesDistinct hentry)
  · obtain ⟨⟨id, x⟩, hentry, rfl⟩ := List.mem_map.mp he
    have hget := Table.get?_of_mem b.retiredDistinct hentry
    rw [b.retiredRefs id x hget, b.retiredNumber id x hget]

/-- The descriptor that a handle is to is told by its number. -/
theorem Balanced.descriptor_of_holds (b : c.Balanced owed waits) {key : κ} {id : Nat} {value : α}
    (hheld : c.Holds key id value) {e : CacheEntry α} (he : e ∈ c.stock) (hid : e.id = id) :
    e.descriptor = (id, value) := by
  have hmem := hheld.mem b
  rw [← map_descriptor_stock] at hmem
  obtain ⟨x, hx, hdescriptor⟩ := List.mem_map.mp hmem
  have hsame : x.id = e.id := (congrArg Prod.fst hdescriptor).trans hid.symm
  rw [← List.inj_on_of_nodup_map b.nodup_stock hx he hsame]
  exact hdescriptor

/-- Where a reference is taken away, one count changes. -/
theorem stock_lowered (b : c.Balanced owed waits) {key : κ} {id : Nat} {value : α} (now : Nat)
    (hheld : c.Holds key id value) :
    ∃ (e e' : CacheEntry α) (others : List (CacheEntry α)), c.stock.Perm (e :: others) ∧
      (c.lowered now key id).stock.Perm (e' :: others) ∧ e.descriptor = (id, value) ∧
      e'.descriptor = e.descriptor ∧ e'.refs = e.refs - 1 := by
  rcases lowered_cases b now hheld with ⟨e, he, hid, -, heq⟩ | ⟨e, he, -, heq⟩
  · have hdescriptor := b.descriptor_of_holds hheld (mem_stock_of_entry he) hid
    rw [heq]
    refine ⟨e, CacheEntry.giveBack now e, (c.entries.erase key).values ++ c.retired.values, ?_, ?_,
      hdescriptor, rfl, rfl⟩
    · exact (Table.values_perm_erase b.entriesDistinct he).append_right _
    · exact (Table.values_perm_modify b.entriesDistinct he _).append_right _
  · have hdescriptor :=
      b.descriptor_of_holds hheld (mem_stock_of_retired he) (b.retiredNumber id e he)
    rw [heq]
    refine ⟨e, { e with refs := e.refs - 1 }, c.entries.values ++ (c.retired.erase id).values, ?_, ?_,
      hdescriptor, rfl, rfl⟩
    · exact ((Table.values_perm_erase b.retiredDistinct he).append_left _).trans List.perm_middle
    · exact ((Table.values_perm_modify b.retiredDistinct he _).append_left _).trans List.perm_middle

end Cache

namespace CacheSystem

variable [DecidableEq κ] {s : CacheSystem κ α} {past : List (FinishedBuild κ α)}

/-! ## Giving back and leaving -/

/-- A reference to the descriptor of a handle is given back: this descriptor counts one less, and no other
count changes. What leaves the cache then has no references, and is to be closed. -/
def GivesBack (s s' : CacheSystem κ α) (handle : Handle κ α) : Prop :=
  ∃ (e e' : CacheEntry α) (others gone : List (CacheEntry α)),
    s.cache.stock.Perm (e :: others) ∧ e.descriptor = (handle.id, handle.value) ∧
    e'.descriptor = e.descriptor ∧ e'.refs + 1 = e.refs ∧
    (e' :: others).Perm (gone ++ s'.cache.stock) ∧ (∀ x ∈ gone, x.refs = 0) ∧
    (s'.doomed.map Victim.descriptor).Perm
      (s.doomed.map Victim.descriptor ++ gone.map CacheEntry.descriptor)

theorem Sound.givesBack (hs : s.Sound past) {call : Nat} {handle : Handle κ α}
    (hheld : s.held.get? call = some handle) : s.GivesBack (s.step (.release call)) handle := by
  have hstep : s.step (.release call) = ({ s with held := s.held.erase call } : CacheSystem κ α).absorb
      (s.cache.release s.options s.now handle.key handle.id) := by
    simp only [CacheSystem.step, hheld]
  obtain ⟨e, e', others, hstock, hlowered, hdescriptor, hsame, hrefs⟩ :=
    Cache.stock_lowered hs.balanced s.now (hs.holds call handle hheld)
  obtain ⟨gone, hshed, hunreferenced, hvictims⟩ := (hs.release_sheds hheld).2.1.stock_perm
  -- the handle itself is one of those that are counted
  have hpos : 0 < e.refs := by
    rw [hs.balanced.refs_of_mem (hstock.mem_iff.mpr List.mem_cons_self)]
    have hid : e.id = handle.id := congrArg Prod.fst hdescriptor
    rw [hid]
    exact owed_of_held hheld
  refine ⟨e, e', others, gone, hstock, hdescriptor, hsame, by omega, ?_, hunreferenced, ?_⟩
  · rw [hstep]
    exact hlowered.symm.trans hshed
  · rw [hstep]
    show ((s.doomed ++ _).map Victim.descriptor).Perm _
    rw [List.map_append]
    exact hvictims.append_left _

/-- A waiter is cancelled. Its build has one waiter less, and no descriptor has changed. -/
theorem Sound.leaves (hs : s.Sound past) {call id : Nat} {key : κ} {slot : BuildSlot}
    (hcall : s.calls.get? call = some ⟨key, .waiting id⟩)
    (hslot : s.cache.building.get? key = some slot) (hid : slot.id = id) (reason : String) :
    (s.step (.abandon call reason)).answers.get? call = some (.refused (.cancelled reason)) ∧
      (s.step (.abandon call reason)).cache.stock = s.cache.stock ∧
      ∃ slot', (s.step (.abandon call reason)).cache.building.get? key = some slot' ∧
        slot'.id = slot.id ∧ slot'.waiters + 1 = slot.waiters := by
  have hstep : s.step (.abandon call reason) =
      ({ s with cache := s.cache.abandon key } : CacheSystem κ α).answer call
        (.refused (.cancelled reason)) := by
    have hflight : (s.cache.building.get? key).any (·.id == id) = true := by
      rw [hslot]
      simpa using hid
    simp only [CacheSystem.step, hcall, CacheSystem.abandon, hflight, if_true]
  have hpos : 0 < slot.waiters := by
    rw [hs.balanced.slotWaiters key slot hslot, hid]
    exact waiting_pos hcall
  rw [hstep]
  refine ⟨?_, rfl, { slot with waiters := slot.waiters - 1 }, ?_, rfl, by simp only; omega⟩
  · rw [answers_answer, Table.get?_put, if_pos rfl]
  · show (s.cache.building.modify key _).get? key = _
    rw [Table.get?_modify, if_pos rfl, hslot]
    rfl

/-- A call that was refused neither waits nor holds a handle, whatever happens. -/
theorem Sound.refused_run (hs : s.Sound past) {call : Nat} {refusal : CacheRefusal}
    (h : s.answers.get? call = some (.refused refusal)) (later : List (CacheEvent κ α)) :
    (s.run later).calls.get? call = none ∧ (s.run later).held.get? call = none := by
  have hs' := hs.run later
  have hanswer := hs.answer_run h later
  refine ⟨?_, ?_⟩
  · cases hcall : (s.run later).calls.get? call with
    | none => rfl
    | some x =>
        rw [hs'.unanswered call x hcall] at hanswer
        cases hanswer
  · cases hheld : (s.run later).held.get? call with
    | none => rfl
    | some handle =>
        rw [hs'.heldAnswered call handle hheld] at hanswer
        cases hanswer

/-! ## The counts of a run -/

/-- What is true of the counts in a system. -/
structure References (s : CacheSystem κ α) : Prop where
  /-- Every descriptor has its number for itself. -/
  numbered : (s.cache.stock.map CacheEntry.id).Nodup
  /-- It counts the handles to it that are held, and those who wait for its build and have not looked. -/
  counted : ∀ e ∈ s.cache.stock, e.refs = s.holders e.id + s.waiting e.id
  /-- A build under way counts those who wait for it. -/
  awaited : ∀ key slot, s.cache.building.get? key = some slot → slot.waiters = s.waiting slot.id
  /-- A failed build counts those who have not heard of it, as long as there are any. -/
  unheard : ∀ id f, s.cache.failures.get? id = some f → f.pending = s.waiting id ∧ 0 < f.pending
  /-- A handle that is given back takes one reference from its own descriptor. -/
  givesBack : ∀ call handle, s.held.get? call = some handle →
    s.GivesBack (s.step (.release call)) handle
  /-- A waiter that is cancelled takes nothing with it but itself. -/
  leaves : ∀ call key id slot, s.calls.get? call = some ⟨key, .waiting id⟩ →
    s.cache.building.get? key = some slot → slot.id = id → ∀ reason,
      (s.step (.abandon call reason)).answers.get? call = some (.refused (.cancelled reason)) ∧
        (s.step (.abandon call reason)).cache.stock = s.cache.stock ∧
        ∃ slot', (s.step (.abandon call reason)).cache.building.get? key = some slot' ∧
          slot'.id = slot.id ∧ slot'.waiters + 1 = slot.waiters
  /-- It is not counted any more, whatever happens later. -/
  gone : ∀ call reason, s.answers.get? call = some (.refused (.cancelled reason)) → ∀ later,
    (s.run later).calls.get? call = none ∧ (s.run later).held.get? call = none
  /-- When no call is under way and no handle is held, there are no references. -/
  idle : s.calls.entries = [] → s.held.entries = [] → ∀ e ∈ s.cache.stock, e.refs = 0

theorem Sound.references (hs : s.Sound past) : s.References where
  numbered := hs.balanced.nodup_stock
  counted e he := hs.balanced.refs_of_mem he
  awaited := hs.balanced.slotWaiters
  unheard id f hf := by
    obtain ⟨hpending, hpos⟩ := hs.balanced.pending id f hf
    exact ⟨hpending, hpending ▸ hpos⟩
  givesBack call handle hheld := hs.givesBack hheld
  leaves call key id slot hcall hslot hid reason := hs.leaves hcall hslot hid reason
  gone call reason h later := hs.refused_run h later
  idle hcalls hheld e he := (hs.balanced.refs_of_mem he).trans (owed_of_empty hcalls hheld e.id)

/-- Whatever happens to a cache that begins empty, in whatever order, every reference is counted and no
other: each handle and each waiter once, until the handle is given back or the waiter has left. -/
theorem references_run (o : CacheOptions) (events : List (CacheEvent κ α)) :
    (({ options := o } : CacheSystem κ α).run events).References :=
  (sound_run o events).references

/-- A waiter that looks late and one that was cancelled, a key that is built anew, and a handle to the old
descriptor that is given back: the old one is left with the reference of the waiter. -/
example : (({ options := { name := "plugins" } } : CacheSystem String Nat).run
    [.request 0 "a", .request 1 "a", .request 2 "a", .abandon 2 "stopped", .complete 0 (.ok 7),
      .invalidate "a", .request 3 "a", .complete 3 (.ok 8), .release 0]).cache.stock.map
        (fun e => (e.id, e.value, e.refs)) = [(2, 8, 1), (1, 7, 1)] := by
  rfl

end CacheSystem

end Linkage

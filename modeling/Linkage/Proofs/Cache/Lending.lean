import Linkage.Proofs.Cache.Steps

/-!
# What a cache has lent

A caller takes handles from a cache and gives them back while nobody else does anything; only a build
of someone else that the caller waits for may come to its end. The cache is compared with the one that
the caller found.

* **`Owes`** — the references to the descriptor of a key are those that there were and those of the
  caller's handles, unless someone else's build of the key has come to its end;
* **`Ledger`** — every key is accounted for in this way, and what is retired is as it was;
* **one lemma for each step** — a handle more, a handle less, or none of either;
* **`Lent`** — a ledger of a cache in which nothing is left that should be gone;
* **`Restored`** — what there is to say when the caller has given everything back.
-/

namespace Linkage.Cache

variable {κ α : Type} [DecidableEq κ] {before c c' : Cache κ α} {held : List (Handle κ α)} {key : κ}

/-! ## References to what is under a key -/

/-- How many references there are to the descriptor under a key. -/
def outstanding (c : Cache κ α) (key : κ) : Nat := (c.refs? key).getD 0

theorem outstanding_of_entry {e : CacheEntry α} (he : c.entries.get? key = some e) :
    c.outstanding key = e.refs := by
  unfold outstanding refs?
  rw [he]
  rfl

theorem outstanding_of_none (hnone : c.entries.get? key = none) : c.outstanding key = 0 := by
  unfold outstanding refs?
  rw [hnone]
  rfl

theorem outstanding_congr (h : c'.entries.get? key = c.entries.get? key) :
    c'.outstanding key = c.outstanding key := by
  unfold outstanding refs?
  rw [h]

/-- Giving up what is not referenced leaves all references. -/
theorem Sheds.outstanding_eq {victims : List (Victim κ α)} (h : c.Sheds victims c')
    (hc : c.entries.Distinct) (key : κ) : c'.outstanding key = c.outstanding key := by
  cases hafter : c'.entries.get? key with
  | some e => rw [outstanding_of_entry hafter, outstanding_of_entry (h.get?_entry hc hafter)]
  | none =>
      rw [outstanding_of_none hafter]
      cases hthen : c.entries.get? key with
      | none => rw [outstanding_of_none hthen]
      | some e =>
          rw [outstanding_of_entry hthen]
          by_contra hrefs
          have hkept := h.keeps_entry hc hthen (by omega)
          rw [hafter] at hkept
          cases hkept

/-- How many of the handles are of a key. -/
def handlesOf (held : List (Handle κ α)) (key : κ) : Nat := held.countP fun h => h.key = key

theorem handlesOf_cons_self (handle : Handle κ α) (held : List (Handle κ α)) :
    handlesOf (handle :: held) handle.key = handlesOf held handle.key + 1 := by
  unfold handlesOf
  rw [List.countP_cons_of_pos (by simp)]

theorem handlesOf_cons_of_ne {handle : Handle κ α} (held : List (Handle κ α))
    (hne : key ≠ handle.key) : handlesOf (handle :: held) key = handlesOf held key := by
  unfold handlesOf
  rw [List.countP_cons_of_neg (by simpa using hne.symm)]

theorem handlesOf_pos {handle : Handle κ α} (h : handle ∈ held) : 0 < handlesOf held handle.key :=
  List.countP_pos_iff.mpr ⟨handle, h, by simp⟩

/-- The references to the descriptor of a key, of which `lent` are the caller's. If a build of someone
else was under way before and is no longer, then the others are those of its builder and of those who
waited for it, or it has failed. -/
def Owes (before : Cache κ α) (key : κ) (lent : Nat) (c : Cache κ α) : Prop :=
  (c.building.get? key = before.building.get? key ∧
      c.outstanding key = before.outstanding key + lent) ∨
    ∃ slot, before.building.get? key = some slot ∧ c.building.get? key = none ∧
      (c.outstanding key = 1 + slot.waiters + lent ∨ c.outstanding key = lent)

namespace Owes

variable {lent : Nat}

theorem le_outstanding (h : Owes before key lent c) : lent ≤ c.outstanding key := by
  rcases h with ⟨-, h⟩ | ⟨slot, -, -, h | h⟩ <;> omega

theorem congr (h : Owes before key lent c) (hbuilding : c'.building.get? key = c.building.get? key)
    (houtstanding : c'.outstanding key = c.outstanding key) : Owes before key lent c' := by
  unfold Owes
  rw [hbuilding, houtstanding]
  exact h

/-- As many references more as handles of the caller. -/
theorem shift (h : Owes before key lent c) {lent' : Nat}
    (hbuilding : c'.building.get? key = c.building.get? key)
    (houtstanding : c'.outstanding key + lent = c.outstanding key + lent') :
    Owes before key lent' c' := by
  rcases h with ⟨hsame, h⟩ | ⟨slot, hslot, hended, h⟩
  · exact Or.inl ⟨hbuilding.trans hsame, by omega⟩
  · refine Or.inr ⟨slot, hslot, hbuilding.trans hended, ?_⟩
    rcases h with h | h
    · exact Or.inl (by omega)
    · exact Or.inr (by omega)

/-- While a build is under way, it is that of someone else, and the caller has nothing of its key. -/
theorem of_slot (h : Owes before key lent c) {slot : BuildSlot}
    (hslot : c.building.get? key = some slot) (hnone : c.entries.get? key = none) :
    before.building.get? key = some slot ∧ before.outstanding key = 0 ∧ lent = 0 := by
  rcases h with ⟨hsame, h⟩ | ⟨_, -, hended, -⟩
  · rw [outstanding_of_none hnone] at h
    exact ⟨hsame.symm.trans hslot, by omega, by omega⟩
  · rw [hslot] at hended
    cases hended

/-- A build of the caller's own has come to its end. -/
theorem ownBuild (h : Owes before key 0 c) (hslot : c.building.get? key = none)
    (hnone : c.entries.get? key = none) {lent' : Nat} (hended : c'.building.get? key = none)
    (hlent : c'.outstanding key = lent') : Owes before key lent' c' := by
  rcases h with ⟨hsame, h⟩ | ⟨slot, hbefore, -, -⟩
  · rw [outstanding_of_none hnone] at h
    exact Or.inl ⟨by rw [hended, ← hsame, hslot], by omega⟩
  · exact Or.inr ⟨slot, hbefore, hended, Or.inr hlent⟩

end Owes

/-! ## Ledgers -/

/-- What is owed, or who waits, with one less for the build numbered `id`. -/
def oneLess (counts : Nat → Nat) (id : Nat) : Nat → Nat :=
  fun j => if j = id then counts j - 1 else counts j

theorem oneLess_self {counts : Nat → Nat} {id : Nat} (hpos : 0 < counts id) :
    counts id = oneLess counts id id + 1 := by
  unfold oneLess
  rw [if_pos rfl]
  omega

theorem oneLess_of_ne (counts : Nat → Nat) {id j : Nat} (hne : j ≠ id) :
    oneLess counts id j = counts j := if_neg hne

/-- Since `before` the caller has taken the handles `held` from the cache. -/
structure Ledger (before : Cache κ α) (held : List (Handle κ α)) (c : Cache κ α) : Prop where
  balanced : ∃ owed waits, c.Balanced owed waits
  retired : ∀ id, c.retired.get? id = before.retired.get? id
  isClosed : c.isClosed = before.isClosed
  /-- The descriptors of the handles are under their keys. -/
  holds : ∀ handle ∈ held, ∃ e, c.entries.get? handle.key = some e ∧
    e.descriptor = (handle.id, handle.value)
  owes : ∀ key, Owes before key (handlesOf held key) c

namespace Ledger

theorem start {owed waits : Nat → Nat} (b : c.Balanced owed waits) : Ledger c [] c := by
  refine ⟨⟨owed, waits, b⟩, fun _ => rfl, rfl, ?_, fun _ => Or.inl ⟨rfl, rfl⟩⟩
  intro handle hmem
  cases hmem

/-- The order of the handles does not matter. -/
theorem perm (h : Ledger before held c) {held' : List (Handle κ α)} (hperm : held.Perm held') :
    Ledger before held' c := by
  refine { h with holds := ?_, owes := ?_ }
  · intro handle hmem
    exact h.holds handle (hperm.mem_iff.mpr hmem)
  · intro key
    have hcount : handlesOf held' key = handlesOf held key := (hperm.countP_eq _).symm
    rw [hcount]
    exact h.owes key

/-- The descriptor of a handle is referenced. -/
theorem referenced (h : Ledger before held c) {handle : Handle κ α} (hmem : handle ∈ held) :
    ∃ e, c.entries.get? handle.key = some e ∧ e.descriptor = (handle.id, handle.value) ∧
      0 < e.refs := by
  obtain ⟨e, he, hid⟩ := h.holds handle hmem
  have hcount := handlesOf_pos hmem
  have howes := (h.owes handle.key).le_outstanding
  rw [outstanding_of_entry he] at howes
  exact ⟨e, he, hid, by omega⟩

/-- Nothing is lent of a key without a descriptor. -/
theorem handlesOf_eq_zero (h : Ledger before held c) (hnone : c.entries.get? key = none) :
    handlesOf held key = 0 := by
  have howes := (h.owes key).le_outstanding
  rw [outstanding_of_none hnone] at howes
  omega

/-- Evictions do not touch what is lent. -/
theorem shed (h : Ledger before held c) (hretired : ∀ id e, c.retired.get? id = some e → 0 < e.refs)
    {victims : List (Victim κ α)} (hshed : c.Sheds victims c') : Ledger before held c' := by
  obtain ⟨owed, waits, b⟩ := h.balanced
  refine ⟨⟨owed, waits, hshed.balanced b⟩, ?_, hshed.isClosed_eq.trans h.isClosed, ?_, ?_⟩
  · intro id
    rw [← h.retired]
    cases hthen : c.retired.get? id with
    | some e => exact hshed.keeps_retired b.retiredDistinct hthen (hretired id e hthen)
    | none =>
        refine Option.eq_none_iff_forall_ne_some.mpr ?_
        intro e hafter
        have hbefore := hshed.get?_retired b.retiredDistinct hafter
        rw [hthen] at hbefore
        cases hbefore
  · intro handle hmem
    obtain ⟨e, he, hid, hrefs⟩ := h.referenced hmem
    exact ⟨e, hshed.keeps_entry b.entriesDistinct he hrefs, hid⟩
  · intro key
    refine (h.owes key).congr ?_ (hshed.outstanding_eq b.entriesDistinct key)
    rw [hshed.building_eq]

/-- Counts are of no account. -/
theorem count (h : Ledger before held c) (f : CacheCounts → CacheCounts) :
    Ledger before held (c.count f) := by
  obtain ⟨owed, waits, b⟩ := h.balanced
  exact ⟨⟨owed, waits, b.of_eq rfl rfl rfl rfl (Nat.le_refl _)⟩, h.retired, h.isClosed, h.holds,
    h.owes⟩

/-- A change that concerns one key, and the handles of that key. -/
theorem atKey (h : Ledger before held c) (key : κ) {held' : List (Handle κ α)}
    (hbalanced : ∃ owed waits, c'.Balanced owed waits) (hretired : c'.retired = c.retired)
    (hclosed : c'.isClosed = c.isClosed)
    (hothers : ∀ k, k ≠ key → c'.entries.get? k = c.entries.get? k ∧
      c'.building.get? k = c.building.get? k)
    (hheld : ∀ handle ∈ held', handle.key ≠ key → handle ∈ held)
    (hcount : ∀ k, k ≠ key → handlesOf held' k = handlesOf held k)
    (hholds : ∀ handle ∈ held', handle.key = key →
      ∃ e, c'.entries.get? key = some e ∧ e.descriptor = (handle.id, handle.value))
    (howes : Owes before key (handlesOf held' key) c') : Ledger before held' c' := by
  refine ⟨hbalanced, ?_, hclosed.trans h.isClosed, ?_, ?_⟩
  · intro id
    rw [hretired]
    exact h.retired id
  · intro handle hmem
    by_cases hkey : handle.key = key
    · rw [hkey]
      exact hholds handle hmem hkey
    · rw [(hothers _ hkey).1]
      exact h.holds handle (hheld handle hmem hkey)
  · intro k
    by_cases hkey : k = key
    · rw [hkey]
      exact howes
    · rw [hcount k hkey]
      exact (h.owes k).congr (hothers k hkey).2 (outstanding_congr (hothers k hkey).1)

/-- One handle more. -/
theorem gain (h : Ledger before held c) (handle : Handle κ α)
    (hbalanced : ∃ owed waits, c'.Balanced owed waits) (hretired : c'.retired = c.retired)
    (hclosed : c'.isClosed = c.isClosed)
    (hothers : ∀ k, k ≠ handle.key → c'.entries.get? k = c.entries.get? k ∧
      c'.building.get? k = c.building.get? k)
    (hentry : ∃ e, c'.entries.get? handle.key = some e ∧
      e.descriptor = (handle.id, handle.value))
    (hsame : ∀ e, c.entries.get? handle.key = some e → e.descriptor = (handle.id, handle.value))
    (howes : Owes before handle.key (handlesOf held handle.key + 1) c') :
    Ledger before (handle :: held) c' := by
  refine h.atKey handle.key hbalanced hretired hclosed hothers ?_ ?_ ?_ ?_
  · intro other hmem hkey
    rcases List.mem_cons.mp hmem with rfl | hmem
    · exact absurd rfl hkey
    · exact hmem
  · intro k hkey
    exact handlesOf_cons_of_ne held hkey
  · intro other hmem hkey
    obtain ⟨e, he, hid⟩ := hentry
    refine ⟨e, he, ?_⟩
    rcases List.mem_cons.mp hmem with rfl | hmem
    · exact hid
    · -- an earlier handle of the key is of the same descriptor
      obtain ⟨old, hold, hother⟩ := h.holds other hmem
      rw [hkey] at hold
      rw [hid, ← hsame old hold, hother]
  · rw [handlesOf_cons_self]
    exact howes

/-- A change of a key that has no descriptor before nor after. -/
theorem atVacantKey (h : Ledger before held c) (hbalanced : ∃ owed waits, c'.Balanced owed waits)
    (hretired : c'.retired = c.retired) (hclosed : c'.isClosed = c.isClosed)
    (hentries : c'.entries = c.entries)
    (hothers : ∀ k, k ≠ key → c'.building.get? k = c.building.get? k)
    (hnone : c.entries.get? key = none) (howes : Owes before key 0 c') : Ledger before held c' := by
  refine h.atKey key hbalanced hretired hclosed (fun k hk => ⟨by rw [hentries], hothers k hk⟩)
    (fun _ hmem _ => hmem) (fun _ _ => rfl) ?_ ?_
  · intro handle hmem hkey
    obtain ⟨e, he, -⟩ := h.holds handle hmem
    rw [hkey, hnone] at he
    cases he
  · rw [h.handlesOf_eq_zero hnone]
    exact howes

/-! ## The steps -/

/-- The caller takes a descriptor that is there. -/
theorem taken (h : Ledger before held c) {e : CacheEntry α} (he : c.entries.get? key = some e)
    (now : Nat) : Ledger before (⟨key, e.id, e.value⟩ :: held) (c.taken now key) := by
  obtain ⟨owed, waits, b⟩ := h.balanced
  have hentry : (c.taken now key).entries.get? key =
      some { e with refs := e.refs + 1, lastUsed := now, tick := c.tick + 1 } := by
    show (c.entries.modify key _).get? key = _
    rw [Table.get?_modify, if_pos rfl, he, Option.map_some]
  refine h.gain ⟨key, e.id, e.value⟩ ⟨fun id => if id = e.id then owed id + 1 else owed id, waits, ?_⟩
    rfl rfl ?_ ⟨_, hentry, rfl⟩ ?_ ?_
  · refine b.taken he now (if_pos rfl) ?_
    intro id hid
    exact if_neg hid
  · intro k hk
    refine ⟨?_, rfl⟩
    show (c.entries.modify key _).get? k = _
    rw [Table.get?_modify, if_neg hk]
  · intro other hother
    have hsame : some e = some other := he.symm.trans hother
    injection hsame with hsame
    rw [hsame]
    rfl
  · refine (h.owes key).shift rfl ?_
    rw [outstanding_of_entry hentry, outstanding_of_entry he]
    show e.refs + 1 + handlesOf held key = e.refs + (handlesOf held key + 1)
    omega

/-- One of those who waited for a build hears that it has failed. -/
theorem heard (h : Ledger before held c) {id : Nat} {f : FailedBuild}
    (hf : c.failures.get? id = some f) : Ledger before held (c.heard id f) := by
  obtain ⟨owed, waits, b⟩ := h.balanced
  have hbalanced := b.hearFailure hf (oneLess_self (b.pending id f hf).2)
    fun j hj => ⟨rfl, oneLess_of_ne waits hj⟩
  exact ⟨⟨owed, _, hbalanced⟩, h.retired, h.isClosed, h.holds, h.owes⟩

/-- The caller gives a handle back; nothing is evicted yet. -/
theorem lowered {handle : Handle κ α} (h : Ledger before (handle :: held) c) (now : Nat) :
    Ledger before held (c.lowered now handle.key handle.id) := by
  obtain ⟨owed, waits, b⟩ := h.balanced
  obtain ⟨e, he, hdescriptor, hrefs⟩ := h.referenced List.mem_cons_self
  have hid : e.id = handle.id := congrArg Prod.fst hdescriptor
  have hholds : c.Holds handle.key handle.id e.value := Or.inl ⟨e, he, hid, rfl⟩
  have heq : c.lowered now handle.key handle.id =
      { c with entries := c.entries.modify handle.key (CacheEntry.giveBack now) } := by
    unfold Cache.lowered
    rw [he, Option.filter_some_pos (by simpa using hid)]
  have howed : 0 < owed handle.id := by rw [← hid, ← b.entryRefs handle.key e he]; exact hrefs
  have hbalanced := b.lowered now hholds (oneLess_self howed) fun j hj => oneLess_of_ne owed hj
  rw [heq] at hbalanced ⊢
  have hentry : (c.entries.modify handle.key (CacheEntry.giveBack now)).get? handle.key =
      some (CacheEntry.giveBack now e) := by
    rw [Table.get?_modify, if_pos rfl, he, Option.map_some]
  refine h.atKey handle.key ⟨_, _, hbalanced⟩ rfl rfl ?_ ?_ ?_ ?_ ?_
  · intro k hk
    refine ⟨?_, rfl⟩
    show (c.entries.modify handle.key _).get? k = _
    rw [Table.get?_modify, if_neg hk]
  · intro other hmem _
    exact List.mem_cons_of_mem _ hmem
  · intro k hk
    exact (handlesOf_cons_of_ne held hk).symm
  · intro other hmem hkey
    obtain ⟨e', he', hdescriptor'⟩ := h.holds other (List.mem_cons_of_mem _ hmem)
    rw [hkey, he] at he'
    injection he' with he'
    exact ⟨_, hentry, by rw [← hdescriptor', ← he']; rfl⟩
  · refine (h.owes handle.key).shift rfl ?_
    rw [outstanding_of_entry hentry, outstanding_of_entry he, handlesOf_cons_self]
    show e.refs - 1 + (handlesOf held handle.key + 1) = e.refs + handlesOf held handle.key
    omega

end Ledger

/-! ## Builds -/

/-- A cache in which a build of a key is under way for the caller, and which is otherwise `c`: it is
the caller's own build, or one of someone else that the caller waits for as well. -/
structure Awaits (c : Cache κ α) (key : κ) (slot : BuildSlot) (c' : Cache κ α) : Prop where
  balanced : ∃ owed waits, c'.Balanced owed waits
  entries : c'.entries = c.entries
  retired : c'.retired = c.retired
  isClosed : c'.isClosed = c.isClosed
  underWay : c'.building.get? key = some slot
  others : ∀ k, k ≠ key → c'.building.get? k = c.building.get? k
  joined : (c.building.get? key = none ∧ slot.waiters = 0) ∨
    ∃ old, c.building.get? key = some old ∧ slot = { old with waiters := old.waiters + 1 }

theorem awaits_begun {owed waits : Nat → Nat} (b : c.Balanced owed waits)
    (hentry : c.entries.get? key = none) (hslot : c.building.get? key = none) :
    Awaits c key ⟨c.nextId, 0⟩ (c.begun key) := by
  have hfresh : ∀ id ∈ c.numbers, id ≠ c.nextId := fun id hid => Nat.ne_of_lt (b.numbersBelow id hid)
  -- nobody can wait for the build that begins
  have b' : c.Balanced owed fun id => if id = c.nextId then 0 else waits id := by
    refine b.congr (fun _ _ => rfl) ?_ ?_
    · intro k slot hs
      refine if_neg (hfresh _ (List.mem_append_left _ (List.mem_append_right _ ?_)))
      exact List.mem_map_of_mem (f := BuildSlot.id) (Table.mem_values_of_get? hs)
    · intro id f hf
      refine if_neg (hfresh _ (List.mem_append_right _ ?_))
      exact List.mem_map_of_mem (f := Prod.fst) (Table.mem_of_get? hf)
  refine ⟨⟨_, _, b'.begun hentry hslot (if_pos rfl)⟩, rfl, rfl, rfl, ?_, ?_, Or.inl ⟨hslot, rfl⟩⟩
  · show (c.building.put key _).get? key = _
    rw [Table.get?_put, if_pos rfl]
  · intro k hk
    show (c.building.put key _).get? k = _
    rw [Table.get?_put, if_neg hk]

theorem awaits_joined {owed waits : Nat → Nat} (b : c.Balanced owed waits) {slot : BuildSlot}
    (hslot : c.building.get? key = some slot) :
    Awaits c key { slot with waiters := slot.waiters + 1 } (c.joined key) := by
  have b' : (c.joined key).Balanced owed fun id => if id = slot.id then waits id + 1 else waits id :=
    b.joined hslot (if_pos rfl) fun id hid => ⟨rfl, if_neg hid⟩
  refine ⟨⟨_, _, b'⟩, rfl, rfl, rfl, ?_, ?_, Or.inr ⟨slot, hslot, rfl⟩⟩
  · show (c.building.modify key _).get? key = _
    rw [Table.get?_modify, if_pos rfl, hslot, Option.map_some]
  · intro k hk
    show (c.building.modify key _).get? k = _
    rw [Table.get?_modify, if_neg hk]

namespace Awaits

variable {slot : BuildSlot}

theorem entry_none (h : Awaits c key slot c') : c.entries.get? key = none := by
  obtain ⟨owed, waits, b⟩ := h.balanced
  rw [← h.entries]
  exact b.entry_none h.underWay

theorem building_settled (h : Awaits c key slot c') (now : Nat) (outcome : Except BuildFailure α) :
    (c'.settled now key slot.id outcome).building.get? key = none ∧
      ∀ k, k ≠ key → (c'.settled now key slot.id outcome).building.get? k = c.building.get? k := by
  rw [Cache.building_settled]
  refine ⟨Table.get?_erase_self _ _, ?_⟩
  intro k hk
  rw [Table.get?_erase_of_ne _ hk]
  exact h.others k hk

/-- The build has come to a descriptor, and the caller has a handle of it. -/
theorem settled_ok (h : Awaits c key slot c') (hledger : Ledger before held c) (now : Nat)
    (value : α) : Ledger before (⟨key, slot.id, value⟩ :: held)
      (c'.settled now key slot.id (.ok value)) := by
  obtain ⟨owed, waits, b⟩ := h.balanced
  have hnone := h.entry_none
  obtain ⟨hended, hothers⟩ := h.building_settled now (.ok value)
  have hentry : (c'.settled now key slot.id (.ok value)).entries.get? key =
      some ⟨slot.id, value, 1 + slot.waiters, now, c'.tick + 1⟩ := by
    show (c'.entries.put key ⟨_, _, 1 + ((c'.building.get? key).map _).getD 0, _, _⟩).get? key = _
    rw [Table.get?_put, if_pos rfl, h.underWay]
    rfl
  have hbalanced : (c'.settled now key slot.id (.ok value)).Balanced
      (fun id => if id = slot.id then 1 + waits id else owed id) waits :=
    b.settled_ok h.underWay now value (if_pos rfl) fun id hid => if_neg hid
  refine hledger.gain ⟨key, slot.id, value⟩ ⟨_, _, hbalanced⟩ h.retired h.isClosed ?_
    ⟨_, hentry, rfl⟩ ?_ ?_
  · intro k hk
    refine ⟨?_, hothers k hk⟩
    show (c'.entries.put key _).get? k = _
    rw [Table.get?_put, if_neg hk, h.entries]
  · intro e he
    have he : c.entries.get? key = some e := he
    rw [hnone] at he
    cases he
  · have howes := hledger.owes key
    have hlent := hledger.handlesOf_eq_zero hnone
    show Owes before key (handlesOf held key + 1) _
    rw [hlent] at howes ⊢
    rcases h.joined with ⟨hslot, hwaiters⟩ | ⟨old, hslot, rfl⟩
    · refine howes.ownBuild hslot hnone hended ?_
      rw [outstanding_of_entry hentry, hwaiters]
    · obtain ⟨hbefore, -, -⟩ := howes.of_slot hslot hnone
      refine Or.inr ⟨old, hbefore, hended, Or.inl ?_⟩
      rw [outstanding_of_entry hentry]
      show 1 + (old.waiters + 1) = 1 + old.waiters + (0 + 1)
      omega

/-- The build has failed. -/
theorem settled_error (h : Awaits c key slot c') (hledger : Ledger before held c) (now : Nat)
    (failure : BuildFailure) : Ledger before held (c'.settled now key slot.id (.error failure)) := by
  obtain ⟨owed, waits, b⟩ := h.balanced
  have hnone := h.entry_none
  obtain ⟨hended, hothers⟩ := h.building_settled now (.error failure)
  have hvacant : (c'.settled now key slot.id (.error failure)).outstanding key = 0 :=
    outstanding_of_none (b.entry_none h.underWay)
  refine hledger.atVacantKey ⟨_, _, b.settled_error h.underWay now failure⟩ h.retired h.isClosed
    h.entries hothers hnone ?_
  have howes := hledger.owes key
  rw [hledger.handlesOf_eq_zero hnone] at howes
  rcases h.joined with ⟨hslot, -⟩ | ⟨old, hslot, -⟩
  · exact howes.ownBuild hslot hnone hended hvacant
  · obtain ⟨hbefore, -, -⟩ := howes.of_slot hslot hnone
    exact Or.inr ⟨old, hbefore, hended, Or.inr hvacant⟩

/-- The caller waits no longer. -/
theorem abandon (h : Awaits c key slot c') (hledger : Ledger before held c)
    (hwaits : c.building.get? key ≠ none) : Ledger before held (c'.abandon key) := by
  obtain ⟨owed, waits, b⟩ := h.balanced
  have hnone := h.entry_none
  obtain ⟨old, hslot, rfl⟩ : ∃ old, c.building.get? key = some old ∧
      slot = { old with waiters := old.waiters + 1 } := h.joined.resolve_left fun hown =>
    hwaits hown.1
  have hwaiting : old.waiters + 1 = waits old.id := b.slotWaiters key _ h.underWay
  have hpos : 0 < waits old.id := by omega
  have hbalanced : (c'.abandon key).Balanced owed (oneLess waits old.id) :=
    b.abandon h.underWay (oneLess_self hpos) fun id hid => ⟨rfl, oneLess_of_ne waits hid⟩
  have hagain : (c'.abandon key).building.get? key = c.building.get? key := by
    show (c'.building.modify key _).get? key = _
    rw [Table.get?_modify, if_pos rfl, h.underWay, hslot]
    rfl
  refine hledger.atVacantKey ⟨_, _, hbalanced⟩ h.retired h.isClosed h.entries ?_ hnone ?_
  · intro k hk
    show (c'.building.modify key _).get? k = _
    rw [Table.get?_modify, if_neg hk]
    exact h.others k hk
  · have howes := hledger.owes key
    rw [hledger.handlesOf_eq_zero hnone] at howes
    refine howes.congr hagain (outstanding_congr ?_)
    show c'.entries.get? key = _
    rw [h.entries]

end Awaits

/-! ## Tidy caches -/

/-- A ledger of a cache in which nothing is left that should be gone. -/
structure Lent (before : Cache κ α) (held : List (Handle κ α)) (c : Cache κ α) : Prop
    extends Ledger before held c where
  tidy : c.Tidy

theorem Lent.perm (h : Lent before held c) {held' : List (Handle κ α)} (hperm : held.Perm held') :
    Lent before held' c := ⟨h.toLedger.perm hperm, h.tidy⟩

theorem Lent.count (h : Lent before held c) (f : CacheCounts → CacheCounts) :
    Lent before held (c.count f) := ⟨h.toLedger.count f, h.tidy⟩

theorem Lent.shed (h : Lent before held c) {victims : List (Victim κ α)}
    (hshed : c.Sheds victims c') : Lent before held c' := by
  obtain ⟨owed, waits, b⟩ := h.balanced
  exact ⟨h.toLedger.shed h.tidy.1 hshed, hshed.tidy b h.tidy⟩

/-- The caller gives a handle back. -/
theorem Lent.release {handle : Handle κ α} (h : Lent before (handle :: held) c) (o : CacheOptions)
    (now : Nat) : Lent before held (c.release o now handle.key handle.id).2 := by
  obtain ⟨owed, waits, b⟩ := h.balanced
  obtain ⟨e, he, hdescriptor, hrefs⟩ := h.referenced List.mem_cons_self
  have hid : e.id = handle.id := congrArg Prod.fst hdescriptor
  have hholds : c.Holds handle.key handle.id e.value := Or.inl ⟨e, he, hid, rfl⟩
  have howed : 0 < owed handle.id := by rw [← hid, ← b.entryRefs handle.key e he]; exact hrefs
  obtain ⟨hshed, htidy⟩ := release_spec o b h.tidy now hholds (oneLess_self howed)
    fun j hj => oneLess_of_ne owed hj
  have hlowered := h.toLedger.lowered now
  refine ⟨hlowered.shed ?_ hshed, htidy⟩
  intro id e' he'
  rw [hlowered.retired, ← h.retired] at he'
  exact h.tidy.1 id e' he'

/-! ## When everything is given back -/

/-- A cache in which nothing is left of a caller that was there after `before`. -/
structure Restored (before after : Cache κ α) : Prop where
  /-- A key that nobody was building has as many references as before, and nobody builds it. -/
  references : ∀ key, before.building.get? key = none →
    after.building.get? key = none ∧ after.outstanding key = before.outstanding key
  /-- A build of someone else is under way as it was. Or else it has come to its end; then its
  descriptor is referenced by its builder and by those who waited, or it has failed and there are no
  references. -/
  builds : ∀ key slot, before.building.get? key = some slot →
    (after.building.get? key = some slot ∧ after.outstanding key = before.outstanding key) ∨
      (after.building.get? key = none ∧
        (after.outstanding key = 1 + slot.waiters ∨ after.outstanding key = 0))
  /-- The descriptors that are invalidated and still referenced are the same, with as many
  references. -/
  retired : ∀ id, after.retired.get? id = before.retired.get? id

theorem Ledger.restored (h : Ledger before [] c) : Restored before c := by
  refine ⟨?_, ?_, h.retired⟩
  · intro key hnone
    rcases h.owes key with ⟨hsame, howes⟩ | ⟨slot, hslot, -⟩
    · exact ⟨hsame.trans hnone, howes⟩
    · rw [hnone] at hslot
      cases hslot
  · intro key slot hslot
    rcases h.owes key with ⟨hsame, howes⟩ | ⟨slot', hslot', hended, howes⟩
    · exact Or.inl ⟨hsame.trans hslot, howes⟩
    · rw [hslot] at hslot'
      injection hslot' with hslot'
      rw [hslot']
      exact Or.inr ⟨hended, howes⟩

end Linkage.Cache

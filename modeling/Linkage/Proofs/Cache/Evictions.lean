import Linkage.Proofs.Cache.Ownership
import Linkage.Proofs.Cache.Recency

/-!
# Evictions

A cache may hold more descriptors than it has room for, but only while all of them are referenced. What an
eviction takes are the descriptors that were acquired least recently among those that nobody is owed.

* **`Evicts`**, **`evicts_evictOldest`** — what an eviction does: the oldest unreferenced descriptors go, as
  many as asked for if there are so many;
* **`Fits`** — there is room, or everything is referenced;
* **`Revises`** — what comes before an eviction takes nothing away and leaves what is unreferenced in place.
-/

namespace Linkage

variable {κ α : Type}

namespace Cache

variable {c c' : Cache κ α} {capacity n made : Nat} {gone : List (κ × CacheEntry α)}
  {owed waits : Nat → Nat}

/-! ## Evictions -/

theorem refs_of_oldest?_eq_none {l : List (κ × CacheEntry α)} (h : oldest? l = none) :
    ∀ e ∈ l, 0 < e.2.refs := by
  induction l with
  | nil => simp
  | cons head rest ih =>
      unfold oldest? at h
      by_cases hrefs : head.2.refs ≠ 0
      · rw [if_pos hrefs] at h
        simpa [Nat.pos_of_ne_zero hrefs] using ih h
      · -- an unreferenced head is a candidate itself
        rw [if_neg hrefs] at h
        cases hrest : oldest? rest with
        | none => simp [hrest] at h
        | some other =>
            simp only [hrest] at h
            split at h <;> cases h

theorem tick_le_of_oldest? {l : List (κ × CacheEntry α)} {e : κ × CacheEntry α}
    (h : oldest? l = some e) : ∀ x ∈ l, x.2.refs = 0 → e.2.tick ≤ x.2.tick := by
  induction l generalizing e with
  | nil => simp
  | cons head rest ih =>
      unfold oldest? at h
      intro x hx hzero
      by_cases hrefs : head.2.refs ≠ 0
      · rw [if_pos hrefs] at h
        rcases List.mem_cons.mp hx with rfl | hx
        · exact absurd hzero hrefs
        · exact ih h x hx hzero
      · rw [if_neg hrefs] at h
        cases hrest : oldest? rest with
        | none =>
            simp only [hrest, Option.some.injEq] at h
            subst h
            rcases List.mem_cons.mp hx with rfl | hx
            · exact Nat.le_refl _
            · have hpos := refs_of_oldest?_eq_none hrest x hx
              omega
        | some other =>
            have hothers := ih hrest
            simp only [hrest] at h
            split at h <;> cases h <;> rcases List.mem_cons.mp hx with rfl | hx
            · omega
            · exact hothers x hx hzero
            · exact Nat.le_refl _
            · have hother := hothers x hx hzero
              omega

/-- A cache gives up the oldest of the descriptors to which there is no reference: `n` of them, or all. -/
structure Evicts (c : Cache κ α) (n : Nat) (gone : List (κ × CacheEntry α)) (c' : Cache κ α) : Prop where
  split : c.entries.entries.Perm (gone ++ c'.entries.entries)
  unreferenced : ∀ g ∈ gone, g.2.refs = 0
  oldest : ∀ g ∈ gone, ∀ e ∈ c'.entries.entries, e.2.refs = 0 → g.2.tick ≤ e.2.tick
  atMost : gone.length ≤ n
  enough : gone.length = n ∨ ∀ e ∈ c'.entries.entries, 0 < e.2.refs

/-- There is room for the descriptors of a cache, or all of them are referenced. -/
def Fits (c : Cache κ α) (capacity : Nat) : Prop :=
  c.size ≤ capacity ∨ ∀ e ∈ c.entries.entries, 0 < e.2.refs

namespace Evicts

theorem size (h : c.Evicts n gone c') : c.size = gone.length + c'.size := by
  have hlength := h.split.length_eq
  rwa [List.length_append] at hlength

/-- When the excess has been evicted, what is left fits. -/
theorem fits (h : c.Evicts (c.size - capacity) gone c') : c'.Fits capacity := by
  have hsize := h.size
  refine h.enough.imp_left ?_
  omega

/-- Nothing is evicted when what is left would have fitted with one more. -/
theorem needed (h : c.Evicts (c.size - capacity) gone c') (hgone : gone ≠ []) :
    capacity ≤ c'.size := by
  have hsize := h.size
  have hmost := h.atMost
  have hpos := List.length_pos_iff.mpr hgone
  omega

/-- Nothing has to go from a cache in which everything fits. -/
theorem of_fits (h : c.Fits capacity) : c.Evicts (c.size - capacity) [] c where
  split := List.Perm.refl _
  unreferenced := by simp
  oldest := by simp
  atMost := Nat.zero_le _
  enough := h.imp_left fun hroom => (Nat.sub_eq_zero_of_le hroom).symm

/-- At most one descriptor goes if there is at most one too many, or at most one that can go. -/
theorem length_le_one (h : c.Evicts (c.size - capacity) gone c') (hc : c.entries.Distinct)
    (hone : c.size ≤ capacity + 1 ∨ ∃ key, ∀ e ∈ c.entries.entries, e.2.refs = 0 → e.1 = key) :
    gone.length ≤ 1 := by
  have hsize := h.size
  have hmost := h.atMost
  rcases hone with hroom | ⟨key, hkey⟩
  · omega
  · have hkeys : (gone.map Prod.fst).Nodup := by
      have hnodup := (h.split.map Prod.fst).nodup_iff.mp hc
      rw [List.map_append] at hnodup
      exact (List.nodup_append.mp hnodup).1
    have hsame : gone.map Prod.fst = List.replicate gone.length key := by
      refine List.eq_replicate_iff.mpr ⟨List.length_map _, ?_⟩
      intro k hk
      obtain ⟨g, hg, rfl⟩ := List.mem_map.mp hk
      exact hkey g (h.split.mem_iff.mpr (List.mem_append_left _ hg)) (h.unreferenced g hg)
    rw [hsame] at hkeys
    exact List.nodup_replicate.mp hkeys

end Evicts

/-! ## Room -/

namespace Fits

theorem of_eq (h : c.Fits capacity) (hentries : c'.entries = c.entries) : c'.Fits capacity := by
  unfold Fits size
  rw [hentries]
  exact h

/-- Fewer descriptors fit as well. -/
theorem of_subset (h : c.Fits capacity) (hsize : c'.size ≤ c.size)
    (hsub : ∀ e ∈ c'.entries.entries, e ∈ c.entries.entries) : c'.Fits capacity :=
  h.imp (Nat.le_trans hsize) fun hrefs e he => hrefs e (hsub e he)

theorem shed (h : c.Fits capacity) {victims : List (Victim κ α)} (hshed : c.Sheds victims c') :
    c'.Fits capacity := by
  obtain ⟨-, gone, -, hentries, -⟩ := hshed
  refine h.of_subset ?_ fun e he => hentries.mem_iff.mpr (List.mem_append_right _ he)
  unfold size Table.size
  rw [hentries.length_eq, List.length_append]
  exact Nat.le_add_left _ _

end Fits

variable [DecidableEq κ]

/-! ## Evictions of the oldest -/

theorem evicts_evictOldest (n : Nat) (hc : c.entries.Distinct) :
    ∃ gone, c.Evicts n gone (c.evictOldest n).2 := by
  induction n generalizing c with
  | zero => exact ⟨[], List.Perm.refl _, by simp, by simp, Nat.le_refl _, Or.inl rfl⟩
  | succ n ih =>
      unfold evictOldest
      cases hold : oldest? c.entries.entries with
      | none =>
          exact ⟨[], List.Perm.refl _, by simp, by simp, Nat.zero_le _,
            Or.inr (refs_of_oldest?_eq_none hold)⟩
      | some first =>
          obtain ⟨key, e⟩ := first
          obtain ⟨hmem, hrefs⟩ := mem_of_oldest? hold
          have hsplit := Table.entries_perm_erase hc (Table.get?_of_mem hc hmem)
          obtain ⟨gone, h⟩ := ih (c := { c with entries := c.entries.erase key }) (hc.erase key)
          refine ⟨(key, e) :: gone, hsplit.trans (h.split.cons _), ?_, ?_,
            Nat.succ_le_succ h.atMost, h.enough.imp_left (congrArg (· + 1))⟩
          · intro g hg
            rcases List.mem_cons.mp hg with rfl | hg
            · exact hrefs
            · exact h.unreferenced g hg
          intro g hg x hx hzero
          rcases List.mem_cons.mp hg with rfl | hg
          · -- what is left was there when the oldest was chosen
            refine tick_le_of_oldest? hold x (hsplit.mem_iff.mpr ?_) hzero
            exact List.mem_cons_of_mem _ (h.split.mem_iff.mpr (List.mem_append_right _ hx))
          · exact h.oldest g hg x hx hzero

/-! ## Changes that leave room -/

namespace Fits

theorem erase (h : c.Fits capacity) (key : κ) (retired : Table Nat (CacheEntry α)) :
    ({ c with entries := c.entries.erase key, retired := retired } : Cache κ α).Fits capacity :=
  h.of_subset (List.length_filter_le ..) fun _ he => (List.mem_filter.mp he).1

/-- A descriptor that is taken is referenced. -/
theorem taken (h : c.Fits capacity) (now : Nat) (key : κ) : (c.taken now key).Fits capacity := by
  refine h.imp ?_ ?_
  · intro hroom
    simpa [Cache.taken, Cache.count, size, Table.size, Table.modify] using hroom
  · intro hrefs e he
    obtain ⟨x, hx, rfl⟩ := List.mem_map.mp he
    have hpos := hrefs x hx
    split
    · exact Nat.succ_pos _
    · exact hpos

theorem invalidate (h : c.Fits capacity) (key : κ) : (c.invalidate key).2.Fits capacity := by
  rcases invalidate_cases c key with ⟨-, heq⟩ | ⟨e, -, -, heq⟩ | ⟨e, -, -, heq⟩ <;> rw [heq]
  · exact h
  · exact h.erase key c.retired
  · exact h.erase key (c.retired.put e.id e)

end Fits

/-! ## Before an eviction -/

/-- A step of a cache that comes before an eviction: it adds `made` descriptors and takes none away, and what
is unreferenced keeps its place. -/
structure Revises (c : Cache κ α) (made : Nat) (c' : Cache κ α) : Prop where
  size : c'.size = c.size + made
  kept : ∀ key e, c.entries.get? key = some e →
    ∃ e', c'.entries.get? key = some e' ∧ e'.id = e.id ∧ (e'.refs = 0 → e'.tick = e.tick)

namespace Revises

theorem of_eq (hentries : c'.entries = c.entries) : c.Revises 0 c' := by
  refine ⟨by simp [Cache.size, hentries], ?_⟩
  intro key e he
  exact ⟨e, hentries ▸ he, rfl, fun _ => rfl⟩

theorem modifyEntry (c : Cache κ α) (key : κ) (f : CacheEntry α → CacheEntry α)
    (hid : ∀ e, (f e).id = e.id) (htick : ∀ e, (f e).refs = 0 → (f e).tick = e.tick)
    (hentries : c'.entries = c.entries.modify key f) : c.Revises 0 c' where
  size := by simp [Cache.size, Table.size, hentries, Table.modify]
  kept key' e he := by
    rw [hentries, Table.get?_modify]
    by_cases hkey : key' = key
    · subst hkey
      exact ⟨f e, by simp [he], hid e, htick e⟩
    · exact ⟨e, by simp [hkey, he], rfl, fun _ => rfl⟩

theorem congr (h : c.Revises made c') {c'' : Cache κ α} (hentries : c''.entries = c'.entries) :
    c.Revises made c'' := by
  refine ⟨?_, ?_⟩
  · rw [← h.size, Cache.size, Cache.size, hentries]
  · rw [hentries]
    exact h.kept

theorem lowered (now : Nat) (c : Cache κ α) (key : κ) (id : Nat) :
    c.Revises 0 (c.lowered now key id) := by
  unfold Cache.lowered
  split
  · exact modifyEntry c key (CacheEntry.giveBack now) (fun _ => rfl) (fun _ _ => rfl) rfl
  · exact of_eq rfl

theorem settled (b : c.Balanced owed waits) {key : κ} {slot : BuildSlot}
    (hslot : c.building.get? key = some slot) (now : Nat) (outcome : Except BuildFailure α) :
    c.Revises ([FinishedBuild.mk key slot.id outcome].filterMap FinishedBuild.descriptor?).length
      (c.settled now key slot.id outcome) := by
  cases outcome with
  | error failure => exact of_eq rfl
  | ok value =>
      have hnone := b.entry_none hslot
      refine ⟨?_, ?_⟩
      · show (c.entries.put key _).entries.length = _
        rw [Table.entries_put_of_new hnone, List.length_append]
        rfl
      · intro key' e he
        refine ⟨e, ?_, rfl, fun _ => rfl⟩
        have hne : key' ≠ key := by
          rintro rfl
          rw [hnone] at he
          cases he
        exact (Table.get?_put ..).trans ((if_neg hne).trans he)

end Revises

/-- Where everything is referenced, a reference that is given back can leave only one descriptor without
any. -/
theorem key_of_lowered (h : ∀ e ∈ c.entries.entries, 0 < e.2.refs) (now : Nat) (key : κ) (id : Nat) :
    ∀ e ∈ (c.lowered now key id).entries.entries, e.2.refs = 0 → e.1 = key := by
  intro e he hzero
  unfold Cache.lowered at he
  split at he
  · obtain ⟨x, hx, rfl⟩ := List.mem_map.mp he
    have hpos := h x hx
    split at hzero
    · rename_i hkey
      rw [if_pos hkey]
      exact hkey
    · omega
  · have hpos := h e he
    omega

/-- Where everything is referenced, it is so after the end of a build. -/
theorem refs_pos_settled (h : ∀ e ∈ c.entries.entries, 0 < e.2.refs) {key : κ}
    (hnone : c.entries.get? key = none) (now id : Nat) (outcome : Except BuildFailure α) :
    ∀ e ∈ (c.settled now key id outcome).entries.entries, 0 < e.2.refs := by
  cases outcome with
  | error failure => exact h
  | ok value =>
      intro e he
      have hentries : (c.settled now key id (.ok value)).entries.entries = c.entries.entries ++ _ :=
        Table.entries_put_of_new hnone _
      rw [hentries] at he
      rcases List.mem_append.mp he with he | he
      · exact h e he
      · rw [List.mem_singleton.mp he]
        exact Nat.lt_of_lt_of_le Nat.zero_lt_one (Nat.le_add_right _ _)

/-- Giving back to an open cache takes nothing away from its keys. -/
theorem entries_giveBack (hopen : c.isClosed = false) (now : Nat) (key : κ) (id : Nat) :
    (c.giveBack now key id).2.entries = (c.lowered now key id).entries := by
  unfold giveBack lowered
  cases (c.entries.get? key).filter (·.id == id) with
  | some e => simp [hopen]
  | none =>
      cases c.retired.get? id with
      | none => rfl
      | some e =>
          simp only
          split <;> rfl

end Cache

end Linkage

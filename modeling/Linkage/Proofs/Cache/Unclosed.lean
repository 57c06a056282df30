import Linkage.Proofs.Cache.Counts
import Linkage.Proofs.Cache.References

/-!
# Descriptors that have not been closed

A descriptor is open from the end of its build until it is closed as a victim: it is in the cache, retired, or a
victim that is still to be closed. Most events only move open descriptors about.

* **`unclosed`** — the descriptors that are open, each of them once;
* **`Sound.unclosed_step`**, **`unclosed_dispose`** — what the end of a build and closing a victim add and take
  away;
* **`InUse`**, **`Sound.inUse_iff`** — what is in the cache or held; when no call is under way, this is all that
  is kept.
-/

namespace Linkage

variable {κ α : Type}

/-- Neither the end of a build nor the end of a victim. -/
def CacheEvent.isQuiet : CacheEvent κ α → Bool
  | .complete _ _ | .dispose _ => false
  | _ => true

namespace CacheSystem

variable [DecidableEq κ] {s : CacheSystem κ α} {past : List (FinishedBuild κ α)}

/-- The descriptors that have been built and have not been closed. -/
def unclosed (s : CacheSystem κ α) : List (Nat × α) :=
  s.cache.current ++ s.cache.outdated ++ s.doomed.map Victim.descriptor

/-- Only closing a victim closes one. -/
theorem Sound.closed_step (hs : s.Sound past) {event : CacheEvent κ α} (h : ∀ place, event ≠ .dispose place) :
    (s.step event).closed = s.closed := by
  have hacts := hs.acts event
  generalize (s.step event).cache = c', (s.step event).closed = closed' at hacts ⊢
  cases hacts with
  | disposed v => exact absurd rfl (h _)
  | _ => rfl

/-- Where no victim is closed, what is open stays so, and what a build has made is open from then on. -/
theorem Sound.unclosed_step (hs : s.Sound past) {event : CacheEvent κ α}
    (h : ∀ place, event ≠ .dispose place) : (s.step event).unclosed.Perm
      (s.unclosed ++ (s.finishedBy event).filterMap FinishedBuild.descriptor?) := by
  have hbefore := hs.conserved
  have hafter := (hs.step event).conserved
  unfold victims at hbefore hafter
  rw [List.map_append, ← List.append_assoc] at hbefore hafter
  rw [hs.closed_step h, List.filterMap_append] at hafter
  -- those that have been closed are the same before and after
  refine (List.perm_append_right_iff (s.closed.map Victim.descriptor)).mp (hafter.trans ?_)
  refine (hbefore.symm.append_right _).trans ?_
  show (s.unclosed ++ _ ++ _).Perm _
  rw [List.append_assoc s.unclosed, List.append_assoc s.unclosed]
  exact List.perm_append_comm.append_left _

theorem Sound.unclosed_quiet (hs : s.Sound past) {event : CacheEvent κ α} (h : event.isQuiet = true) :
    (s.step event).unclosed.Perm s.unclosed := by
  have hfinished : s.finishedBy event = [] := by
    cases event with
    | complete call outcome => cases h
    | _ => rfl
  have hdispose : ∀ place, event ≠ .dispose place := by
    rintro place rfl
    cases h
  have hstep := hs.unclosed_step hdispose
  rwa [hfinished, List.filterMap_nil, List.append_nil] at hstep

/-- A victim that is closed is not open any more. -/
theorem unclosed_dispose {place : Nat} {v : Victim κ α} (h : s.doomed[place]? = some v) :
    s.unclosed.Perm (v.descriptor :: (s.step (.dispose place)).unclosed) := by
  obtain ⟨hlt, rfl⟩ := List.getElem?_eq_some_iff.mp h
  have hstep : (s.step (.dispose place)).unclosed =
      s.cache.current ++ s.cache.outdated ++ (s.doomed.eraseIdx place).map Victim.descriptor := by
    simp only [step, h]
    rfl
  rw [hstep]
  have hdoomed := (List.getElem_cons_eraseIdx_perm hlt).symm.map Victim.descriptor
  exact (hdoomed.append_left _).trans List.perm_middle

/-! ## What is in use -/

/-- A descriptor is in the cache, or someone holds a handle to it. -/
def InUse (s : CacheSystem κ α) (d : α) : Prop :=
  (∃ key e, s.cache.entries.get? key = some e ∧ e.value = d) ∨
    ∃ call handle, s.held.get? call = some handle ∧ handle.value = d

/-- What is in use is kept. -/
theorem Sound.kept_of_inUse (hs : s.Sound past) {d : α} (h : s.InUse d) :
    d ∈ (s.cache.current ++ s.cache.outdated).map Prod.snd := by
  rcases h with ⟨key, e, he, rfl⟩ | ⟨call, handle, hheld, rfl⟩
  · exact List.mem_map_of_mem (f := Prod.snd) (Cache.entry_mem he)
  · exact List.mem_map_of_mem (f := Prod.snd) ((hs.holds call handle hheld).mem hs.balanced)

/-- When no call is under way, what is kept is in use: an invalidated descriptor is only kept for those who hold
it. -/
theorem Sound.inUse_iff (hs : s.Sound past) (hcalls : s.calls.entries = []) {d : α} :
    s.InUse d ↔ d ∈ (s.cache.current ++ s.cache.outdated).map Prod.snd := by
  refine ⟨hs.kept_of_inUse, fun hd => ?_⟩
  rw [← Cache.map_descriptor_stock, List.map_map] at hd
  obtain ⟨e, he, rfl⟩ := List.mem_map.mp hd
  rcases List.mem_append.mp he with hentry | hretired
  · obtain ⟨⟨key, x⟩, hmem, rfl⟩ := List.mem_map.mp hentry
    exact Or.inl ⟨key, x, Table.get?_of_mem hs.balanced.entriesDistinct hmem, rfl⟩
  · obtain ⟨⟨id, x⟩, hmem, rfl⟩ := List.mem_map.mp hretired
    have hget := Table.get?_of_mem hs.balanced.retiredDistinct hmem
    have hpos : 0 < s.holders id := by
      have howed := hs.tidy.1 id x hget
      rw [hs.balanced.retiredRefs id x hget] at howed
      have hwaiting : s.waiting id = 0 := by
        unfold waiting Table.values
        rw [hcalls]
        rfl
      unfold owed at howed
      omega
    -- someone holds a handle with this number, and there is one descriptor of it
    obtain ⟨handle, hhandle, hid⟩ := List.countP_pos_iff.mp hpos
    obtain ⟨⟨call, handle⟩, hentry, rfl⟩ := List.mem_map.mp hhandle
    have hheld := Table.get?_of_mem hs.heldDistinct hentry
    have hdescriptor := hs.balanced.descriptor_of_holds (hs.holds call handle hheld) he
      ((hs.balanced.retiredNumber id x hget).trans (beq_iff_eq.mp hid).symm)
    exact Or.inr ⟨call, handle, hheld, (congrArg Prod.snd hdescriptor).symm⟩

end CacheSystem

end Linkage

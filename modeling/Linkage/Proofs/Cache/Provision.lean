import Linkage.Cache.Provider
import Linkage.Proofs.Cache.Lending
import Linkage.Proofs.Effects

/-!
# What a provider gives and takes back

One lookup and one return, each as a whole, made while nobody else uses the cache.

* **`Provider.Goes`** — the ways in which a lookup goes;
* **`Provider.supply`** — what a lookup comes to if it is not refused: the descriptor that is there,
  or else what building comes to;
* **`lent_get`**, **`lent_release`** — a lookup adds the handle that it answers with to what is lent,
  and a return takes it away;
* **`answer_get`** — what a lookup answers.
-/

namespace Linkage

open Cache (Ledger Lent Awaits)

variable {ω ι κ α : Type}

/-- The handle in an answer. -/
def CacheAnswer.handles : CacheAnswer κ α → List (Handle κ α)
  | .found handle => [handle]
  | _ => []

/-- What one who waited makes of what it finds. -/
def CacheSighting.answer : CacheSighting κ α → CacheAnswer κ α
  | .found handle => .found handle
  | .failed failure => .failed failure
  | .stillBuilding | .gone => .lost

namespace Provider

variable (p : Provider ω ι κ α)

/-! ## Discarding -/

/-- Building and discarding keep to what holds of the state outside. -/
structure Keeps (P : ω → Prop) : Prop where
  build : ∀ i, Ensures P (p.build i) fun _ => P
  discard : ∀ value, Ensures P (p.discard value) fun _ => P

section Discarding

variable {p} {P : ω → Prop}

theorem keeps_outside {β : Type} {work : StateM ω β} (h : Ensures P work fun _ => P) :
    Ensures (fun s => P s.outside) (outside work : CacheWork ω κ α β) fun _ s => P s.outside :=
  fun s hs => h s.outside hs

theorem keeps_inside {β : Type} (step : Nat → Cache κ α → β × Cache κ α) :
    Ensures (fun s => P s.outside) (p.inside step) fun _ s => P s.outside :=
  fun _ hs => hs

theorem Keeps.discardAll (hp : p.Keeps P) (victims : List (Victim κ α)) :
    Ensures (fun s => P s.outside) (p.discardAll victims) fun _ s => P s.outside := by
  induction victims with
  | nil => exact .pure fun _ hs => hs
  | cons v rest ih =>
      unfold Provider.discardAll
      exact (keeps_inside _).bind fun _ => (keeps_outside (hp.discard v.value)).bind fun _ => ih

theorem Keeps.evictExpired (hp : p.Keeps P) :
    Ensures (fun s => P s.outside) p.evictExpired fun _ s => P s.outside := by
  unfold Provider.evictExpired
  exact (keeps_inside _).bind fun _ => (hp.discardAll _).bind fun _ => .pure fun _ hs => hs

end Discarding

/-- Discarding changes nothing in the cache but the count of evictions. -/
theorem cache_discardAll (victims : List (Victim κ α)) (s : Stocked ω κ α) :
    ((p.discardAll victims).run s).2.cache =
      s.cache.count fun n => { n with evictions := n.evictions + victims.length } := by
  induction victims generalizing s with
  | nil => rfl
  | cons v rest ih =>
      refine (ih _).trans ?_
      show (s.cache.countEviction.count _ : Cache κ α) = s.cache.count _
      unfold Cache.countEviction Cache.count
      simp only [List.length_cons]
      congr 2
      omega

variable [DecidableEq κ]

/-! ## What is left of the state outside -/

section Outside

variable {p} {P : ω → Prop}

theorem Keeps.buildNow (hp : p.Keeps P) (i : ι) (id : Nat) :
    Ensures (fun s => P s.outside) (p.buildNow i id) fun _ s => P s.outside := by
  unfold Provider.buildNow
  exact (keeps_outside (hp.build i)).bind fun _ => (keeps_inside _).bind fun _ =>
    (hp.discardAll _).bind fun _ => .pure fun _ hs => hs

theorem keeps_collect (key : κ) (id : Nat) :
    Ensures (fun s => P s.outside) (p.collect key id) fun _ s => P s.outside := by
  unfold Provider.collect
  refine (keeps_inside _).bind fun sighting => ?_
  cases sighting <;> exact .pure fun _ hs => hs

theorem Keeps.get (hp : p.Keeps P) {cancelled : StateM ω (Option String)}
    (hlook : Ensures P cancelled fun _ => P) (i : ι) :
    Ensures (fun s => P s.outside) (p.get cancelled i) fun _ s => P s.outside := by
  unfold Provider.get Provider.ask
  refine (hp.evictExpired.bind fun _ => keeps_inside _).bind fun request => ?_
  cases request with
  | refused refusal => exact .pure fun _ hs => hs
  | hit handle => exact .pure fun _ hs => hs
  | build id => exact hp.buildNow i id
  | wait id =>
      refine (keeps_outside hlook).bind fun reason => ?_
      cases reason with
      | some reason => exact (keeps_inside _).bind fun _ => .pure fun _ hs => hs
      | none => exact (hp.buildNow i id).bind fun _ => keeps_collect _ _

theorem Keeps.release (hp : p.Keeps P) (handle : Handle κ α) :
    Ensures (fun s => P s.outside) (p.release handle) fun _ s => P s.outside := by
  unfold Provider.release
  exact (keeps_inside _).bind fun _ => hp.discardAll _

end Outside

/-! ## What is left of the cache -/

section Lending

variable {p} {before : Cache κ α} {held : List (Handle κ α)} {s : Stocked ω κ α}

theorem lent_discardAll (h : Lent before held s.cache) (victims : List (Victim κ α)) :
    Lent before held ((p.discardAll victims).run s).2.cache := by
  rw [cache_discardAll]
  exact h.count _

theorem lent_evictExpired (h : Lent before held s.cache) :
    Lent before held (p.evictExpired.run s).2.cache :=
  lent_discardAll (h.shed (Cache.Sheds.expire p.options (p.now s.outside) s.cache)) _

/-- The caller gives a handle back. -/
theorem lent_release {handle : Handle κ α} (h : Lent before (handle :: held) s.cache) :
    Lent before held ((p.release handle).run s).2.cache :=
  lent_discardAll (h.release p.options (p.now s.outside)) _

end Lending

/-! ## Builds -/

/-- The cache when a build has come to its end and what is left over has been evicted. -/
theorem cache_buildNow (i : ι) (id : Nat) (s : Stocked ω κ α) :
    ∃ now f, ((p.buildNow i id).run s).2.cache =
      ((s.cache.settled now (p.key i) id ((p.build i).run s.outside).1).evictExcess
        p.options).2.count f := by
  let o := ((p.build i).run s.outside).2
  let ended := s.cache.complete p.options (p.now o) (p.key i) id ((p.build i).run s.outside).1
  refine ⟨p.now o, fun n => { n with evictions := n.evictions + ended.1.length }, ?_⟩
  rw [← Cache.complete_eq]
  exact cache_discardAll p ended.1 ⟨o, ended.2⟩

/-- The end of a build leaves an open cache tidy. -/
theorem tidy_settled {c : Cache κ α} (ht : c.Tidy) (hopen : c.isClosed = false) (now : Nat) (key : κ)
    (id : Nat) (outcome : Except BuildFailure α) : (c.settled now key id outcome).Tidy := by
  have hclosed : (c.settled now key id outcome).isClosed = c.isClosed := by cases outcome <;> rfl
  refine ⟨?_, ?_⟩
  · cases outcome <;> exact ht.1
  · rw [hclosed, hopen]
    intro h
    cases h

theorem run_collect (key : κ) (id : Nat) (s : Stocked ω κ α) :
    (p.collect key id).run s = ((s.cache.observe key id).1.answer,
      { s with cache := (s.cache.observe key id).2 }) := by
  have hcollect : p.collect key id =
      (do return (← p.inside fun _ c => c.observe key id).answer) := by
    unfold collect
    refine bind_congr ?_
    intro sighting
    cases sighting <;> rfl
  rw [hcollect]
  rfl

section Builds

variable {p} {before c : Cache κ α} {held : List (Handle κ α)} {slot : BuildSlot} {i : ι}
  {s : Stocked ω κ α}

/-- What the build of a key leaves behind, evictions apart. -/
theorem settled_buildNow (h : Lent before held c) (hopen : c.isClosed = false)
    (ha : Awaits c (p.key i) slot s.cache) :
    let outcome := ((p.build i).run s.outside).1
    ∃ now victims mid f, (s.cache.settled now (p.key i) slot.id outcome).Sheds victims mid ∧
      ((p.buildNow i slot.id).run s).2.cache = mid.count f ∧
      Lent before ((CacheAnswer.ofBuild (p.key i) slot.id outcome).handles ++ held)
        (s.cache.settled now (p.key i) slot.id outcome) := by
  intro outcome
  have htidy : s.cache.Tidy := by
    unfold Cache.Tidy
    rw [ha.entries, ha.retired, ha.isClosed]
    exact h.tidy
  obtain ⟨now, f, hcache⟩ := p.cache_buildNow i slot.id s
  have hsettled := tidy_settled htidy (ha.isClosed.trans hopen) now (p.key i) slot.id outcome
  have hlent : Lent before ((CacheAnswer.ofBuild (p.key i) slot.id outcome).handles ++ held)
      (s.cache.settled now (p.key i) slot.id outcome) := by
    refine ⟨?_, hsettled⟩
    cases outcome with
    | ok value => exact ha.settled_ok h.toLedger now value
    | error failure => exact ha.settled_error h.toLedger now failure
  obtain ⟨owed, waits, b⟩ := hlent.balanced
  exact ⟨now, _, _, f, Cache.Sheds.evictExcess p.options _ b.entriesDistinct, hcache, hlent⟩

/-- The caller builds, or lets someone else's build come to its end, and has a handle if it goes
well. -/
theorem lent_buildNow (h : Lent before held c) (hopen : c.isClosed = false)
    (ha : Awaits c (p.key i) slot s.cache) :
    Lent before (((p.buildNow i slot.id).run s).1.handles ++ held)
      ((p.buildNow i slot.id).run s).2.cache := by
  obtain ⟨now, victims, mid, f, hshed, hcache, hlent⟩ := settled_buildNow h hopen ha
  rw [hcache]
  exact (hlent.shed hshed).count f

/-- One who waited finds what the build has come to. -/
theorem collect_buildNow (h : Lent before held c) (hopen : c.isClosed = false)
    (ha : Awaits c (p.key i) slot s.cache) (hwaits : c.building.get? (p.key i) ≠ none) :
    let built := ((p.buildNow i slot.id).run s).2
    let outcome := ((p.build i).run s.outside).1
    ((p.collect (p.key i) slot.id).run built).1 = .ofBuild (p.key i) slot.id outcome ∧
      Lent before ((CacheAnswer.ofBuild (p.key i) slot.id outcome).handles ++ held)
        ((p.collect (p.key i) slot.id).run built).2.cache := by
  intro built outcome
  have hlent : Lent before ((CacheAnswer.ofBuild (p.key i) slot.id outcome).handles ++ held)
      built.cache := lent_buildNow h hopen ha
  obtain ⟨now, victims, mid, f, hshed, hcache, -⟩ := settled_buildNow h hopen ha
  obtain ⟨owed, waits, b⟩ := hlent.balanced
  obtain ⟨owed', waits', b'⟩ := ha.balanced
  have hended : ∀ other, built.cache.building.get? (p.key i) = some other → other.id ≠ slot.id := by
    have hnone : built.cache.building.get? (p.key i) = none := by
      rw [hcache]
      show mid.building.get? _ = none
      rw [hshed.building_eq]
      exact (ha.building_settled now outcome).1
    intro other hother
    rw [hnone] at hother
    cases hother
  rw [run_collect]
  cases houtcome : outcome with
  | ok value =>
      rw [houtcome] at hlent
      obtain ⟨e, he, hdescriptor⟩ := hlent.holds ⟨p.key i, slot.id, value⟩ List.mem_cons_self
      obtain ⟨hid, hvalue⟩ := Prod.mk.inj hdescriptor
      rw [Cache.observe_found b hended (Or.inl ⟨e, he, hid, hvalue⟩)]
      exact ⟨rfl, hlent⟩
  | error failure =>
      rw [houtcome] at hlent
      -- the failure is on record for the caller, who was counted among those who wait
      have hwaiting : 0 < waits' slot.id := by
        have hslot := b'.slotWaiters _ slot ha.underWay
        obtain ⟨old, -, hjoined⟩ := ha.joined.resolve_left fun hown => hwaits hown.1
        rw [hjoined] at hslot
        have hslot : old.waiters + 1 = waits' old.id := hslot
        rw [hjoined]
        show 0 < waits' old.id
        omega
      obtain ⟨record, hrecord, hfailure⟩ :=
        Cache.offers_settled b' ha.underWay now (.error failure) hwaiting
      have hkept : built.cache.failures.get? slot.id = some record := by
        rw [hcache]
        show mid.failures.get? _ = some record
        rw [hshed.failures_eq, show ((p.build i).run s.outside).1 = .error failure from houtcome]
        exact hrecord
      rw [Cache.observe_failed hended hkept, hfailure]
      exact ⟨rfl, ⟨hlent.toLedger.heard hkept, hlent.tidy⟩⟩

/-- One who joins a build of someone else and waits for it. -/
theorem collect_joined (h : Lent before held c) (hopen : c.isClosed = false)
    (hslot : c.building.get? (p.key i) = some slot) (o : ω) :
    let built := ((p.buildNow i slot.id).run ⟨o, c.joined (p.key i)⟩).2
    let outcome := ((p.build i).run o).1
    ((p.collect (p.key i) slot.id).run built).1 = .ofBuild (p.key i) slot.id outcome ∧
      Lent before (((p.collect (p.key i) slot.id).run built).1.handles ++ held)
        ((p.collect (p.key i) slot.id).run built).2.cache := by
  intro built outcome
  obtain ⟨owed, waits, b⟩ := h.balanced
  have hended := collect_buildNow (s := ⟨o, c.joined (p.key i)⟩) h hopen
    (Cache.awaits_joined b hslot) (by simp [hslot])
  have hanswer : ((p.collect (p.key i) slot.id).run built).1 = _ := hended.1
  refine ⟨hanswer, ?_⟩
  rw [hanswer]
  exact hended.2

end Builds

/-! ## Lookups -/

/-- The ways in which a lookup goes once idle descriptors have been evicted: what it answers and what
state it leaves. -/
inductive Goes (cancelled : StateM ω (Option String)) (i : ι) (s : Stocked ω κ α) :
    CacheAnswer κ α → Stocked ω κ α → Prop where
  | closed (hclosed : s.cache.isClosed = true) :
      Goes cancelled i s (.refused (.closed p.options.name)) s
  | hit {e : CacheEntry α} (hopen : s.cache.isClosed = false)
      (hentry : s.cache.entries.get? (p.key i) = some e) :
      Goes cancelled i s (.found ⟨p.key i, e.id, e.value⟩)
        { s with cache := s.cache.taken (p.now s.outside) (p.key i) }
  | build (hopen : s.cache.isClosed = false) (hentry : s.cache.entries.get? (p.key i) = none)
      (hslot : s.cache.building.get? (p.key i) = none) :
      Goes cancelled i s
        ((p.buildNow i s.cache.nextId).run { s with cache := s.cache.begun (p.key i) }).1
        ((p.buildNow i s.cache.nextId).run { s with cache := s.cache.begun (p.key i) }).2
  | abandon {slot : BuildSlot} {reason : String} (hopen : s.cache.isClosed = false)
      (hslot : s.cache.building.get? (p.key i) = some slot)
      (hlook : (cancelled.run s.outside).1 = some reason) :
      Goes cancelled i s (.refused (.cancelled reason))
        ⟨(cancelled.run s.outside).2, (s.cache.joined (p.key i)).abandon (p.key i)⟩
  | wait {slot : BuildSlot} (hopen : s.cache.isClosed = false)
      (hslot : s.cache.building.get? (p.key i) = some slot)
      (hlook : (cancelled.run s.outside).1 = none) :
      Goes cancelled i s
        ((p.collect (p.key i) slot.id).run ((p.buildNow i slot.id).run
          ⟨(cancelled.run s.outside).2, s.cache.joined (p.key i)⟩).2).1
        ((p.collect (p.key i) slot.id).run ((p.buildNow i slot.id).run
          ⟨(cancelled.run s.outside).2, s.cache.joined (p.key i)⟩).2).2

/-- How one goes on who has found a build of someone else and has looked at the token. -/
def waitFor (i : ι) (id : Nat) : Option String → CacheWork ω κ α (CacheAnswer κ α)
  | some reason => do
    p.inside fun _ c => ((), c.abandon (p.key i))
    return .refused (.cancelled reason)
  | none => do
    let _ ← p.buildNow i id
    p.collect (p.key i) id

/-- How one goes on who has asked for a descriptor. -/
def proceed (cancelled : StateM ω (Option String)) (i : ι) :
    CacheRequest κ α → CacheWork ω κ α (CacheAnswer κ α)
  | .refused refusal => return .refused refusal
  | .hit handle => return .found handle
  | .build id => p.buildNow i id
  | .wait id => outside cancelled >>= p.waitFor i id

theorem get_eq (cancelled : StateM ω (Option String)) (i : ι) :
    p.get cancelled i = p.ask i >>= p.proceed cancelled i := by
  unfold get
  refine bind_congr ?_
  intro request
  cases request with
  | refused refusal => rfl
  | hit handle => rfl
  | build id => rfl
  | wait id =>
      refine bind_congr ?_
      intro reason
      cases reason <;> rfl

theorem goes_get (cancelled : StateM ω (Option String)) (i : ι) (s : Stocked ω κ α) :
    p.Goes cancelled i (p.evictExpired.run s).2 ((p.get cancelled i).run s).1
      ((p.get cancelled i).run s).2 := by
  rw [get_eq]
  generalize hswept : (p.evictExpired.run s).2 = t
  have hget : (p.ask i >>= p.proceed cancelled i).run s =
      ((p.proceed cancelled i (t.cache.request p.options (p.now t.outside) (p.key i)).1).run
        { t with cache := (t.cache.request p.options (p.now t.outside) (p.key i)).2 }) := by
    rw [← hswept]
    rfl
  rw [hget]
  rcases Cache.request_cases p.options (p.now t.outside) t.cache (p.key i) with
    ⟨hclosed, heq⟩ | ⟨e, hopen, hentry, heq⟩ | ⟨slot, hopen, hslot, heq⟩ | ⟨hopen, hentry, hslot, heq⟩
  · rw [heq]
    exact .closed hclosed
  · rw [heq]
    exact .hit hopen hentry
  · rw [heq]
    have hwait : (p.proceed cancelled i (.wait slot.id)).run
        { t with cache := t.cache.joined (p.key i) } =
        ((p.waitFor i slot.id (cancelled.run t.outside).1).run
          ⟨(cancelled.run t.outside).2, t.cache.joined (p.key i)⟩) := rfl
    show p.Goes cancelled i t ((p.proceed cancelled i (.wait slot.id)).run _).1 _
    rw [hwait]
    cases hlook : (cancelled.run t.outside).1 with
    | some reason => exact .abandon hopen hslot hlook
    | none => exact .wait hopen hslot hlook
  · rw [heq]
    exact .build hopen hentry hslot

/-- What a lookup comes to if it is not refused: the descriptor under the key, unless that is idle for
too long, and otherwise what building it comes to. Before someone else's build the caller looks whether
it is cancelled. -/
def supply (cancelled : StateM ω (Option String)) (i : ι) (s : Stocked ω κ α) :
    Except BuildFailure α :=
  let t := (p.evictExpired.run s).2
  match t.cache.entries.get? (p.key i), t.cache.building.get? (p.key i) with
  | some e, _ => .ok e.value
  | none, none => ((p.build i).run t.outside).1
  | none, some _ => ((p.build i).run (cancelled.run t.outside).2).1

section Lookups

variable {p} {before : Cache κ α} {held : List (Handle κ α)} {s : Stocked ω κ α}

/-- A lookup lends the handle that it answers with, and nothing if it answers with none. -/
theorem lent_get (h : Lent before held s.cache) (cancelled : StateM ω (Option String)) (i : ι) :
    Lent before (((p.get cancelled i).run s).1.handles ++ held) ((p.get cancelled i).run s).2.cache := by
  have ht := lent_evictExpired (p := p) h
  have hgoes := p.goes_get cancelled i s
  generalize (p.evictExpired.run s).2 = t at ht hgoes
  generalize (p.get cancelled i).run s = r at hgoes ⊢
  obtain ⟨answer, s'⟩ := r
  obtain ⟨owed, waits, b⟩ := ht.balanced
  cases hgoes with
  | closed hclosed => exact ht
  | hit hopen hentry =>
      refine ⟨ht.toLedger.taken hentry _, ht.tidy.1, ?_⟩
      intro hclosed
      have hclosed : t.cache.isClosed = true := hclosed
      rw [hopen] at hclosed
      cases hclosed
  | build hopen hentry hslot =>
      exact lent_buildNow (p := p) (i := i) (s := ⟨t.outside, t.cache.begun (p.key i)⟩) ht hopen
        (Cache.awaits_begun b hentry hslot)
  | abandon hopen hslot hlook =>
      have ha := Cache.awaits_joined b hslot
      refine ⟨ha.abandon ht.toLedger (by simp [hslot]), ?_⟩
      show Cache.Tidy _
      exact ht.tidy
  | wait hopen hslot hlook => exact (collect_joined ht hopen hslot (cancelled.run t.outside).2).2

/-- What a lookup answers: it is refused by a closed cache, cut short by the look at the token that is
the last thing that it does to the state outside, or comes to what there is to come to. -/
theorem answer_get (h : Lent before held s.cache) (cancelled : StateM ω (Option String)) (i : ι) :
    let answer := ((p.get cancelled i).run s).1
    (s.cache.isClosed = true ∧ answer = .refused (.closed p.options.name)) ∨
    (∃ reason o, answer = .refused (.cancelled reason) ∧
      cancelled.run o = (some reason, ((p.get cancelled i).run s).2.outside)) ∨
    (s.cache.isClosed = false ∧ ∃ id, answer = .ofBuild (p.key i) id (p.supply cancelled i s)) := by
  intro answer
  have ht := lent_evictExpired (p := p) h
  have hgoes := p.goes_get cancelled i s
  have hsame : (p.evictExpired.run s).2.cache.isClosed = s.cache.isClosed :=
    ht.isClosed.trans h.isClosed.symm
  unfold supply
  generalize (p.evictExpired.run s).2 = t at ht hgoes hsame ⊢
  generalize hget : (p.get cancelled i).run s = r at hgoes ⊢
  have hfirst : answer = r.1 := congrArg Prod.fst hget
  rw [hfirst, ← hsame]
  obtain ⟨answer', s'⟩ := r
  obtain ⟨owed, waits, b⟩ := ht.balanced
  cases hgoes with
  | closed hclosed => exact Or.inl ⟨hclosed, rfl⟩
  | @hit e hopen hentry =>
      refine Or.inr (Or.inr ⟨hopen, e.id, ?_⟩)
      simp only [hentry]
      rfl
  | build hopen hentry hslot =>
      refine Or.inr (Or.inr ⟨hopen, t.cache.nextId, ?_⟩)
      simp only [hentry, hslot]
      rfl
  | abandon hopen hslot hlook => exact Or.inr (Or.inl ⟨_, t.outside, rfl, Prod.ext hlook rfl⟩)
  | @wait slot hopen hslot hlook =>
      refine Or.inr (Or.inr ⟨hopen, slot.id, ?_⟩)
      simp only [b.entry_none hslot, hslot]
      exact (collect_joined ht hopen hslot (cancelled.run t.outside).2).1

end Lookups

end Provider

end Linkage

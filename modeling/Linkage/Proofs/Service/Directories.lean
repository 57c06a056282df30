import Linkage.Proofs.Cache.Unclosed
import Linkage.Proofs.Service.Extraction

/-!
# Directories that a cache of plugins leaves on disk

The directory that an artifact was extracted to is owned by the descriptor that was built from it, from the end of
the build until the descriptor is closed. So it is on disk exactly as long as its descriptor is open, and when no
call is under way, open descriptors are those in the cache and those that someone holds.

* **`PluginSystem.Does`**, **`does`** — what an event does;
* **`PluginSystem.builtBy`**, **`throughout`** — the builds of a run, and conditions on all of them;
* **`PluginSystem.Kept`** — who owns which directory, kept by every event with files that do not fail it
  (**`Kept.step`**, **`Kept.run`**);
* **`Kept.inUse_of_owner`** — who owns directories when no call is under way.
-/

namespace Linkage.PluginSystem

variable {dir : String} {start : FileTree} {s : PluginSystem}

/-! ## Events -/

theorem giveUp_eq (s : PluginSystem) (v : Victim String PluginDescriptor) :
    s.giveUp v = { s with
      files := (v.value.artifact.close s.files).2
      closed := s.closed ++ [v.value.artifact.givenUp] } := by
  have hartifact : (v.value.artifact.close s.files).1.2 = v.value.artifact.givenUp := by
    unfold ExtractedArtifact.close
    split <;> rfl
  rw [← hartifact]
  unfold giveUp StateT.run
  rcases v.value.artifact.close s.files with ⟨⟨removed, a⟩, files⟩
  rfl

/-- What an event does, with what the system becomes. -/
inductive Does (s : PluginSystem) : PluginEvent → PluginSystem → Prop
  | idle {event : PluginEvent} : s.Does event s
  | stirred {event : PluginEvent} {e : CacheEvent String PluginDescriptor} (hquiet : e.isQuiet = true) :
      s.Does event { s with caching := s.caching.step e }
  | built {call number : Nat} {id : String}
      (hcall : s.caching.calls.get? call = some ⟨id, .building number⟩) (hnew : s.built.get? call = none) :
      s.Does (.build call) (s.build call id)
  | handedOver {call : Nat} {outcome : Except BuildFailure PluginDescriptor}
      (hbuilt : s.built.get? call = some outcome) : s.Does (.complete call) { s with
        caching := s.caching.step (.complete call outcome)
        built := s.built.erase call }
  | gaveUp {place : Nat} {v : Victim String PluginDescriptor}
      (hplace : s.caching.doomed[place]? = some v) :
      s.Does (.dispose place) { s.giveUp v with caching := s.caching.step (.dispose place) }

theorem does (s : PluginSystem) (event : PluginEvent) : s.Does event (s.step event) := by
  cases event with
  | build call =>
      rcases hcall : s.caching.calls.get? call with _ | ⟨id, number | number⟩ <;>
        rcases hbuilt : s.built.get? call with _ | outcome <;>
        simp only [step, work, cacheEvent?, hcall, hbuilt, Option.elim]
      case some.building.none => exact .built hcall hbuilt
      all_goals exact .idle
  | complete call =>
      cases hbuilt : s.built.get? call with
      | none =>
          simp only [step, work, cacheEvent?, hbuilt, Table.erase_of_new hbuilt]
          exact .idle
      | some outcome =>
          simp only [step, work, cacheEvent?, hbuilt]
          exact .handedOver hbuilt
  | dispose place =>
      cases hplace : s.caching.doomed[place]? with
      | none =>
          simp only [step, work, cacheEvent?, CacheSystem.step, hplace, Option.elim]
          exact .idle
      | some v =>
          simp only [step, work, cacheEvent?, hplace]
          exact .gaveUp hplace
  | elapse ms => exact .stirred (e := .elapse ms) rfl
  | expire => exact .stirred (e := .expire) rfl
  | request call id => exact .stirred (e := .request call id) rfl
  | wake call => exact .stirred (e := .wake call) rfl
  | abandon call reason => exact .stirred (e := .abandon call reason) rfl
  | release call => exact .stirred (e := .release call) rfl
  | invalidate id => exact .stirred (e := .invalidate id) rfl
  | close => exact .stirred (e := .close) rfl

/-! ## What builds own -/

namespace Builds

variable {t t' : FileTree} {n n' : Nat} {extracted owned given : List String}
  {outcome : Except BuildFailure PluginDescriptor} {made : Option ExtractedArtifact}

/-- A descriptor that is built owns the directory that was extracted; where none is built, it has been given up. -/
theorem holdings (hbuilds : Builds dir t n outcome made t' n')
    (h : Holdings dir start t n extracted owned given) :
    Holdings dir start t' n' (extracted ++ made.toList.map (·.path))
      (owned ++ ([outcome].filterMap Except.toOption).map (·.artifact.path))
      (given ++ (if outcome.isOk then [] else made.toList.map (·.givenUp)).map (·.path)) := by
  cases hbuilds with
  | nothing hle htouches => simpa [List.filterMap_cons, Except.toOption] using h.still htouches hle
  | @loaded plugin x t' hx hnew htouches hstays haccess hthere =>
      exact h.extract hx (Nat.le_succ n) hnew htouches haccess (List.Perm.refl ([x] ++ []))
        (fun y hy => List.mem_singleton.mp hy ▸ hthere) (fun y hy => absurd hy List.not_mem_nil)
        (fun p _ => hstays p)
  | @discarded failure x t' hx hnew htouches haccess hgone =>
      exact h.extract hx (Nat.le_succ n) hnew htouches haccess (List.Perm.refl ([] ++ [x]))
        (fun y hy => absurd hy List.not_mem_nil) (fun y hy => List.mem_singleton.mp hy ▸ hgone)
        (fun p => htouches.stays)

theorem artifact_eq {d : PluginDescriptor} (hbuilds : Builds dir t n outcome made t' n')
    (hd : d ∈ [outcome].filterMap Except.toOption) : d.artifact = ⟨d.artifact.path, true, false⟩ := by
  cases hbuilds with
  | loaded => rw [List.mem_singleton.mp hd]
  | _ => cases hd

end Builds

/-! ## Ownership -/

/-- The descriptors that own a directory: those that have not been closed, and those that have been built and not
been handed over. -/
def owners (s : PluginSystem) : List PluginDescriptor :=
  s.caching.unclosed.map Prod.snd ++ s.built.values.filterMap Except.toOption

/-- The books on descriptors and directories are right. -/
structure Kept (dir : String) (start : FileTree) (s : PluginSystem) : Prop where
  sound : ∃ past, s.caching.Sound past
  downloadDir : s.repository.downloadDir = some dir
  clear : LocalRepository.KeepsClear dir
  builtDistinct : s.built.Distinct
  /-- What has been built is handed over by a call that still builds. -/
  building : ∀ call outcome, s.built.get? call = some outcome →
    ∃ id number, s.caching.calls.get? call = some ⟨id, .building number⟩
  /-- Descriptors own their directories and have not given them up. -/
  artifacts : ∀ d ∈ s.owners, d.artifact = ⟨d.artifact.path, true, false⟩
  closed : ∀ a ∈ s.closed, a.closed = true
  holdings : Holdings dir start s.files s.repository.downloads s.extracted
    (s.owners.map (·.artifact.path)) (s.closed.map (·.path))

namespace Kept

theorem new (o : CacheOptions) {r : LocalRepository} (hdir : r.downloadDir = some dir)
    (hclear : LocalRepository.KeepsClear dir) (hnamed : start.Named) :
    (PluginSystem.new o r start).Kept dir start where
  sound := ⟨[], CacheSystem.sound_new o⟩
  downloadDir := hdir
  clear := hclear
  builtDistinct := List.nodup_nil
  building _ _ h := by cases h
  artifacts _ h := by cases h
  closed _ h := by cases h
  holdings := .new dir hnamed r.downloads

/-- Where only descriptors change hands, files and directories are as before. -/
theorem carry (h : s.Kept dir start) {c : CacheSystem String PluginDescriptor}
    {b : Table Nat (Except BuildFailure PluginDescriptor)} (hsound : ∃ past, c.Sound past)
    (hdistinct : b.Distinct) (hbuilding : ∀ call outcome, b.get? call = some outcome →
      ∃ id number, c.calls.get? call = some ⟨id, .building number⟩)
    (howners : ({ s with caching := c, built := b } : PluginSystem).owners.Perm s.owners) :
    ({ s with caching := c, built := b } : PluginSystem).Kept dir start where
  sound := hsound
  downloadDir := h.downloadDir
  clear := h.clear
  builtDistinct := hdistinct
  building := hbuilding
  artifacts d hd := h.artifacts d (howners.mem_iff.mp hd)
  closed := h.closed
  holdings := h.holdings.congr (howners.map _)

/-- Most events leave it to the cache who owns what. -/
theorem stir (h : s.Kept dir start) {e : CacheEvent String PluginDescriptor} (hquiet : e.isQuiet = true) :
    ({ s with caching := s.caching.step e } : PluginSystem).Kept dir start := by
  obtain ⟨past, hs⟩ := h.sound
  have hcomplete : ∀ call outcome, e ≠ .complete call outcome := by
    rintro call outcome rfl
    cases hquiet
  have hunclosed := hs.unclosed_quiet hquiet
  refine h.carry ⟨_, hs.step e⟩ h.builtDistinct (fun call outcome hbuilt => ?_)
    ((hunclosed.map Prod.snd).append_right _)
  obtain ⟨id, number, hcall⟩ := h.building call outcome hbuilt
  exact ⟨id, number, CacheSystem.builder_stays hcall (hcomplete call)⟩

/-- A descriptor that is handed over is owned by the cache then. -/
theorem handOver (h : s.Kept dir start) {call : Nat} {outcome : Except BuildFailure PluginDescriptor}
    (hbuilt : s.built.get? call = some outcome) :
    ({ s with
      caching := s.caching.step (.complete call outcome)
      built := s.built.erase call } : PluginSystem).Kept dir start := by
  obtain ⟨past, hs⟩ := h.sound
  obtain ⟨id, number, hcall⟩ := h.building call outcome hbuilt
  have hfinished : s.caching.finishedBy (.complete call outcome) = [⟨id, number, outcome⟩] := by
    simp only [CacheSystem.finishedBy, hcall]
  have hmade : ([⟨id, number, outcome⟩].filterMap FinishedBuild.descriptor?).map Prod.snd =
      [outcome].filterMap Except.toOption := by
    cases outcome <;> rfl
  have hdispose (place : Nat) :
      CacheEvent.complete (κ := String) (α := PluginDescriptor) call outcome ≠ .dispose place := by
    intro hsame
    cases hsame
  have hunclosed := (hs.unclosed_step hdispose).map Prod.snd
  rw [hfinished, List.map_append, hmade] at hunclosed
  refine h.carry ⟨_, hs.step _⟩ (h.builtDistinct.erase call) (fun other outcome' hother => ?_) ?_
  · obtain ⟨hne, hother⟩ := Table.get?_erase_cases hother
    obtain ⟨id', number', hcall'⟩ := h.building other outcome' hother
    refine ⟨id', number', CacheSystem.builder_stays hcall' fun outcome'' heq => ?_⟩
    injection heq with hsame
    exact hne hsame.symm
  · have hvalues := (Table.values_perm_erase h.builtDistinct hbuilt).symm.filterMap Except.toOption
    unfold owners
    refine (hunclosed.append_right _).trans ?_
    rw [List.append_assoc, ← List.filterMap_append]
    exact hvalues.append_left _

/-- A victim that is closed owns nothing any more. -/
theorem giveUp (h : s.Kept dir start) {place : Nat}
    {v : Victim String PluginDescriptor} (hplace : s.caching.doomed[place]? = some v) :
    ({ s.giveUp v with caching := s.caching.step (.dispose place) } : PluginSystem).Kept dir start := by
  obtain ⟨past, hs⟩ := h.sound
  have howners : s.owners.Perm (v.value ::
      ({ s with caching := s.caching.step (.dispose place) } : PluginSystem).owners) :=
    ((CacheSystem.unclosed_dispose hplace).map Prod.snd).append_right _
  have hartifact := h.artifacts v.value (howners.mem_iff.mpr List.mem_cons_self)
  have hholdings := h.holdings.giveUp (howners.map (·.artifact.path))
  rw [giveUp_eq]
  refine {
    sound := ⟨_, hs.step (.dispose place)⟩
    downloadDir := h.downloadDir
    clear := h.clear
    builtDistinct := h.builtDistinct
    building := fun call outcome hbuilt => ?_
    artifacts := fun d hd => h.artifacts d (howners.mem_iff.mpr (List.mem_cons_of_mem _ hd))
    closed := fun a ha => ?_
    holdings := ?_ }
  · obtain ⟨id, number, hcall⟩ := h.building call outcome hbuilt
    exact ⟨id, number, CacheSystem.builder_stays hcall nofun⟩
  · rcases List.mem_append.mp ha with ha | ha
    · exact h.closed a ha
    · rw [List.mem_singleton.mp ha]
      rfl
  · rw [← hartifact] at hholdings
    rw [List.map_append]
    exact hholdings

/-! ## Builds -/

theorem build_eq (s : PluginSystem) (call : Nat) (id : String) :
    s.build call id = { s with
      repository := (source.plugin disk id (s.files, s.repository)).2.2
      files := (source.plugin disk id (s.files, s.repository)).2.1
      built := s.built.put call (source.plugin disk id (s.files, s.repository)).1
      extracted := s.extracted ++ (s.extraction? id).toList.map (·.path)
      closed := s.closed ++ if (source.plugin disk id (s.files, s.repository)).1.isOk then []
        else (s.extraction? id).toList.map (·.givenUp) } := by
  unfold PluginSystem.build StateT.run
  rcases source.plugin disk id (s.files, s.repository) with ⟨outcome, files, repository⟩
  rfl

/-- A build that goes well adds a descriptor with its directory, and one that does not leaves none behind. -/
theorem build (h : s.Kept dir start) {call number : Nat} {id : String}
    (hcall : s.caching.calls.get? call = some ⟨id, .building number⟩) (hnew : s.built.get? call = none)
    (hversion : s.versionIsPlain id = true) (hserve : s.filesServe id = true) :
    (s.build call id).Kept dir start := by
  obtain ⟨hbuilds, hrepository⟩ := builds h.downloadDir h.clear h.holdings.named hversion hserve
  have hholdings := hbuilds.holdings h.holdings
  rw [build_eq]
  generalize source.plugin disk id (s.files, s.repository) = result at hbuilds hrepository hholdings ⊢
  obtain ⟨outcome, t', r'⟩ := result
  have howners : s.caching.unclosed.map Prod.snd ++ (s.built.put call outcome).values.filterMap
      Except.toOption = s.owners ++ [outcome].filterMap Except.toOption := by
    unfold owners
    rw [Table.values_put_of_new hnew, List.filterMap_append, List.append_assoc]
  refine {
    sound := h.sound
    downloadDir := ?_
    clear := h.clear
    builtDistinct := h.builtDistinct.put hnew outcome
    building := fun other outcome' hother => ?_
    artifacts := fun d hd => ?_
    closed := fun a ha => ?_
    holdings := ?_ }
  · rw [hrepository]
    exact h.downloadDir
  · rcases Table.get?_put_cases hother with ⟨rfl, -⟩ | ⟨-, hother⟩
    · exact ⟨id, number, hcall⟩
    · exact h.building other outcome' hother
  · unfold owners at hd
    rw [howners] at hd
    exact (List.mem_append.mp hd).elim (h.artifacts d) hbuilds.artifact_eq
  · rcases List.mem_append.mp ha with ha | ha
    · exact h.closed a ha
    · split at ha
      · cases ha
      · obtain ⟨b, -, rfl⟩ := List.mem_map.mp ha
        rfl
  · show Holdings dir start t' r'.downloads _ ((s.caching.unclosed.map Prod.snd ++ _).map _) (List.map _ (_ ++ _))
    rw [howners, List.map_append, List.map_append]
    exact hholdings

end Kept

/-! ## Runs -/

/-- The plugin that an event builds, if it builds one. -/
def builtBy (s : PluginSystem) : PluginEvent → Option String
  | .build call =>
    match s.caching.calls.get? call, s.built.get? call with
    | some ⟨id, .building _⟩, none => some id
    | _, _ => none
  | _ => none

/-- A condition on builds is met by all builds of a run. -/
def throughout (p : PluginSystem → String → Bool) (s : PluginSystem) : List PluginEvent → Bool
  | [] => true
  | event :: rest => (s.builtBy event).all (p s) && (s.step event).throughout p rest

theorem of_builtBy {p : PluginSystem → String → Bool} {call number : Nat} {id : String}
    (hcall : s.caching.calls.get? call = some ⟨id, .building number⟩) (hnew : s.built.get? call = none)
    (h : (s.builtBy (.build call)).all (p s) = true) : p s id = true := by
  simpa only [builtBy, hcall, hnew, Option.all_some] using h

namespace Kept

/-- Every event with files that do not fail it keeps the books right. -/
theorem step (h : s.Kept dir start) {event : PluginEvent}
    (hversion : (s.builtBy event).all s.versionIsPlain = true)
    (hserve : (s.builtBy event).all s.filesServe = true) : (s.step event).Kept dir start := by
  have hdoes := s.does event
  generalize s.step event = s' at hdoes ⊢
  cases hdoes with
  | idle => exact h
  | stirred hquiet => exact h.stir hquiet
  | built hcall hnew =>
      exact h.build hcall hnew (of_builtBy hcall hnew hversion) (of_builtBy hcall hnew hserve)
  | handedOver hbuilt => exact h.handOver hbuilt
  | gaveUp hplace => exact h.giveUp hplace

theorem run (h : s.Kept dir start) {events : List PluginEvent}
    (hversions : s.throughout versionIsPlain events = true) (hserve : s.throughout filesServe events = true) :
    (s.run events).Kept dir start := by
  induction events generalizing s with
  | nil => exact h
  | cons event rest ih =>
      obtain ⟨hversion, hversions⟩ := Bool.and_eq_true_iff.mp hversions
      obtain ⟨hevent, hserve⟩ := Bool.and_eq_true_iff.mp hserve
      exact ih (h.step hversion hevent) hversions hserve

/-! ## What is in use -/

theorem owner_of_inUse (h : s.Kept dir start) {d : PluginDescriptor} (hd : s.caching.InUse d) :
    d ∈ s.owners := by
  obtain ⟨past, hs⟩ := h.sound
  unfold owners CacheSystem.unclosed
  rw [List.map_append]
  exact List.mem_append_left _ (List.mem_append_left _ (hs.kept_of_inUse hd))

/-- When no call is under way, only descriptors in use own directories. -/
theorem inUse_of_owner (h : s.Kept dir start) (hquiet : s.caching.Quiet) {d : PluginDescriptor}
    (hd : d ∈ s.owners) : s.caching.InUse d := by
  obtain ⟨past, hs⟩ := h.sound
  have hbuilt : s.built.values = [] := by
    unfold Table.values
    rw [Table.entries_eq_nil fun call outcome hcall => ?_, List.map_nil]
    obtain ⟨id, number, hbuilding⟩ := h.building call outcome hcall
    have hmem := Table.mem_of_get? hbuilding
    rw [hquiet.calls] at hmem
    cases hmem
  unfold owners CacheSystem.unclosed at hd
  rw [hbuilt, hquiet.doomed, List.map_nil, List.append_nil, List.filterMap_nil, List.append_nil] at hd
  exact (hs.inUse_iff hquiet.calls).mpr hd

theorem owner_of_doomed {v : Victim String PluginDescriptor} (hv : v ∈ s.caching.doomed) :
    v.value ∈ s.owners := by
  unfold owners CacheSystem.unclosed
  rw [List.map_append]
  refine List.mem_append_left _ (List.mem_append_right _ ?_)
  exact List.mem_map.mpr ⟨v.descriptor, List.mem_map_of_mem hv, rfl⟩

/-- A victim is not in use, and has a directory of its own. -/
theorem path_ne_of_doomed (h : s.Kept dir start) {d : PluginDescriptor} (hd : s.caching.InUse d)
    {v : Victim String PluginDescriptor} (hv : v ∈ s.caching.doomed) :
    d.artifact.path ≠ v.value.artifact.path := by
  obtain ⟨past, hs⟩ := h.sound
  have hnodup := (List.nodup_append.mp h.holdings.nodup).1
  unfold owners CacheSystem.unclosed at hnodup
  rw [List.map_append, List.map_append, List.map_append] at hnodup
  have hboth := (List.nodup_append.mp (List.nodup_append.mp hnodup).1).2.2
  refine hboth _ (List.mem_map_of_mem (hs.kept_of_inUse hd)) _ ?_
  exact List.mem_map.mpr ⟨v.value, List.mem_map.mpr ⟨v.descriptor, List.mem_map_of_mem hv, rfl⟩, rfl⟩

end Kept

end Linkage.PluginSystem

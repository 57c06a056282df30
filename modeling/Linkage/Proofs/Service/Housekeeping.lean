import Linkage.Proofs.Service.Directories

/-!
# A cache of plugins keeps its disk in order

Whatever happens to a cache of plugins over a repository with a directory for downloads, as long as the files
themselves do not fail: the directories that were extracted and are still there are those of the descriptors in
use, nothing is left of a build that fails, and nothing is taken away but what artifacts were extracted to. That
may be something that was there before. A download does not ask what stands at its target.

* **`Housekeeping`** — what this says about a system;
* **`housekeeping_run`** — every run of a system that begins empty leaves it so;
* **`removed_homonym`** — downloads into the repository, which has one artifact the less in the end;
* **`standing_again`** — downloads by a way through a target, which is there again after it was given up.
-/

namespace Linkage

/-- Neither path leads to where the other one leads through. -/
def Path.Apart (path path' : String) : Prop :=
  ¬ Path.place path <+: Path.place path' ∧ ¬ Path.place path' <+: Path.place path

namespace PluginSystem

variable {dir : String} {start : FileTree} {s : PluginSystem}

/-- What is true of a system that puts downloads into `dir` and whose files were `start` in the beginning. -/
structure Housekeeping (dir : String) (start : FileTree) (s : PluginSystem) : Prop where
  /-- When no call is under way, the extracted directories that are there are those of the descriptors in the cache
  and of those that are held. -/
  exact : s.caching.Quiet → ∀ x, (x ∈ s.extracted ∧ s.files.isThere x = true) ↔
    ∃ d, s.caching.InUse d ∧ d.artifact.path = x
  /-- Each of these descriptors has a directory of its own. -/
  own : ∀ d d', s.caching.InUse d → s.caching.InUse d' → d.artifact.path = d'.artifact.path → d = d'
  /-- It is there at any time, calls or not, -/
  standing : ∀ d, s.caching.InUse d → s.files.isDirectory d.artifact.path = true
  /-- and what happens next changes nothing in it. -/
  untouched : ∀ d, s.caching.InUse d → ∀ event, (s.builtBy event).all s.versionIsPlain = true →
    (s.builtBy event).all s.filesServe = true →
      ∀ p, Path.place d.artifact.path <+: p → (s.step event).files.kind? p = s.files.kind? p
  /-- A build that fails leaves no directory that it has extracted, and nothing else that was not there before,
  unless it is on the way to the directory for downloads. -/
  failedBuild : ∀ call failure, s.built.get? call = none →
    (s.builtBy (.build call)).all s.versionIsPlain = true → (s.builtBy (.build call)).all s.filesServe = true →
    (s.step (.build call)).built.get? call = some (.error failure) →
      (∀ x ∈ (s.step (.build call)).extracted, x ∉ s.extracted →
        (s.step (.build call)).files.isThere x = false) ∧
      ∀ p, (s.step (.build call)).files.kind? p ≠ none →
        (s.step (.build call)).files.kind? p = s.files.kind? p ∨ p ∈ Path.way dir
  /-- No artifact is given up twice. What was given up is gone, -/
  once : (s.closed.map (·.path)).Nodup ∧ ∀ a ∈ s.closed, s.files.isThere a.path = false
  /-- and giving it up again does nothing, whatever is there by then. -/
  closedAgain : ∀ a ∈ s.closed, ∀ t, (a.close t).2 = t
  /-- What stood in the beginning stands as it was, unless an artifact was extracted over it. -/
  undisturbed : ∀ p, start.kind? p ≠ none → (∀ x ∈ s.extracted, ¬ Path.place x <+: p) →
    s.files.kind? p = start.kind? p
  /-- Of what stood in the beginning, in the repository or elsewhere, that is gone which an artifact was extracted
  over that has been given up since, and nothing else. -/
  removed : ∀ p, start.kind? p ≠ none →
    (s.files.kind? p = none ↔ ∃ a ∈ s.closed, Path.place a.path <+: p)

/-! ## One event -/

namespace Builds

variable {t t' : FileTree} {n n' : Nat} {outcome : Except BuildFailure PluginDescriptor}
  {made : Option ExtractedArtifact} {x : String} {p : Place}

/-- A build leaves the targets of others alone. -/
theorem same_below (hbuilds : Builds dir t n outcome made t' n')
    (hx : LocalRepository.IsTarget dir n x) (hp : Path.place x <+: p) : t'.kind? p = t.kind? p := by
  cases hbuilds with
  | nothing hle htouches =>
      exact htouches.same_below (fun _ h => absurd h List.not_mem_nil) hx
        (fun _ h => absurd h List.not_mem_nil) hp
  | loaded hy hnew htouches | discarded hy hnew htouches =>
      exact htouches.same_below (fun _ h => List.mem_singleton.mp h ▸ hy) (hx.mono (Nat.le_succ n))
        (fun _ h => List.mem_singleton.mp h ▸ hnew x hx) hp

/-- What is there after a build that fails was there before, or is on the way to the directory for downloads. -/
theorem left_of_failed {failure : BuildFailure} (hbuilds : Builds dir t n (.error failure) made t' n')
    (hp : t'.kind? p ≠ none) : t'.kind? p = t.kind? p ∨ p ∈ Path.way dir := by
  cases hbuilds with
  | nothing hle htouches =>
      exact (htouches.outside p fun _ h => absurd h List.not_mem_nil).imp_right And.left
  | @discarded _ x _ hx hnew htouches haccess hgone =>
      refine (htouches.outside p fun y hy hpre => hp ?_).imp_right And.left
      rw [List.mem_singleton.mp hy] at hpre
      exact FileTree.kind?_none_of_prefix hpre hgone

theorem gone_of_failed {failure : BuildFailure} (hbuilds : Builds dir t n (.error failure) made t' n')
    (hx : x ∈ made.toList.map (·.path)) : t'.isThere x = false := by
  cases hbuilds with
  | nothing => cases hx
  | discarded _ _ _ _ hgone =>
      rw [List.mem_singleton.mp hx]
      exact Bool.eq_false_iff.mpr fun hthere => (FileTree.isThere_iff.mp hthere).2 hgone

end Builds

namespace Kept

/-- What a build with files that do not fail it comes to. -/
theorem builds (h : s.Kept dir start) {id : String} (hversion : s.versionIsPlain id = true)
    (hserve : s.filesServe id = true) :
    Builds dir s.files s.repository.downloads (source.plugin disk id (s.files, s.repository)).1
      (s.extraction? id) (source.plugin disk id (s.files, s.repository)).2.1
      (source.plugin disk id (s.files, s.repository)).2.2.downloads :=
  (PluginSystem.builds h.downloadDir h.clear h.holdings.named hversion hserve).1

/-- Nothing that happens changes the directory of a descriptor in use. -/
theorem untouched (h : s.Kept dir start) {d : PluginDescriptor} (hd : s.caching.InUse d) {event : PluginEvent}
    (hversion : (s.builtBy event).all s.versionIsPlain = true)
    (hserve : (s.builtBy event).all s.filesServe = true) {p : Place}
    (hp : Path.place d.artifact.path <+: p) : (s.step event).files.kind? p = s.files.kind? p := by
  have howned := h.holdings.owned_mem (List.mem_map_of_mem (h.owner_of_inUse hd))
  have htarget := h.holdings.targets _ howned
  have hdoes := s.does event
  generalize s.step event = s' at hdoes ⊢
  cases hdoes with
  | idle | stirred hquiet | handedOver hbuilt => rfl
  | built hcall hnew =>
      have hbuilds := h.builds (of_builtBy hcall hnew hversion) (of_builtBy hcall hnew hserve)
      rw [build_eq]
      exact hbuilds.same_below htarget hp
  | @gaveUp place v hplace =>
      have hv : v ∈ s.caching.doomed := List.mem_of_getElem? hplace
      have howner := owner_of_doomed hv
      obtain ⟨-, -, hothers⟩ := h.holdings.touches_close (List.mem_map_of_mem howner)
      rw [← h.artifacts _ howner] at hothers
      rw [giveUp_eq]
      exact hothers _ howned (h.path_ne_of_doomed hd hv) p hp

/-- A build that fails leaves no directory behind. -/
theorem failedBuild (h : s.Kept dir start) {call : Nat}
    {failure : BuildFailure} (hnew : s.built.get? call = none)
    (hversion : (s.builtBy (.build call)).all s.versionIsPlain = true)
    (hserve : (s.builtBy (.build call)).all s.filesServe = true)
    (hfailed : (s.step (.build call)).built.get? call = some (.error failure)) :
    (∀ x ∈ (s.step (.build call)).extracted, x ∉ s.extracted →
      (s.step (.build call)).files.isThere x = false) ∧
    ∀ p, (s.step (.build call)).files.kind? p ≠ none →
      (s.step (.build call)).files.kind? p = s.files.kind? p ∨ p ∈ Path.way dir := by
  have hdoes := s.does (.build call)
  generalize s.step (.build call) = s' at hdoes hfailed ⊢
  cases hdoes with
  | idle | stirred hquiet =>
      have hnone := hnew.symm.trans hfailed
      cases hnone
  | @built _ _ id hcall _ =>
      have hbuilds := h.builds (of_builtBy hcall hnew hversion) (of_builtBy hcall hnew hserve)
      rw [build_eq] at hfailed ⊢
      generalize source.plugin disk id (s.files, s.repository) = result at hbuilds hfailed ⊢
      obtain ⟨outcome, t', r'⟩ := result
      have houtcome : outcome = .error failure := by
        rw [Table.get?_put, if_pos rfl] at hfailed
        exact Option.some.inj hfailed
      subst houtcome
      refine ⟨fun x hx hold => ?_, fun p hp => hbuilds.left_of_failed hp⟩
      exact hbuilds.gone_of_failed ((List.mem_append.mp hx).resolve_left hold)

/-- Books that are right say what is on disk. -/
theorem housekeeping (h : s.Kept dir start) : s.Housekeeping dir start where
  exact hquiet x := by
    constructor
    · rintro ⟨hx, hthere⟩
      obtain ⟨d, hd, rfl⟩ := List.mem_map.mp ((h.holdings.isThere_iff hx).mp hthere)
      exact ⟨d, h.inUse_of_owner hquiet hd, rfl⟩
    · rintro ⟨d, hd, rfl⟩
      have howned := List.mem_map_of_mem (f := (·.artifact.path)) (h.owner_of_inUse hd)
      have hx := h.holdings.owned_mem howned
      exact ⟨hx, (h.holdings.isThere_iff hx).mpr howned⟩
  own d d' hd hd' hpath :=
    List.inj_on_of_nodup_map (List.nodup_append.mp h.holdings.nodup).1 (h.owner_of_inUse hd)
      (h.owner_of_inUse hd') hpath
  standing d hd := by
    have howned := List.mem_map_of_mem (f := (·.artifact.path)) (h.owner_of_inUse hd)
    exact FileTree.isDirectory_iff.mpr
      ⟨h.holdings.accessible _ (h.holdings.owned_mem howned), h.holdings.standing _ howned⟩
  untouched d hd event hversion hserve p hp := h.untouched hd hversion hserve hp
  failedBuild call failure hnew hversion hserve hfailed := h.failedBuild hnew hversion hserve hfailed
  once := by
    refine ⟨(List.nodup_append.mp h.holdings.nodup).2.1, fun a ha => Bool.eq_false_iff.mpr fun hthere => ?_⟩
    exact (FileTree.isThere_iff.mp hthere).2 (h.holdings.gone _ (List.mem_map_of_mem ha))
  closedAgain a ha t := ExtractedArtifact.close_closed (h.closed a ha) t
  undisturbed p hp hoff := (h.holdings.outside p hoff).resolve_right fun ⟨_, hnone, _⟩ => hp hnone
  removed p hp := by
    rw [h.holdings.gone_iff hp]
    simp only [List.mem_map, exists_exists_and_eq_and]

/-- The repository is as it was where downloads do not go into it or next to it. -/
theorem repository (h : s.Kept dir start) {root : String} (hapart : Path.Apart dir root) {p : Place}
    (hroot : Path.place root <+: p) (hp : start.kind? p ≠ none) : s.files.kind? p = start.kind? p := by
  refine (h.holdings.outside p fun x hx hpre => ?_).resolve_right fun ⟨_, hnone, _⟩ => hp hnone
  -- what is at or below a target and in the repository would have one of them lead to the other
  obtain ⟨name, hplace⟩ := (h.holdings.targets x hx).place_eq
  have hdir : Path.place dir <+: p := by
    rw [hplace] at hpre
    exact (List.prefix_append _ _).trans hpre
  exact (List.prefix_or_prefix_of_prefix hdir hroot).elim hapart.1 hapart.2

end Kept

/-- Whatever happens to a cache of plugins that begins empty, over any artifacts, as long as the files do not fail
and the way to the directory for downloads leads through no target: it leaves those directories on disk that are in
use, and no others. The repository stands as it was if it is apart from the directory for downloads. -/
theorem housekeeping_run {o : CacheOptions} {r : LocalRepository} (hdir : r.downloadDir = some dir)
    (hclear : LocalRepository.KeepsClear dir) (hnamed : start.Named) {events : List PluginEvent}
    (hversions : (PluginSystem.new o r start).throughout versionIsPlain events = true)
    (hserve : (PluginSystem.new o r start).throughout filesServe events = true) :
    ((PluginSystem.new o r start).run events).Housekeeping dir start ∧
      (Path.Apart dir r.root → ∀ p, Path.place r.root <+: p → start.kind? p ≠ none →
        ((PluginSystem.new o r start).run events).files.kind? p = start.kind? p) := by
  have hkept := (Kept.new o hdir hclear hnamed).run hversions hserve
  exact ⟨hkept.housekeeping, fun hapart p hroot hp => hkept.repository hapart hroot hp⟩

/-! ## Runs -/

/-- A repository of artifacts that are a file each. -/
def shelf (root : String) (artifacts : List (String × String × List UInt8)) : FileTree :=
  ⟨⟨[(root, .directory ⟨artifacts.map fun a => (a.1, .directory ⟨[(a.2.1, .file a.2.2)]⟩)⟩)]⟩⟩

theorem named_shelf {root : String} {artifacts : List (String × String × List UInt8)} (hroot : Path.IsName root)
    (hartifacts : ∀ a ∈ artifacts, Path.IsName a.1 ∧ Path.IsName a.2.1) : (shelf root artifacts).Named := by
  refine .of_entries fun e he => ?_
  rw [List.mem_singleton.mp he]
  refine ⟨hroot, fun inner hinner => ?_⟩
  obtain rfl := FileNode.directory.inj hinner
  refine .of_entries fun e he => ?_
  obtain ⟨a, ha, rfl⟩ := List.mem_map.mp he
  refine ⟨(hartifacts a ha).1, fun inner hinner => ?_⟩
  obtain rfl := FileNode.directory.inj hinner
  refine .of_entries fun e he => ?_
  rw [List.mem_singleton.mp he]
  exact ⟨(hartifacts a ha).2, nofun⟩

/-- Two artifacts, one of which has a manifest that cannot be read. -/
def bench : FileTree := shelf "repo" [("bare", "f", [7]), ("broken", PluginManifest.fileName, [255])]

def benchSystem : PluginSystem :=
  .new { name := "plugins" } { root := "repo", downloadDir := some "out" } bench

/-- Both artifacts are asked for, and the one that can be loaded is invalidated while a handle holds it. -/
def benchEvents : List PluginEvent :=
  [.request 0 "bare", .build 0, .complete 0, .request 1 "broken", .build 1, .complete 1, .invalidate "bare"]

theorem housekeeping_bench :
    benchSystem.repository.downloadDir = some "out" ∧ LocalRepository.KeepsClear "out" ∧ bench.Named ∧
      benchSystem.throughout versionIsPlain benchEvents = true ∧
      benchSystem.throughout filesServe benchEvents = true ∧
      (benchSystem.run benchEvents).Housekeeping "out" bench ∧
      (∀ p, Path.place "repo" <+: p → bench.kind? p ≠ none →
        (benchSystem.run benchEvents).files.kind? p = bench.kind? p) ∧
      (benchSystem.run benchEvents).extracted.map
        (fun x => (x, (benchSystem.run benchEvents).files.isThere x)) =
          [("out/bare-unknown-0", true), ("out/broken-unknown-1", false)] := by
  have hclear : LocalRepository.KeepsClear "out" := LocalRepository.keepsClear_of_no_up (by decide)
  have hnamed : bench.Named := named_shelf (by decide) (by decide)
  have hversions : benchSystem.throughout versionIsPlain benchEvents = true := by decide +kernel
  have hserve : benchSystem.throughout filesServe benchEvents = true := by decide +kernel
  have hapart : Path.Apart "out" "repo" := by
    unfold Path.Apart
    decide
  obtain ⟨hkeeping, hrepository⟩ := housekeeping_run (o := { name := "plugins" })
    (r := { root := "repo", downloadDir := some "out" }) rfl hclear hnamed hversions hserve
  exact ⟨rfl, hclear, hnamed, hversions, hserve, hkeeping, hrepository hapart, by decide +kernel⟩

/-! ### Downloads into the repository -/

/-- Two artifacts, one of which has the name that the first download of the other one has. -/
def homonyms : FileTree := shelf "repo" [("x", "f", [7]), ("x-unknown-0", "g", [8])]

def homonymsSystem : PluginSystem :=
  .new { name := "plugins" } { root := "repo", downloadDir := some "repo" } homonyms

/-- One artifact is asked for and released, and the cache is closed. -/
def homonymsEvents : List PluginEvent :=
  [.request 0 "x", .build 0, .complete 0, .release 0, .close, .dispose 0]

/-- Where downloads go into the repository, one may go over an artifact of the repository, which is removed with
it then. -/
theorem removed_homonym :
    LocalRepository.KeepsClear "repo" ∧ homonyms.Named ∧
      homonymsSystem.throughout versionIsPlain homonymsEvents = true ∧
      homonymsSystem.throughout filesServe homonymsEvents = true ∧
      homonyms.kind? ["repo", "x-unknown-0"] = some .directory ∧
      homonyms.kind? ["repo", "x-unknown-0", "g"] = some (.file [8]) ∧
      (homonymsSystem.run homonymsEvents).files.kind? ["repo", "x-unknown-0"] = none := by
  refine ⟨LocalRepository.keepsClear_of_no_up (by decide), named_shelf (by decide) (by decide), ?_⟩
  decide +kernel

/-! ### A way through a target -/

def detourSystem : PluginSystem :=
  .new { name := "plugins" } { root := "repo", downloadDir := some "out/x-unknown-0/.." }
    (shelf "repo" [("x", "f", [7]), ("y", "f", [7])])

/-- One artifact is given up before another one is asked for. -/
def detourEvents : List PluginEvent :=
  [.request 0 "x", .build 0, .complete 0, .release 0, .invalidate "x", .dispose 0,
    .request 1 "y", .build 1, .complete 1]

/-- Where the way to the directory for downloads leads through a target, the next download makes a directory there
again that nothing in use has. -/
theorem standing_again :
    detourSystem.throughout versionIsPlain detourEvents = true ∧
      detourSystem.throughout filesServe detourEvents = true ∧
      (detourSystem.run detourEvents).closed.map (·.path) = ["out/x-unknown-0/../x-unknown-0"] ∧
      (detourSystem.run detourEvents).files.isThere "out/x-unknown-0/../x-unknown-0" = true := by
  decide +kernel

end PluginSystem

end Linkage

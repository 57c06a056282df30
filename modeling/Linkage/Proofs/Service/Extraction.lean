import Linkage.Proofs.Artifact.Holdings
import Linkage.Service.PluginSystem

/-!
# What a build does to the files

A build of a plugin may come to nothing, may extract an artifact and load it, or may extract an artifact that it
cannot load. In the last case it gives the artifact up at once. Whatever it does to the files, it does at its
target and on the way to the directory for downloads.

* **`PluginSystem.plugin_cases`** — how a build goes on from fetching to loading;
* **`PluginSystem.filesServe`**, **`versionIsPlain`** — that files do not fail a build, and that its version can be
  used in the name of a directory;
* **`PluginSystem.Builds`**, **`builds`** — what a build comes to, with the artifact that it extracts.
-/

namespace Linkage

namespace PluginSystem

theorem bind_apply {σ α β : Type} (x : StateM σ α) (f : α → StateM σ β) (s : σ) :
    (x >>= f) s = f (x s).1 (x s).2 := rfl

theorem source_download (info : ArtifactInfo) (t : FileTree) (r : LocalRepository) :
    source.download info (t, r) =
      ((r.download info t).1.1, (r.download info t).2, (r.download info t).1.2) := by
  unfold source ArtifactSource.ofLocal disk
  simp only

/-- How a build of a plugin may go, with the files and the repository after it. -/
theorem plugin_cases (r : LocalRepository) (t : FileTree) (id : String) :
    (∃ failure, source.plugin disk id (t, r) = (.error failure, t, r) ∧
      ∀ info, r.fetch id t ≠ .ok (some info)) ∨
    ∃ info t' r', r.fetch id t = .ok (some info) ∧
      ((∃ e failure, r.download info t = ((.error e, r'), t') ∧
        source.plugin disk id (t, r) = (.error failure, t', r')) ∨
      ∃ d, r.download info t = ((.ok d, r'), t') ∧
        ((∃ plugin, source.plugin disk id (t, r) = (.ok ⟨plugin, .ofDownload d⟩, t', r')) ∨
        ∃ failure, source.plugin disk id (t, r) =
          (.error failure, ((ExtractedArtifact.ofDownload d).close t').2, r'))) := by
  have hfetch : source.fetch id (t, r) = (r.fetch id t, t, r) := rfl
  unfold ArtifactSource.plugin ArtifactSource.obtain
  rw [bind_apply, hfetch]
  cases hknown : r.fetch id t with
  | error failure => exact Or.inl ⟨_, rfl, nofun⟩
  | ok found =>
      cases found with
      | none => exact Or.inl ⟨_, rfl, nofun⟩
      | some info =>
          rcases hdownload : r.download info t with ⟨⟨outcome, r'⟩, t'⟩
          refine Or.inr ⟨info, t', r', rfl, ?_⟩
          simp only
          rw [bind_apply, source_download, hdownload]
          cases outcome with
          | error e => exact Or.inl ⟨e, _, rfl, rfl⟩
          | ok d =>
              refine Or.inr ⟨d, rfl, ?_⟩
              simp only
              rw [bind_apply]
              have hperform : disk.perform (PluginDescriptor.load info (.ofDownload d)).run (t', r') =
                  ((PluginDescriptor.load info (.ofDownload d) t').1,
                    (PluginDescriptor.load info (.ofDownload d) t').2, r') := rfl
              rw [hperform]
              rcases PluginDescriptor.load_cases info (.ofDownload d) t' with ⟨plugin, hload⟩ | ⟨failure, hload⟩
              all_goals rw [hload]
              · exact Or.inl ⟨plugin, rfl⟩
              · exact Or.inr ⟨_, rfl⟩

/-- Files do not fail a build: an artifact that cannot be copied has left no directory at its target. -/
def filesServe (s : PluginSystem) (id : String) : Bool :=
  match s.repository.fetch id s.files with
  | .ok (some info) =>
    let (downloaded, t) := s.repository.download info s.files
    downloaded.1.isOk || s.repository.downloadDir.all fun dir =>
      !t.isDirectory (LocalRepository.target dir info s.repository.downloads)
  | _ => true

/-- The version of a plugin to build is one that a directory can be named by. -/
def versionIsPlain (s : PluginSystem) (id : String) : Bool :=
  match s.repository.fetch id s.files with
  | .ok (some info) => !info.version.toList.contains '/'
  | _ => true

open LocalRepository (IsTarget)

/-- How a build may go: what it comes to, the artifact that it extracts, the files after it and the number of the
next download. -/
inductive Builds (dir : String) (t : FileTree) (n : Nat) :
    Except BuildFailure PluginDescriptor → Option ExtractedArtifact → FileTree → Nat → Prop
  | nothing {failure : BuildFailure} {t' : FileTree} {n' : Nat} (hle : n ≤ n')
      (htouches : t.Touches dir [] t') : Builds dir t n (.error failure) none t' n'
  | loaded {plugin : Plugin} {x : String} {t' : FileTree} (hx : IsTarget dir (n + 1) x)
      (hnew : ∀ y, IsTarget dir n y → Path.place y ≠ Path.place x) (htouches : t.Touches dir [x] t')
      (hstays : ∀ p, t.kind? p ≠ none → t'.kind? p ≠ none)
      (haccess : t'.Accessible x) (hthere : t'.kind? (Path.place x) = some .directory) :
      Builds dir t n (.ok ⟨plugin, x, true, false⟩) (some ⟨x, true, false⟩) t' (n + 1)
  | discarded {failure : BuildFailure} {x : String} {t' : FileTree} (hx : IsTarget dir (n + 1) x)
      (hnew : ∀ y, IsTarget dir n y → Path.place y ≠ Path.place x) (htouches : t.Touches dir [x] t')
      (haccess : t'.Accessible x) (hgone : t'.kind? (Path.place x) = none) :
      Builds dir t n (.error failure) (some ⟨x, true, false⟩) t' (n + 1)

/-- A target that is extracted to and given up at once is touched once. -/
theorem touches_discarded {dir x : String} {n : Nat} {t t' : FileTree}
    (hx : IsTarget dir n x) (htouches : t.Touches dir [x] t') (haccess : t'.Accessible x)
    (hthere : t'.kind? (Path.place x) = some .directory) :
    t.Touches dir [x] ((⟨x, true, false⟩ : ExtractedArtifact).close t').2 ∧
      ((⟨x, true, false⟩ : ExtractedArtifact).close t').2.Accessible x ∧
      ((⟨x, true, false⟩ : ExtractedArtifact).close t').2.kind? (Path.place x) = none := by
  obtain ⟨hclosed, hgone⟩ := FileTree.touches_close htouches.named hx haccess hthere
  have hxs : ∀ y ∈ [x], IsTarget dir n y := fun y hy => List.mem_singleton.mp hy ▸ hx
  exact ⟨htouches.trans hclosed, hclosed.accessible hxs hx haccess, hgone⟩

/-! ## Builds with files that do not fail them -/

section Working

variable {s : PluginSystem} {dir id : String} (hdir : s.repository.downloadDir = some dir)
  (hclear : LocalRepository.KeepsClear dir) (hnamed : s.files.Named) (hversion : s.versionIsPlain id = true)
  (hserve : s.filesServe id = true)
include hdir hclear hnamed hversion hserve

/-- A download leaves nothing behind, or leaves a directory that no download before has gone to. -/
theorem download_cases {info : ArtifactInfo} (hfetch : s.repository.fetch id s.files = .ok (some info)) :
    (∃ e n' t', s.repository.download info s.files =
        ((.error e, { s.repository with downloads := n' }), t') ∧
      s.repository.downloads ≤ n' ∧ s.files.Touches dir [] t') ∨
    ∃ x t', s.repository.download info s.files =
        ((.ok ⟨x, true⟩, { s.repository with downloads := s.repository.downloads + 1 }), t') ∧
      IsTarget dir (s.repository.downloads + 1) x ∧
      (∀ y, IsTarget dir s.repository.downloads y → Path.place y ≠ Path.place x) ∧
      s.files.Touches dir [x] t' ∧ (∀ p, s.files.kind? p ≠ none → t'.kind? p ≠ none) ∧ t'.Accessible x ∧
      t'.kind? (Path.place x) = some .directory := by
  have hplain : '/' ∉ info.version.toList := by
    simpa only [versionIsPlain, hfetch, Bool.not_eq_true', List.contains_eq_mem,
      decide_eq_false_iff_not] using hversion
  have hname := LocalRepository.isName_downloadName (LocalRepository.slash_not_mem_id hfetch) hplain
    s.repository.downloads
  have hleft : (s.repository.download info s.files).1.1.isOk = true ∨
      (s.repository.download info s.files).2.isDirectory
        (LocalRepository.target dir info s.repository.downloads) = false := by
    simpa only [filesServe, hfetch, hdir, Option.all_some, Bool.or_eq_true, Bool.not_eq_true'] using hserve
  rcases hdownload : s.repository.download info s.files with ⟨⟨outcome, r'⟩, t'⟩
  cases hlocation : s.files.isDirectory info.location with
  | false =>
      obtain ⟨hfiles, hrepository, hfailed⟩ := LocalRepository.download_of_gone hlocation s.repository
      rw [hdownload] at hfiles hrepository hfailed
      obtain rfl : t' = s.files := hfiles
      obtain rfl : r' = s.repository := hrepository
      cases outcome with
      | error e => exact Or.inl ⟨e, _, _, rfl, Nat.le_refl _, .refl hnamed _ _⟩
      | ok d => exact absurd rfl (hfailed d)
  | true =>
      have hcounted := (LocalRepository.goesTo_target hdir hlocation).counted
      rw [hdownload] at hcounted hleft
      obtain rfl : r' = _ := hcounted
      cases outcome with
      | error e =>
          have hnone := hleft.resolve_left (by simp [Except.isOk, Except.toBool])
          have htouches :=
            LocalRepository.touches_failedDownload hdir hlocation hnamed hname hdownload hnone
          exact Or.inl ⟨e, _, _, rfl, Nat.le_succ _, htouches⟩
      | ok d =>
          obtain ⟨rfl, htouches, hstays, haccess, hthere⟩ :=
            LocalRepository.touches_download hdir hlocation hnamed hname hdownload
          refine Or.inr ⟨_, _, rfl, ?_, fun y hy => hy.place_ne_next hname, htouches, hstays, haccess, hthere⟩
          exact ⟨info, _, Nat.lt_succ_self _, hname, hclear info _ hname, rfl⟩

/-- Every build with files that do not fail it goes one of these ways. -/
theorem builds :
    Builds dir s.files s.repository.downloads (source.plugin disk id (s.files, s.repository)).1
      (s.extraction? id) (source.plugin disk id (s.files, s.repository)).2.1
      (source.plugin disk id (s.files, s.repository)).2.2.downloads ∧
    (source.plugin disk id (s.files, s.repository)).2.2 = { s.repository with
      downloads := (source.plugin disk id (s.files, s.repository)).2.2.downloads } := by
  rcases plugin_cases s.repository s.files id with ⟨failure, hbuild, hunknown⟩ |
    ⟨info, t', r', hfetch, hbuild⟩
  · have hnone : s.extraction? id = none := by
      unfold extraction?
      split
      · next info hfetch => exact absurd hfetch (hunknown info)
      · rfl
    rw [hbuild, hnone]
    exact ⟨.nothing (Nat.le_refl _) (.refl hnamed _ _), rfl⟩
  · have hextraction : s.extraction? id =
        (s.repository.download info s.files).1.1.toOption.map .ofDownload := by
      unfold extraction?
      rw [hfetch]
    rw [hextraction]
    rcases download_cases hdir hclear hnamed hversion hserve hfetch with
      ⟨e, n', t₁, hdownload, hle, htouches⟩ |
      ⟨x, t₁, hdownload, hx, hnew, htouches, hstays, haccess, hthere⟩
    all_goals
      rw [hdownload] at hbuild ⊢
      rcases hbuild with ⟨_, failure, hsame, hbuild⟩ | ⟨d, hsame, hbuild⟩
      all_goals cases hsame
    · rw [hbuild]
      exact ⟨.nothing hle htouches, rfl⟩
    · rcases hbuild with ⟨plugin, hbuild⟩ | ⟨failure, hbuild⟩
      all_goals rw [hbuild]
      · exact ⟨.loaded hx hnew htouches hstays haccess hthere, rfl⟩
      · obtain ⟨hclosed, haccess', hgone⟩ := touches_discarded hx htouches haccess hthere
        exact ⟨.discarded hx hnew hclosed haccess' hgone, rfl⟩

end Working

end PluginSystem

end Linkage

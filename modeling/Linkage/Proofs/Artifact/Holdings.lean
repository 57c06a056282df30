import Linkage.Proofs.Artifact.Copies

/-!
# Directories of artifacts

Artifacts are extracted to directories that are side by side in the directory for downloads. Each of them is
owned or has been given up, and so it is there or not. This is kept as artifacts are extracted and given up, and
what else is in the tree stays as it is, but for the way to the directory for downloads.

* **`IsTarget`** — where artifacts are extracted to, and how far such places are apart;
* **`KeepsClear`** — that the way to them leads through none of them;
* **`FileTree.Touches`** — a change at some targets and on the way to them;
* **`Holdings`** — the directories that are owned are there, and those that were given up are not;
* **`Holdings.still`**, **`Holdings.extract`**, **`Holdings.giveUp`** — what keeps it so.
-/

namespace Linkage

/-! ## Targets -/

namespace LocalRepository

variable {dir x y : String} {n : Nat} {info info' : ArtifactInfo} {t t' : FileTree} {p : Place}

/-- The target of a download with a number below the bound, directly in the directory for downloads and not one that
the way to this directory leads through. -/
def IsTarget (dir : String) (bound : Nat) (x : String) : Prop :=
  ∃ info n, n < bound ∧ Path.IsName (downloadName info n) ∧ Path.avoids dir (Path.place x) = true ∧
    x = target dir info n

/-- The way to a directory for downloads leads through no target of a download into it. -/
def KeepsClear (dir : String) : Prop :=
  ∀ info n, Path.IsName (downloadName info n) → Path.avoids dir (Path.place (target dir info n)) = true

/-- This is so for every path that does not lead back up. -/
theorem keepsClear_of_no_up (h : ".." ∉ Path.pieces dir) : KeepsClear dir := by
  intro info n hname
  unfold target
  rw [Path.place_join_name hname]
  exact Path.avoids_of_no_up h _

/-- Downloads with different numbers have different names. -/
theorem downloadName_ne {n' : Nat} (h : n ≠ n') (info info' : ArtifactInfo) :
    downloadName info n ≠ downloadName info' n' := by
  rw [downloadName_eq, downloadName_eq]
  exact fun heq => h (numberMark_inj heq)

namespace IsTarget

theorem place_eq (h : IsTarget dir n x) : ∃ name, Path.place x = Path.place dir ++ [name] := by
  obtain ⟨info, k, -, hname, -, rfl⟩ := h
  exact ⟨_, Path.place_join_name hname dir⟩

theorem endsInName (h : IsTarget dir n x) : Path.EndsInName x := by
  obtain ⟨info, k, -, hname, -, rfl⟩ := h
  exact Path.endsInName_join hname dir

theorem mem_way (h : IsTarget dir n x) (hp : p ∈ Path.stops [] (Path.pieces x)) : p ∈ Path.way dir := by
  obtain ⟨info, k, -, hname, -, rfl⟩ := h
  exact Path.mem_way_of_mem_stops_join hname hp

theorem mono {n' : Nat} (h : IsTarget dir n x) (hle : n ≤ n') : IsTarget dir n' x := by
  obtain ⟨info, k, hk, htarget⟩ := h
  exact ⟨info, k, Nat.lt_of_lt_of_le hk hle, htarget⟩

/-- A target is nowhere on the way to the directory. -/
theorem not_below (h : IsTarget dir n x) (hp : p ∈ Path.way dir) : ¬ Path.place x <+: p := by
  obtain ⟨info, k, -, -, havoids, -⟩ := h
  exact Path.not_prefix_of_avoids havoids hp

/-- Nothing is at or below two targets. -/
theorem apart (hx : IsTarget dir n x) (hy : IsTarget dir n y) (hne : Path.place x ≠ Path.place y)
    (hp : Path.place x <+: p) : ¬ Path.place y <+: p := by
  obtain ⟨name, hplace⟩ := hx.place_eq
  obtain ⟨name', hplace'⟩ := hy.place_eq
  intro hp'
  have hlength : (Path.place x).length = (Path.place y).length := by
    rw [hplace, hplace', List.length_append, List.length_append]
    rfl
  exact hne ((List.prefix_of_prefix_length_le hp hp' (Nat.le_of_eq hlength)).eq_of_length hlength)

/-- The next target is a new one. -/
theorem place_ne_next (hx : IsTarget dir n x) (hname : Path.IsName (downloadName info n)) :
    Path.place x ≠ Path.place (target dir info n) := by
  obtain ⟨info', k, hk, hname', -, rfl⟩ := hx
  unfold target
  rw [Path.place_join_name hname', Path.place_join_name hname]
  intro heq
  exact downloadName_ne (Nat.ne_of_lt hk) info' info (List.cons.inj (List.append_cancel_left heq)).1

end IsTarget

end LocalRepository

/-! ## Changes -/

namespace FileTree

open LocalRepository (IsTarget)

variable {t t' : FileTree} {dir x y : String} {xs : List String} {n : Nat} {p : Place}

/-- A change at some paths and on the way to a directory. -/
structure Touches (t : FileTree) (dir : String) (xs : List String) (t' : FileTree) : Prop where
  named : t'.Named
  outside : ∀ p, (∀ x ∈ xs, ¬ Path.place x <+: p) → t'.kind? p = t.kind? p ∨
    (p ∈ Path.way dir ∧ t.kind? p = none ∧ t'.kind? p = some .directory)

namespace Touches

theorem refl (hnamed : t.Named) (dir : String) (xs : List String) : t.Touches dir xs t :=
  ⟨hnamed, fun _ _ => Or.inl rfl⟩

theorem trans {t'' : FileTree} (h : t.Touches dir xs t') (h' : t'.Touches dir xs t'') :
    t.Touches dir xs t'' := by
  refine ⟨h'.named, fun p hp => ?_⟩
  rcases h'.outside p hp with hsame | ⟨hway, hnone, hmade⟩
  · rw [hsame]
    exact h.outside p hp
  · rcases h.outside p hp with hsame | ⟨-, -, hthere⟩
    · exact Or.inr ⟨hway, hsame.symm.trans hnone, hmade⟩
    · rw [hnone] at hthere
      cases hthere

/-- Nothing that stands elsewhere is taken away. -/
theorem stays (h : t.Touches dir xs t') (hp : ∀ x ∈ xs, ¬ Path.place x <+: p) (hthere : t.kind? p ≠ none) :
    t'.kind? p ≠ none := by
  rcases h.outside p hp with hsame | ⟨-, hnone, -⟩
  · rwa [hsame]
  · exact absurd hnone hthere

variable (h : t.Touches dir xs t') (hxs : ∀ x ∈ xs, IsTarget dir n x)
include h hxs

/-- Other targets are left alone with all that is in them. -/
theorem same_below (hy : IsTarget dir n y) (hne : ∀ x ∈ xs, Path.place y ≠ Path.place x)
    (hp : Path.place y <+: p) : t'.kind? p = t.kind? p := by
  refine (h.outside p fun x hx => hy.apart (hxs x hx) (hne x hx) hp).resolve_right ?_
  rintro ⟨hway, -, -⟩
  exact hy.not_below hway hp

/-- The way to the directory stays, and so targets stay accessible, whether anything stands there or not. -/
theorem accessible (hy : IsTarget dir n y) (haccess : t.Accessible y) : t'.Accessible y := by
  refine haccess.mono fun p hp hdirectory => ?_
  have hway := hy.mem_way hp
  rcases h.outside p fun x hx => (hxs x hx).not_below hway with hsame | ⟨-, hnone, -⟩
  · rw [hsame, hdirectory]
  · rw [hdirectory] at hnone
    cases hnone

end Touches

/-- An artifact that is given up is not there any more, and no other target is touched. -/
theorem touches_close (hnamed : t.Named) (hx : IsTarget dir n x)
    (haccess : t.Accessible x) (hthere : t.kind? (Path.place x) = some .directory) :
    t.Touches dir [x] ((⟨x, true, false⟩ : ExtractedArtifact).close t).2 ∧
      ((⟨x, true, false⟩ : ExtractedArtifact).close t).2.kind? (Path.place x) = none := by
  obtain ⟨hbelow, houtside⟩ := ExtractedArtifact.close_spec hx.endsInName haccess hthere
    fun p hp => hx.not_below (hx.mem_way hp)
  refine ⟨⟨fun p hp => ?_, fun p hp => ?_⟩, hbelow _ List.prefix_rfl⟩
  · by_cases hpre : Path.place x <+: p
    · exact absurd (hbelow p hpre) hp
    · exact hnamed p (by rwa [← houtside p hpre])
  · exact Or.inl (houtside p (hp x (List.mem_singleton.mpr rfl)))

end FileTree

/-! ## Downloads -/

namespace LocalRepository

section Download

variable {r r' : LocalRepository} {dir : String} {info : ArtifactInfo} {t t' : FileTree}
  (hdir : r.downloadDir = some dir) (hlocation : t.isDirectory info.location = true)
  (hnamed : t.Named) (hname : Path.IsName (downloadName info r.downloads))
include hdir hlocation hnamed hname

/-- A download that goes well makes its target, and takes nothing away that stands there. -/
theorem touches_download {d : DownloadedArtifact} (h : r.download info t = ((.ok d, r'), t')) :
    d = ⟨target dir info r.downloads, true⟩ ∧ t.Touches dir [target dir info r.downloads] t' ∧
      (∀ p, t.kind? p ≠ none → t'.kind? p ≠ none) ∧ t'.Accessible (target dir info r.downloads) ∧
      t'.kind? (Path.place (target dir info r.downloads)) = some .directory := by
  have hcopied := copied_download hdir hlocation hnamed
  have hanswer := (goesTo_target hdir hlocation).answered d
  rw [h] at hcopied hanswer
  obtain ⟨haccess, hthere⟩ := hcopied.succeeded rfl
  refine ⟨hanswer rfl, ⟨hcopied.named, fun p hp => ?_⟩, hcopied.stays, haccess, hthere⟩
  exact (hcopied.outside p (hp _ (List.mem_singleton.mpr rfl))).imp_right fun ⟨hstop, hkinds⟩ =>
    ⟨Path.mem_way_of_mem_stops_join hname hstop, hkinds⟩

/-- One that fails and leaves no directory at its target has come no further than the directory for downloads. -/
theorem touches_failedDownload {e : RepositoryFailure} (h : r.download info t = ((.error e, r'), t'))
    (hleft : t'.isDirectory (target dir info r.downloads) = false) : t.Touches dir [] t' := by
  have hcopied := copied_download hdir hlocation hnamed
  rw [h] at hcopied
  refine ⟨hcopied.named, fun p _ => ?_⟩
  rcases hcopied.failed e rfl with hthere | hgrows
  · rw [hleft] at hthere
    cases hthere
  · exact (hgrows p).imp_right fun ⟨hstop, hkinds⟩ =>
      ⟨Path.mem_way_of_mem_stops_join hname hstop, hkinds⟩

end Download

end LocalRepository

/-! ## What is owned and what was given up -/

open LocalRepository (IsTarget)

/-- The directories of the artifacts that were extracted, in a tree that has come from another one. Each of them
is owned, and is there, or has been given up, and is not there. -/
structure Holdings (dir : String) (start t : FileTree) (n : Nat) (extracted owned given : List String) :
    Prop where
  named : t.Named
  targets : ∀ x ∈ extracted, IsTarget dir n x
  distinct : (extracted.map Path.place).Nodup
  accessible : ∀ x ∈ extracted, t.Accessible x
  /-- Every artifact is owned once or has been given up once. -/
  divided : (owned ++ given).Perm extracted
  standing : ∀ x ∈ owned, t.kind? (Path.place x) = some .directory
  gone : ∀ x ∈ given, t.kind? (Path.place x) = none
  /-- What else is in the tree is as it was, but for the way to the directory for downloads. -/
  outside : ∀ p, (∀ x ∈ extracted, ¬ Path.place x <+: p) → t.kind? p = start.kind? p ∨
    (p ∈ Path.way dir ∧ start.kind? p = none ∧ t.kind? p = some .directory)
  /-- What stood in the beginning is gone with an artifact that has been given up, if it is gone. -/
  stays : ∀ p, start.kind? p ≠ none → (∀ x ∈ given, ¬ Path.place x <+: p) → t.kind? p ≠ none

namespace Holdings

variable {dir x y : String} {start t t' : FileTree} {n n' : Nat} {extracted owned owned' given : List String}

/-- Where nothing has been extracted yet. -/
theorem new (dir : String) {start : FileTree} (hnamed : start.Named) (n : Nat) :
    Holdings dir start start n [] [] [] where
  named := hnamed
  targets _ hx := absurd hx List.not_mem_nil
  distinct := List.nodup_nil
  accessible _ hx := absurd hx List.not_mem_nil
  divided := List.Perm.refl _
  standing _ hx := absurd hx List.not_mem_nil
  gone _ hx := absurd hx List.not_mem_nil
  outside _ _ := Or.inl rfl
  stays _ hp _ := hp

section Facts

variable (h : Holdings dir start t n extracted owned given)
include h

theorem owned_mem (hx : x ∈ owned) : x ∈ extracted := h.divided.mem_iff.mp (List.mem_append_left _ hx)

theorem given_mem (hx : x ∈ given) : x ∈ extracted := h.divided.mem_iff.mp (List.mem_append_right _ hx)

/-- Different artifacts are at different places. -/
theorem place_inj (hx : x ∈ extracted) (hy : y ∈ extracted) (heq : Path.place x = Path.place y) : x = y :=
  List.inj_on_of_nodup_map h.distinct hx hy heq

/-- No artifact is owned or given up twice. -/
theorem nodup : (owned ++ given).Nodup := h.divided.nodup_iff.mpr h.distinct.of_map

/-- What is there is what is owned. -/
theorem isThere_iff (hx : x ∈ extracted) : t.isThere x = true ↔ x ∈ owned := by
  rw [FileTree.isThere_iff]
  constructor
  · rintro ⟨-, hthere⟩
    rcases List.mem_append.mp (h.divided.mem_iff.mpr hx) with hx | hx
    · exact hx
    · exact absurd (h.gone x hx) hthere
  · intro hx'
    refine ⟨h.accessible x hx, ?_⟩
    rw [h.standing x hx']
    exact nofun

/-- What stood in the beginning is gone exactly if it was in the way of an artifact that has been given up. -/
theorem gone_iff {p : Place} (hp : start.kind? p ≠ none) :
    t.kind? p = none ↔ ∃ x ∈ given, Path.place x <+: p := by
  constructor
  · intro hgone
    by_contra hoff
    exact h.stays p hp (fun x hx hpre => hoff ⟨x, hx, hpre⟩) hgone
  · rintro ⟨x, hx, hpre⟩
    exact FileTree.kind?_none_of_prefix hpre (h.gone x hx)

/-- An owned artifact that is given up is not there any more, and no other one is touched. -/
theorem touches_close (hx : x ∈ owned) :
    t.Touches dir [x] ((⟨x, true, false⟩ : ExtractedArtifact).close t).2 ∧
      ((⟨x, true, false⟩ : ExtractedArtifact).close t).2.kind? (Path.place x) = none ∧
      ∀ y ∈ extracted, y ≠ x → ∀ p, Path.place y <+: p →
        ((⟨x, true, false⟩ : ExtractedArtifact).close t).2.kind? p = t.kind? p := by
  have hmem := h.owned_mem hx
  obtain ⟨htouches, hgone⟩ :=
    FileTree.touches_close h.named (h.targets x hmem) (h.accessible x hmem) (h.standing x hx)
  refine ⟨htouches, hgone, fun y hy hne p hp => ?_⟩
  refine htouches.same_below (fun z hz => List.mem_singleton.mp hz ▸ h.targets x hmem)
    (h.targets y hy) (fun z hz heq => hne (h.place_inj hy hmem ?_)) hp
  rwa [List.mem_singleton.mp hz] at heq

theorem congr (howned : owned'.Perm owned) : Holdings dir start t n extracted owned' given :=
  { h with
    divided := (howned.append_right given).trans h.divided
    standing := fun x hx => h.standing x (howned.mem_iff.mp hx) }

end Facts

/-! ### Changes of what is owned -/

/-- What else is in the tree stays as it was, whatever happens at some more targets. -/
theorem outside_touches {xs : List String} (h : Holdings dir start t n extracted owned given)
    (htouches : t.Touches dir xs t') {p : Place} (hp : ∀ x ∈ extracted ++ xs, ¬ Path.place x <+: p) :
    t'.kind? p = start.kind? p ∨
      (p ∈ Path.way dir ∧ start.kind? p = none ∧ t'.kind? p = some .directory) := by
  rcases htouches.outside p fun x hx => hp x (List.mem_append_right _ hx) with hsame | ⟨hway, hnone, hmade⟩
  · rw [hsame]
    exact h.outside p fun x hx => hp x (List.mem_append_left _ hx)
  · rcases h.outside p fun x hx => hp x (List.mem_append_left _ hx) with hsame | ⟨-, -, hthere⟩
    · exact Or.inr ⟨hway, hsame.symm.trans hnone, hmade⟩
    · rw [hnone] at hthere
      cases hthere

section Changes

variable (h : Holdings dir start t n extracted owned given)
include h

/-- Where no artifact is touched, all is as before. -/
theorem still (htouches : t.Touches dir [] t') (hle : n ≤ n') :
    Holdings dir start t' n' extracted owned given := by
  have hsame : ∀ x ∈ extracted, t'.kind? (Path.place x) = t.kind? (Path.place x) :=
    fun x hx => htouches.same_below (fun _ h => absurd h List.not_mem_nil) (h.targets x hx)
      (fun _ h => absurd h List.not_mem_nil) List.prefix_rfl
  exact {
    named := htouches.named
    targets := fun x hx => (h.targets x hx).mono hle
    distinct := h.distinct
    accessible := fun x hx => htouches.accessible (fun _ h => absurd h List.not_mem_nil)
      (h.targets x hx) (h.accessible x hx)
    divided := h.divided
    standing := fun x hx => (hsame x (h.owned_mem hx)).trans (h.standing x hx)
    gone := fun x hx => (hsame x (h.given_mem hx)).trans (h.gone x hx)
    outside := fun p hp => h.outside_touches htouches (by simpa using hp)
    stays := fun p hp hoff => htouches.stays (fun _ h => absurd h List.not_mem_nil) (h.stays p hp hoff) }

/-- Another artifact is extracted, and is owned then or given up at once. -/
theorem extract {more gone : List String} (hx : IsTarget dir n' x) (hle : n ≤ n')
    (hnew : ∀ y, IsTarget dir n y → Path.place y ≠ Path.place x) (htouches : t.Touches dir [x] t')
    (haccess : t'.Accessible x) (hdivided : (more ++ gone).Perm [x])
    (hmore : ∀ y ∈ more, t'.kind? (Path.place y) = some .directory)
    (hgone : ∀ y ∈ gone, t'.kind? (Path.place y) = none)
    (hstays : ∀ p, (∀ y ∈ gone, ¬ Path.place y <+: p) → t.kind? p ≠ none → t'.kind? p ≠ none) :
    Holdings dir start t' n' (extracted ++ [x]) (owned ++ more) (given ++ gone) := by
  have hxs : ∀ y ∈ [x], IsTarget dir n' y := fun y hy => List.mem_singleton.mp hy ▸ hx
  have hne : ∀ y ∈ extracted, ∀ z ∈ [x], Path.place y ≠ Path.place z :=
    fun y hy z hz => List.mem_singleton.mp hz ▸ hnew y (h.targets y hy)
  have hsame : ∀ y ∈ extracted, t'.kind? (Path.place y) = t.kind? (Path.place y) :=
    fun y hy => htouches.same_below hxs ((h.targets y hy).mono hle) (hne y hy) List.prefix_rfl
  refine {
    named := htouches.named
    targets := ?_
    distinct := ?_
    accessible := ?_
    divided := ?_
    standing := ?_
    gone := ?_
    outside := fun p hp => h.outside_touches htouches hp
    stays := fun p hp hoff => hstays p (fun y hy => hoff y (List.mem_append_right _ hy))
      (h.stays p hp fun y hy => hoff y (List.mem_append_left _ hy)) }
  · intro y hy
    rcases List.mem_append.mp hy with hy | hy
    · exact (h.targets y hy).mono hle
    · exact hxs y hy
  · rw [List.map_append]
    refine List.nodup_append.mpr ⟨h.distinct, List.nodup_singleton _, ?_⟩
    intro p hp q hq
    obtain ⟨y, hy, rfl⟩ := List.mem_map.mp hp
    rw [List.mem_singleton.mp hq]
    exact hnew y (h.targets y hy)
  · intro y hy
    rcases List.mem_append.mp hy with hy | hy
    · exact htouches.accessible hxs ((h.targets y hy).mono hle) (h.accessible y hy)
    · rwa [List.mem_singleton.mp hy]
  · refine (?_ : ((owned ++ more) ++ (given ++ gone)).Perm ((owned ++ given) ++ (more ++ gone))).trans
      (h.divided.append hdivided)
    simp only [List.append_assoc]
    exact List.Perm.append_left _ (by
      rw [← List.append_assoc, ← List.append_assoc]
      exact List.perm_append_comm.append_right _)
  · intro y hy
    rcases List.mem_append.mp hy with hy | hy
    · rw [hsame y (h.owned_mem hy), h.standing y hy]
    · exact hmore y hy
  · intro y hy
    rcases List.mem_append.mp hy with hy | hy
    · rw [hsame y (h.given_mem hy), h.gone y hy]
    · exact hgone y hy

/-- An artifact is given up. -/
theorem giveUp (howned : owned.Perm (x :: owned')) :
    Holdings dir start ((⟨x, true, false⟩ : ExtractedArtifact).close t).2 n extracted owned'
      (given ++ [x]) := by
  have hmem : x ∈ owned := howned.mem_iff.mpr List.mem_cons_self
  have hx := h.owned_mem hmem
  obtain ⟨htouches, hgone, hothers⟩ := h.touches_close hmem
  have hxs : ∀ y ∈ [x], IsTarget dir n y := fun y hy => List.mem_singleton.mp hy ▸ h.targets x hx
  have hnodup : (x :: (owned' ++ given)).Nodup := (howned.append_right given).nodup_iff.mp h.nodup
  have hsame : ∀ y ∈ owned' ++ given,
      ((⟨x, true, false⟩ : ExtractedArtifact).close t).2.kind? (Path.place y) = t.kind? (Path.place y) := by
    intro y hy
    refine hothers y ?_ ?_ _ List.prefix_rfl
    · exact h.divided.mem_iff.mp ((howned.append_right given).mem_iff.mpr (List.mem_cons_of_mem _ hy))
    · rintro rfl
      exact (List.nodup_cons.mp hnodup).1 hy
  refine {
    named := htouches.named
    targets := h.targets
    distinct := h.distinct
    accessible := fun y hy => htouches.accessible hxs (h.targets y hy) (h.accessible y hy)
    divided := ?_
    standing := ?_
    gone := ?_
    outside := fun p hp => h.outside_touches htouches fun y hy => ?_
    stays := fun p hp hoff => htouches.stays (fun y hy => hoff y (List.mem_append_right _ hy))
      (h.stays p hp fun y hy => hoff y (List.mem_append_left _ hy)) }
  · rw [← List.append_assoc]
    refine List.perm_append_comm.trans ?_
    exact (howned.append_right given).symm.trans h.divided
  · intro y hy
    rw [hsame y (List.mem_append_left _ hy)]
    exact h.standing y (howned.mem_iff.mpr (List.mem_cons_of_mem _ hy))
  · intro y hy
    rcases List.mem_append.mp hy with hy | hy
    · rw [hsame y (List.mem_append_right _ hy), h.gone y hy]
    · rw [List.mem_singleton.mp hy, hgone]
  · rcases List.mem_append.mp hy with hy | hy
    · exact hp y hy
    · rw [List.mem_singleton.mp hy]
      exact hp x hx

end Changes

end Holdings

end Linkage

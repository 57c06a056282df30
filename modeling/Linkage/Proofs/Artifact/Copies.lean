import Linkage.Artifact.Descriptor
import Linkage.Proofs.Artifact.Targets
import Linkage.Proofs.Files.Making

/-!
# Downloads and what becomes of them

A download makes the way to its target and copies into it, and touches nothing else. If it goes well, its
target is a directory, and this is what is removed when the artifact is given up.

* **`Path.Within`**, **`copyTrees_spec`** — all that is copied comes below the target;
* **`LocalRepository.download_spec`** — what a download does to the files;
* **`ExtractedArtifact.close_spec`**, **`close_closed`** — giving up takes the directory away, the first time;
* **`PluginDescriptor.load_cases`** — loading leaves the files alone, or gives the artifact up.
-/

namespace Linkage

variable {t t' : FileTree}

/-! ## Copies -/

/-- A path that leads down from a target by names. -/
def Path.Within (target path : String) : Prop :=
  ∃ names, (∀ name ∈ names, Path.IsName name) ∧ Path.pieces path = Path.pieces target ++ names

namespace Path.Within

variable {target path name : String}

theorem refl (target : String) : Within target target :=
  ⟨[], fun _ h => absurd h List.not_mem_nil, (List.append_nil _).symm⟩

theorem endsInName (h : Within target path) (htarget : EndsInName target) : EndsInName path := by
  obtain ⟨names, hnames, hpieces⟩ := h
  rcases List.eq_nil_or_concat names with rfl | ⟨front, name, rfl⟩
  · obtain ⟨before, last, hlast, hname⟩ := htarget
    exact ⟨before, last, by rw [hpieces, hlast, List.append_nil], hname⟩
  · rw [List.concat_eq_append] at hpieces hnames
    refine ⟨pieces target ++ front, name, by rw [hpieces, List.append_assoc], ?_⟩
    exact hnames name (List.mem_append_right _ List.mem_cons_self)

theorem join (h : Within target path) (htarget : EndsInName target) (hname : IsName name) :
    Within target (Path.join path name) := by
  have hjoined := (h.endsInName htarget).pieces_join hname
  obtain ⟨names, hnames, hpieces⟩ := h
  refine ⟨names ++ [name], ?_, by rw [hjoined, hpieces, List.append_assoc]⟩
  intro n hn
  rcases List.mem_append.mp hn with hn | hn
  · exact hnames n hn
  · rw [List.mem_singleton.mp hn]
    exact hname

theorem place_prefix (h : Within target path) : place target <+: place path := by
  obtain ⟨names, hnames, hpieces⟩ := h
  unfold place
  rw [hpieces, resolve_append, resolve_names hnames]
  exact List.prefix_append _ names

/-- The way down begins with the way to the target. -/
theorem of_mem_way (h : Within target path) {p : Place} (hp : p ∈ way path) :
    p ∈ stops [] (pieces target) ∨ place target <+: p := by
  obtain ⟨names, hnames, hpieces⟩ := h
  unfold way place at hp
  rw [hpieces, stops_append, resolve_append] at hp
  rcases List.mem_append.mp hp with hp | hp
  · rcases List.mem_append.mp hp with hp | hp
    · exact Or.inl hp
    · exact Or.inr (prefix_of_mem_stops_names hnames hp)
  · rw [List.mem_singleton.mp hp, resolve_names hnames]
    exact Or.inr (List.prefix_append _ names)

end Path.Within

namespace OnDisk

variable {ε α β : Type}

/-- Work in two parts ends with the first one where this fails. -/
theorem bind_cases (x : OnDisk ε α) (f : α → OnDisk ε β) (t : FileTree) :
    (∃ e t', x t = (.error e, t') ∧ (x >>= f) t = (.error e, t')) ∨
      ∃ a t', x t = (.ok a, t') ∧ (x >>= f) t = f a t' := by
  have hbind : (x >>= f) t = ExceptT.bindCont f (x t).1 (x t).2 := rfl
  rcases hx : x t with ⟨outcome, t'⟩
  rw [hbind, hx]
  cases outcome with
  | error e => exact Or.inl ⟨e, t', rfl, rfl⟩
  | ok a => exact Or.inr ⟨a, t', rfl, rfl⟩

theorem get_bind (f : FileTree → OnDisk ε β) (t : FileTree) :
    ((get : OnDisk ε FileTree) >>= f) t = f t t := rfl

end OnDisk

/-- Work on files keeps to a target that is there, and what it gives is good. -/
def OnDisk.KeepsTo {α : Type} (target : String) (work : OnDisk RepositoryFailure α) (good : α → Prop) : Prop :=
  ∀ t : FileTree, t.Named → t.Accessible target →
    t.Confined (work t).2 (Path.place target) ∧ ∀ a, (work t).1 = .ok a → good a

namespace OnDisk.KeepsTo

variable {α β : Type} {target : String} {good : α → Prop} {good' : β → Prop}

theorem pure {a : α} (h : good a) : KeepsTo target (pure a) good :=
  fun t _ _ => ⟨FileTree.Confined.refl t _, fun _ heq => Except.ok.inj heq ▸ h⟩

theorem bind {x : OnDisk RepositoryFailure α} {f : α → OnDisk RepositoryFailure β}
    (hx : KeepsTo target x good) (hf : ∀ a, good a → KeepsTo target (f a) good') :
    KeepsTo target (x >>= f) good' := by
  intro t hnamed htarget
  obtain ⟨hfirst, hgood⟩ := hx t hnamed htarget
  rcases bind_cases x f t with ⟨e, t', hx, heq⟩ | ⟨a, t', hx, heq⟩
  all_goals
    rw [hx] at hfirst hgood
    rw [heq]
  · exact ⟨hfirst, nofun⟩
  · obtain ⟨hsecond, hgood'⟩ := hf a (hgood a rfl) t' (hfirst.named hnamed) (hfirst.accessible htarget)
    exact ⟨hfirst.trans hsecond, hgood'⟩

theorem get {f : FileTree → OnDisk RepositoryFailure β} (hf : ∀ t, KeepsTo target (f t) good') :
    KeepsTo target ((MonadState.get : OnDisk RepositoryFailure FileTree) >>= f) good' :=
  fun t => hf t t

end OnDisk.KeepsTo

namespace LocalRepository

theorem eq_ok_of_failingAt {α : Type} {path : String} {x : Except FileFault α} {a : α}
    (h : failingAt path x = .ok a) : x = .ok a := by
  cases x with
  | error fault => cases h
  | ok b => exact congrArg Except.ok (Except.ok.inj h)

theorem makeDirectories_apply (path : String) (t : FileTree) :
    makeDirectories path t = (failingAt path (t.makeDirectories path).1, (t.makeDirectories path).2) := rfl

section Copying

open OnDisk (KeepsTo)

variable {target : String}

/-- Making a directory below a target that is there keeps to the target. -/
theorem keepsTo_makeDirectories {path : String} (hpath : Path.Within target path) :
    KeepsTo target (makeDirectories path) fun _ => True := by
  intro t hnamed htarget
  have hgrows := (FileTree.makeDirectories_spec t path).1
  refine ⟨⟨fun p hp => ?_, fun p => hgrows.directory, fun p => hgrows.stays, fun hnamed =>
    hgrows.named hnamed fun p hp => Path.isName_of_mem_way hp⟩, fun _ _ => trivial⟩
  rcases hgrows p with hsame | ⟨hway, hnone, -⟩
  · exact hsame
  · rcases hpath.of_mem_way hway with hstop | hbelow
    · rw [htarget.passable.stops p hstop] at hnone
      cases hnone
    · exact absurd hbelow hp

theorem keepsTo_names (source : String) :
    KeepsTo target (OnDisk.look fun t => failingAt source (t.names source))
      fun names => ∀ name ∈ names, Path.IsName name :=
  fun t hnamed _ => ⟨FileTree.Confined.refl t _,
    fun _ hnames => hnamed.of_mem_names (eq_ok_of_failingAt hnames)⟩

/-- One file that is copied below the target. -/
theorem keepsTo_copy (source : String) {destination : String} (hdestination : Path.Within target destination) :
    KeepsTo target (OnDisk.change fun t => failingAt source (t.copy source destination)) fun _ => True := by
  intro t _ _
  have hchange : (OnDisk.change (fun t => failingAt source (t.copy source destination)) t).2 =
      (t.copy source destination).toOption.getD t := by
    unfold OnDisk.change
    cases hcopy : t.copy source destination <;> simp [hcopy, failingAt, Except.toOption]
  rw [hchange]
  refine ⟨?_, fun _ _ => trivial⟩
  cases hcopy : t.copy source destination with
  | error fault => exact FileTree.Confined.refl t _
  | ok copied =>
      have hconfined := FileTree.confined_copy hcopy
      exact { hconfined with
        outside := fun p hp => hconfined.outside p fun hbelow => hp (hdestination.place_prefix.trans hbelow) }

variable (hends : Path.EndsInName target)
include hends

/-- The files of a directory are copied below the target, and so are the directories to come. -/
theorem keepsTo_copyFiles (source : String) {destination : String} {names : List String}
    {found : List (String × String)} (hdestination : Path.Within target destination)
    (hnames : ∀ name ∈ names, Path.IsName name) (hfound : ∀ e ∈ found, Path.Within target e.2) :
    KeepsTo target (copyFiles source destination names found)
      fun found => ∀ e ∈ found, Path.Within target e.2 := by
  induction names generalizing found with
  | nil => exact .pure hfound
  | cons name rest ih =>
      have hcopied := hdestination.join hends (hnames name List.mem_cons_self)
      have hrest : ∀ n ∈ rest, Path.IsName n := fun n hn => hnames n (List.mem_cons_of_mem _ hn)
      rw [copyFiles]
      refine .get fun t => ?_
      split
      · refine ih hrest fun e he => ?_
        rcases List.mem_cons.mp he with rfl | he
        · exact hcopied
        · exact hfound e he
      · exact .bind (keepsTo_copy _ hcopied) fun _ _ => ih hrest hfound

/-- What is done with a directory that was made, if what comes later keeps to the target. -/
theorem keepsTo_filling {bound : Nat} (hlater : ∀ pending : List (String × String),
    (∀ e ∈ pending, Path.Within target e.2) → KeepsTo target (copyTrees bound pending) fun _ => True)
    (source : String) {destination : String} (hdestination : Path.Within target destination)
    {pending : List (String × String)} (hpending : ∀ e ∈ pending, Path.Within target e.2) :
    KeepsTo target (do
      let names ← OnDisk.look fun t => failingAt source (t.names source)
      copyTrees bound (← copyFiles source destination names pending)) fun _ => True :=
  .bind (keepsTo_names source) fun _ hnames =>
    .bind (keepsTo_copyFiles hends source hdestination hnames hpending) hlater

/-- Whatever is copied into the target comes below it. -/
theorem keepsTo_copyTrees (bound : Nat) (pending : List (String × String))
    (hpending : ∀ e ∈ pending, Path.Within target e.2) :
    KeepsTo target (copyTrees bound pending) fun _ => True := by
  induction bound generalizing pending with
  | zero => exact .pure trivial
  | succ bound ih =>
      cases pending with
      | nil => exact .pure trivial
      | cons entry pending =>
          obtain ⟨hdestination, hpending⟩ := List.forall_mem_cons.mp hpending
          rw [copyTrees]
          exact .bind (keepsTo_makeDirectories hdestination) fun _ _ =>
            keepsTo_filling hends ih _ hdestination hpending

end Copying

/-! ## Downloads -/

variable {r : LocalRepository} {info : ArtifactInfo} {dir : String}

theorem copyBound_ne_zero (t : FileTree) : copyBound t ≠ 0 :=
  Nat.ne_of_gt (Nat.mul_pos (Nat.succ_pos _) (by decide))

/-- What a copy to a path comes to, with the files before and after it. -/
structure Copied (t : FileTree) (path : String) (outcome : Except RepositoryFailure Unit)
    (t' : FileTree) : Prop where
  named : t'.Named
  /-- Nothing is taken away, not even what stands at the target. -/
  stays : ∀ p, t.kind? p ≠ none → t'.kind? p ≠ none
  /-- Outside its target, directories may be made on the way to it, and nothing else. -/
  outside : ∀ p, ¬ Path.place path <+: p → t'.kind? p = t.kind? p ∨
    (p ∈ Path.stops [] (Path.pieces path) ∧ t.kind? p = none ∧ t'.kind? p = some .directory)
  succeeded : outcome = .ok () → t'.Accessible path ∧ t'.kind? (Path.place path) = some .directory
  /-- One that fails has left its target behind, or has not come so far. -/
  failed : ∀ failure, outcome = .error failure →
    t'.isDirectory path = true ∨ t.Grows t' (Path.stops [] (Path.pieces path))

theorem copied_copyTrees {path : String} (hends : Path.EndsInName path) (hnamed : t.Named) (bound : Nat)
    (source : String) : Copied t path (copyTrees (bound + 1) [(source, path)] t).1
      (copyTrees (bound + 1) [(source, path)] t).2 := by
  obtain ⟨hgrows, hstopped, hmade⟩ := FileTree.makeDirectories_spec t path
  have hnamed₁ : (t.makeDirectories path).2.Named := hgrows.named hnamed fun p hp => Path.isName_of_mem_way hp
  have houtside : ∀ p, ¬ Path.place path <+: p → (t.makeDirectories path).2.kind? p = t.kind? p ∨
      (p ∈ Path.stops [] (Path.pieces path) ∧ t.kind? p = none ∧
        (t.makeDirectories path).2.kind? p = some .directory) := by
    intro p hp
    refine (hgrows p).imp_right fun ⟨hway, hkinds⟩ => ⟨?_, hkinds⟩
    refine (List.mem_append.mp hway).resolve_right fun hplace => hp ?_
    obtain rfl := List.mem_singleton.mp hplace
    exact List.prefix_rfl
  rw [copyTrees]
  rcases OnDisk.bind_cases (makeDirectories path) _ t with ⟨e, t₁, hfirst, heq⟩ | ⟨_, t₁, hfirst, heq⟩
  all_goals
    rw [makeDirectories_apply] at hfirst
    obtain ⟨houtcome, rfl⟩ := Prod.mk.inj hfirst
    rw [heq]
  · cases hway : (t.makeDirectories path).1 with
    | ok _ =>
        rw [hway] at houtcome
        cases houtcome
    | error fault =>
        exact ⟨hnamed₁, fun p => hgrows.stays, houtside, nofun, fun _ _ => Or.inr (hstopped fault hway)⟩
  · obtain ⟨haccess, hthere⟩ := hmade (eq_ok_of_failingAt houtcome) hends.nonempty
    -- the target is there, and all that follows keeps to it
    obtain ⟨hconfined, -⟩ := keepsTo_filling hends (keepsTo_copyTrees hends bound) source
      (Path.Within.refl path) (fun _ h => absurd h List.not_mem_nil) _ hnamed₁ haccess
    have haccess' := hconfined.accessible haccess
    have hthere' := hconfined.directories _ hthere
    refine ⟨hconfined.named hnamed₁, fun p hp => hconfined.stays p (hgrows.stays hp), fun p hp => ?_,
      fun _ => ⟨haccess', hthere'⟩, fun _ _ => Or.inl (FileTree.isDirectory_iff.mpr ⟨haccess', hthere'⟩)⟩
    rw [hconfined.outside p hp]
    exact houtside p hp

theorem copied_download (hdir : r.downloadDir = some dir) (hthere : t.isDirectory info.location = true)
    (hnamed : t.Named) : Copied t (target dir info r.downloads) ((r.download info t).1.1.map fun _ => ())
      (r.download info t).2 := by
  have hends : Path.EndsInName (target dir info r.downloads) := by
    obtain ⟨before, w, hpieces, hname⟩ := exists_last_name dir info r.downloads
    exact ⟨before, _, hpieces, hname⟩
  obtain ⟨bound, hbound⟩ := Nat.exists_eq_succ_of_ne_zero (copyBound_ne_zero t)
  have hcopied := copied_copyTrees hends hnamed bound info.location
  rw [download_eq hdir hthere, hbound]
  generalize target dir info r.downloads = path at hends hcopied ⊢
  unfold ExceptT.run
  rcases hcopies : copyTrees (bound + 1) [(info.location, path)] t with ⟨outcome, t'⟩
  rw [hcopies] at hcopied
  cases outcome <;> exact hcopied

end LocalRepository

/-! ## Giving up -/

namespace ExtractedArtifact

variable {a : ExtractedArtifact}

/-- An artifact that has been given up is not touched again, whatever stands at its path by then. -/
theorem close_closed (h : a.closed = true) (t : FileTree) : (a.close t).2 = t := by
  unfold close
  simp [h]

/-- Giving up an artifact takes its directory away with all that is in it, and nothing else. -/
theorem close_spec {path : String} (hends : Path.EndsInName path) (haccess : t.Accessible path)
    (hdirectory : t.kind? (Path.place path) = some .directory)
    (hstraight : ∀ p ∈ Path.stops [] (Path.pieces path), ¬ Path.place path <+: p) :
    (∀ p, Path.place path <+: p → ((⟨path, true, false⟩ : ExtractedArtifact).close t).2.kind? p = none) ∧
      ∀ p, ¬ Path.place path <+: p →
        ((⟨path, true, false⟩ : ExtractedArtifact).close t).2.kind? p = t.kind? p := by
  have hthere : t.isThere path = true := FileTree.isThere_iff.mpr ⟨haccess, by rw [hdirectory]; exact nofun⟩
  have hclose : ((⟨path, true, false⟩ : ExtractedArtifact).close t).2 = (t.removeDirectory path).2 := by
    unfold close
    simp only [hthere, Bool.not_false, Bool.and_self, if_true]
  rw [hclose]
  exact FileTree.removeDirectory_spec hends haccess hdirectory hstraight

end ExtractedArtifact

/-! ## Loading -/

/-- Reading from an artifact leaves the files alone, or gives the artifact up. -/
theorem ExtractedArtifact.loadWith_cases {α : Type} (a : ExtractedArtifact)
    (load : FileTree → String → Except LoadFailure α) (t : FileTree) :
    (∃ x, a.loadWith load t = (.ok x, t)) ∨ ∃ failure, a.loadWith load t = (.error failure, (a.close t).2) := by
  unfold ExtractedArtifact.loadWith
  rw [OnDisk.get_bind]
  cases load t a.path with
  | ok x => exact Or.inl ⟨x, rfl⟩
  | error failure => exact Or.inr ⟨failure, rfl⟩

/-- A plugin that is loaded keeps its artifact, and one that is not has it given up. -/
theorem PluginDescriptor.load_cases (info : ArtifactInfo) (a : ExtractedArtifact) (t : FileTree) :
    (∃ plugin, PluginDescriptor.load info a t = (.ok ⟨plugin, a⟩, t)) ∨
      ∃ failure, PluginDescriptor.load info a t = (.error failure, (a.close t).2) := by
  unfold PluginDescriptor.load
  rcases OnDisk.bind_cases (a.loadWith _) _ t with ⟨failure, t', hload, heq⟩ | ⟨plugin, t', hload, heq⟩
  all_goals
    rw [heq]
    rcases a.loadWith_cases _ t with ⟨x, hcase⟩ | ⟨failure', hcase⟩
    all_goals
      rw [hcase] at hload
      cases hload
  · exact Or.inr ⟨failure, rfl⟩
  · exact Or.inl ⟨plugin, rfl⟩

end Linkage

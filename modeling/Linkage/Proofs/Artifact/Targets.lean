import Linkage.Artifact.Extracted
import Linkage.Proofs.Files.Paths

/-!
# Where downloads go

A repository with a directory for downloads puts each of them under a name made of the id, the version and
the number of the download. Ids hold no slashes, but versions are taken as they stand in the metadata. So a
download has a directory that no other one has, but this may be anywhere.

* **`LocalRepository.target`** — where a download goes;
* **`isChild_target_iff`** — it goes directly into the directory for downloads exactly if its version holds
  no slash;
* **`parts_target_ne`** — downloads with different numbers go to different paths;
* **`DownloadLaws`**, **`downloadLaws`** — what holds of all downloads of a repository.
-/

namespace Linkage.LocalRepository

variable {r : LocalRepository} {dir id : String} {info info' : ArtifactInfo} {n n' : Nat} {t : FileTree}

/-! ## Names of downloads -/

/-- What the name of a download ends in. -/
def numberMark (n : Nat) : String := "-" ++ toString n

theorem toList_numberMark (n : Nat) : (numberMark n).toList = '-' :: Nat.toDigits 10 n := by
  unfold numberMark
  rw [String.toList_append, Nat.toString_eq_repr, Nat.toList_repr]
  rfl

theorem not_digit {c : Char} (hc : c.isDigit = false) (n : Nat) : c ∉ Nat.toDigits 10 n := by
  intro hmem
  rw [Nat.isDigit_of_mem_toDigits (by decide) (by decide) hmem] at hc
  cases hc

theorem slash_not_mem_numberMark (n : Nat) : '/' ∉ (numberMark n).toList := by
  rw [toList_numberMark, List.mem_cons, not_or]
  exact ⟨by decide, not_digit (by decide) n⟩

/-- The number can be told from any text that ends in its mark. -/
theorem numberMark_inj {v w : String} (h : v ++ numberMark n = w ++ numberMark n') : n = n' := by
  -- what comes after the last dash are the digits
  have hlists := congrArg (fun s => (s.toList.splitOn '-').getLast?) h
  simp only [String.toList_append, toList_numberMark, List.splitOn_append_cons_self,
    List.splitOn_eq_singleton (not_digit (c := '-') (by decide) _), List.getLast?_concat] at hlists
  have hnumbers := congrArg (fun ds => Nat.ofDigitChars 10 ds 0) (Option.some.inj hlists)
  simpa using hnumbers

/-- A text with a dash in it is none of those that lead nowhere or back up. -/
theorem ne_of_dash {w : String} (h : '-' ∈ w.toList) : w ≠ "" ∧ w ≠ "." ∧ w ≠ ".." := by
  refine ⟨?_, ?_, ?_⟩ <;>
  · rintro rfl
    revert h
    decide

theorem dash_mem_concat (w : String) (n : Nat) : '-' ∈ (w ++ numberMark n).toList := by
  rw [String.toList_append, toList_numberMark]
  exact List.mem_append_right _ List.mem_cons_self

theorem downloadName_eq (info : ArtifactInfo) (n : Nat) :
    downloadName info n = info.id ++ "-" ++ info.version ++ numberMark n := by
  unfold downloadName numberMark
  rw [← String.append_assoc]

/-- What a repository says is about the id that it is asked for, and that holds no slash. -/
theorem slash_not_mem_id (h : r.fetch id t = .ok (some info)) : '/' ∉ info.id.toList := by
  unfold fetch at h
  simp only at h
  split at h
  · next hthere =>
      have hvalid := (Bool.and_eq_true_iff.mp hthere).1
      cases hm : metadata (Path.join (Path.join r.root id) metadataFile) t with
      | error fault =>
          rw [hm] at h
          cases h
      | ok m =>
          rw [hm] at h
          cases h
          unfold isValidId at hvalid
          simp only [Bool.and_eq_true, Bool.not_eq_true', List.contains_eq_mem, decide_eq_false_iff_not]
            at hvalid
          exact hvalid.1.2
  · cases h

/-! ## Targets -/

/-- Where the download of an artifact with that number goes. -/
def target (dir : String) (info : ArtifactInfo) (n : Nat) : String := Path.join dir (downloadName info n)

/-- The last piece of the target is a name that shows the number. -/
theorem exists_last_name (dir : String) (info : ArtifactInfo) (n : Nat) :
    ∃ before w, Path.pieces (target dir info n) = before ++ [w ++ numberMark n] ∧
      Path.IsName (w ++ numberMark n) := by
  obtain ⟨front, hfront⟩ := Path.exists_pieces_join dir (downloadName info n)
  obtain ⟨before, w, hname, hsingle⟩ :=
    Path.exists_last_piece (slash_not_mem_numberMark n) (info.id ++ "-" ++ info.version)
  obtain ⟨hnonempty, hnotSame, hnotAbove⟩ := ne_of_dash (dash_mem_concat w n)
  refine ⟨front ++ before, w, ?_, hsingle, hnonempty, hnotSame, hnotAbove⟩
  unfold target
  rw [hfront, downloadName_eq, hname, List.append_assoc]

/-- Downloads with different numbers go to different paths, whatever is downloaded. -/
theorem parts_target_ne (h : n ≠ n') (dir : String) (info info' : ArtifactInfo) :
    Path.parts (target dir info n) ≠ Path.parts (target dir info' n') := by
  intro hsame
  obtain ⟨before, w, hpieces, hname⟩ := exists_last_name dir info n
  obtain ⟨before', w', hpieces', hname'⟩ := exists_last_name dir info' n'
  have hlast := Path.getLast?_parts hname hpieces
  rw [hsame, Path.getLast?_parts hname' hpieces'] at hlast
  exact h (numberMark_inj (Option.some.inj hlast)).symm

/-- These paths never lead to the same place, however the files change between the downloads. -/
theorem place_ne (h : n ≠ n') {t t' : FileTree} {p p' : Place}
    (hp : t.locate (target dir info n) = .ok p) (hp' : t'.locate (target dir info' n') = .ok p') :
    p ≠ p' := by
  rintro rfl
  obtain ⟨before, w, hpieces, hname⟩ := exists_last_name dir info n
  obtain ⟨before', w', hpieces', hname'⟩ := exists_last_name dir info' n'
  have hfollow := (FileTree.follow_of_locate hp).2
  have hfollow' := (FileTree.follow_of_locate hp').2
  rw [hpieces] at hfollow
  rw [hpieces'] at hfollow'
  obtain ⟨q, -, rfl⟩ := FileTree.follow_name hname hfollow
  obtain ⟨q', -, hsame⟩ := FileTree.follow_name hname' hfollow'
  have hlast := congrArg List.getLast? hsame
  rw [List.getLast?_concat, List.getLast?_concat] at hlast
  exact h (numberMark_inj (Option.some.inj hlast))

section Contained

variable (hid : '/' ∉ info.id.toList)
include hid

/-- The id is in the first piece, and a dash after it. -/
theorem exists_first_piece (back : String) :
    ∃ first rest, Path.pieces (info.id ++ "-" ++ back) = first :: rest ∧ '-' ∈ first.toList := by
  have hmark : '/' ∉ (info.id ++ "-").toList := by
    rw [String.toList_append, List.mem_append, not_or]
    exact ⟨hid, by decide⟩
  obtain ⟨w, rest, hpieces⟩ := Path.exists_first_piece hmark back
  exact ⟨_, rest, hpieces, by simp⟩

theorem startsWithin_downloadName (n : Nat) : Path.StartsWithin (downloadName info n) := by
  obtain ⟨first, rest, hpieces, hdash⟩ := exists_first_piece hid (info.version ++ numberMark n)
  obtain ⟨hnonempty, hnotSame, -⟩ := ne_of_dash hdash
  refine ⟨first, rest, ?_, hnonempty, hnotSame⟩
  rw [downloadName_eq, ← hpieces, ← String.append_assoc]

/-- A version without a slash makes a name. -/
theorem isName_downloadName (hversion : '/' ∉ info.version.toList) (n : Nat) :
    Path.IsName (downloadName info n) := by
  have hdash : '-' ∈ (downloadName info n).toList := by
    rw [downloadName_eq]
    exact dash_mem_concat _ n
  obtain ⟨hnonempty, hnotSame, hnotAbove⟩ := ne_of_dash hdash
  refine ⟨?_, hnonempty, hnotSame, hnotAbove⟩
  rw [downloadName_eq]
  simp only [String.toList_append, List.mem_append, not_or]
  exact ⟨⟨⟨hid, by decide⟩, hversion⟩, slash_not_mem_numberMark n⟩

/-- A version with a slash makes two steps at least. -/
theorem two_le_length_steps (hversion : '/' ∈ info.version.toList) (n : Nat) :
    2 ≤ (Path.steps (downloadName info n)).length := by
  obtain ⟨front, back, hsplit⟩ := List.append_of_mem hversion
  -- the dashes before and after the version stand on both sides of the slash
  have hname : downloadName info n =
      info.id ++ "-" ++ String.ofList front ++ "/" ++ (String.ofList back ++ numberMark n) := by
    rw [← String.toList_inj, downloadName_eq]
    simp [hsplit]
  obtain ⟨first, rest, hfirst, hdash⟩ := exists_first_piece hid (String.ofList front)
  obtain ⟨before, w, hlast, -⟩ :=
    Path.exists_last_piece (slash_not_mem_numberMark n) (String.ofList back)
  obtain ⟨hnonempty, hnotSame, -⟩ := ne_of_dash hdash
  obtain ⟨hnonempty', hnotSame', -⟩ := ne_of_dash (dash_mem_concat w n)
  unfold Path.steps
  rw [hname, Path.pieces_append, hfirst, hlast]
  simp only [List.filter_append, List.filter_cons, List.filter_nil, List.length_append]
  rw [if_pos (by simp [hnonempty, hnotSame]), if_pos (by simp [hnonempty', hnotSame'])]
  simp only [List.length_cons, List.length_nil]
  omega

/-- A download goes directly into the directory exactly if the version holds no slash. -/
theorem isChild_target_iff (dir : String) (n : Nat) :
    Path.IsChild dir (target dir info n) ↔ '/' ∉ info.version.toList := by
  unfold target
  rw [Path.isChild_join_iff (startsWithin_downloadName hid n)]
  constructor
  · rintro ⟨name, -, hsteps⟩ hversion
    have htwo := two_le_length_steps hid hversion n
    rw [hsteps, List.length_singleton] at htwo
    omega
  · intro hversion
    have hname := isName_downloadName hid hversion n
    exact ⟨_, hname, hname.steps_eq⟩

end Contained

/-! ## Downloads -/

/-- A download goes to that path. -/
structure GoesTo (r : LocalRepository) (info : ArtifactInfo) (t : FileTree) (path : String) : Prop where
  /-- The artifact is copied there, -/
  copied : (r.download info t).2 = ((copyTrees (copyBound t) [(info.location, path)]).run t).2
  /-- and this is answered if it goes well. -/
  answered : ∀ d, (r.download info t).1.1 = .ok d → d = ⟨path, true⟩
  /-- It is there that the copy is removed when it is given up. -/
  removed : ∀ d, (r.download info t).1.1 = .ok d → ∀ t', ((ExtractedArtifact.ofDownload d).close t').2 =
    if t'.isThere path then (t'.removeDirectory path).2 else t'
  /-- The number is used up in any case. -/
  counted : (r.download info t).1.2 = { r with downloads := r.downloads + 1 }

/-- Where downloads go that are asked for one after the other, each with the files as they are then. -/
def targets (dir : String) (r : LocalRepository) : List (ArtifactInfo × FileTree) → List String
  | [] => []
  | (info, t) :: rest =>
    let later := targets dir (r.download info t).1.2 rest
    if t.isDirectory info.location then target dir info r.downloads :: later else later

/-- A download of what is not there changes nothing. -/
theorem download_of_gone (h : t.isDirectory info.location = false) (r : LocalRepository) :
    (r.download info t).2 = t ∧ (r.download info t).1.2 = r ∧
      ∀ d, (r.download info t).1.1 ≠ .ok d := by
  unfold download
  simp only [h]
  exact ⟨rfl, rfl, nofun⟩

section Run

variable (hdir : r.downloadDir = some dir)
include hdir

/-- A download copies to its target, and answers with it. -/
theorem download_eq (h : t.isDirectory info.location = true) :
    r.download info t =
      ((((copyTrees (copyBound t) [(info.location, target dir info r.downloads)]).run t).1.map
          fun _ => ⟨target dir info r.downloads, true⟩, { r with downloads := r.downloads + 1 }),
        ((copyTrees (copyBound t) [(info.location, target dir info r.downloads)]).run t).2) := by
  unfold download target
  rw [if_pos h, hdir]
  simp only
  rcases (copyTrees (copyBound t) [(info.location, Path.join dir (downloadName info r.downloads))]).run t
    with ⟨copied, after⟩
  rfl

theorem goesTo_target (h : t.isDirectory info.location = true) :
    GoesTo r info t (target dir info r.downloads) := by
  have hdownload := download_eq hdir h
  rcases hcopy : (copyTrees (copyBound t) [(info.location, target dir info r.downloads)]).run t with
    ⟨copied, after⟩
  rw [hcopy] at hdownload
  have hanswer : ∀ d, (r.download info t).1.1 = .ok d → d = ⟨target dir info r.downloads, true⟩ := by
    intro d hd
    rw [hdownload] at hd
    cases copied with
    | error fault => cases hd
    | ok _ => exact (Except.ok.inj hd).symm
  refine ⟨?_, hanswer, ?_, by rw [hdownload]⟩
  · rw [hdownload, hcopy]
  · intro d hd t'
    rw [hanswer d hd]
    unfold ExtractedArtifact.close ExtractedArtifact.ofDownload
    simp only [Bool.not_false, Bool.true_and]
    split <;> rfl

/-- The numbers of downloads go up. -/
theorem exists_number_of_mem_targets {requests : List (ArtifactInfo × FileTree)} {path : String}
    (h : path ∈ r.targets dir requests) :
    ∃ info n, r.downloads ≤ n ∧ path = target dir info n := by
  induction requests generalizing r with
  | nil => cases h
  | cons request rest ih =>
      obtain ⟨info, t⟩ := request
      rw [targets] at h
      cases hthere : t.isDirectory info.location with
      | false =>
          obtain ⟨-, hsame, -⟩ := download_of_gone hthere r
          rw [hthere, hsame] at h
          exact ih hdir h
      | true =>
          rw [hthere, (goesTo_target hdir hthere).counted] at h
          rcases List.mem_cons.mp h with rfl | h
          · exact ⟨info, r.downloads, Nat.le_refl _, rfl⟩
          · obtain ⟨info', n, hn, hpath⟩ := ih (r := { r with downloads := r.downloads + 1 }) hdir h
            exact ⟨info', n, Nat.le_of_succ_le hn, hpath⟩

/-- No two downloads of a run go to the same path. -/
theorem nodup_targets (requests : List (ArtifactInfo × FileTree)) :
    ((r.targets dir requests).map Path.parts).Nodup := by
  induction requests generalizing r with
  | nil => exact List.nodup_nil
  | cons request rest ih =>
      obtain ⟨info, t⟩ := request
      rw [targets]
      cases hthere : t.isDirectory info.location with
      | false =>
          obtain ⟨-, hsame, -⟩ := download_of_gone hthere r
          rw [hsame]
          exact ih hdir
      | true =>
          rw [(goesTo_target hdir hthere).counted]
          simp only [if_true, List.map_cons]
          refine List.nodup_cons.mpr ⟨?_, ih hdir⟩
          -- whatever comes later has a higher number
          intro hmem
          obtain ⟨path, hpath, hparts⟩ := List.mem_map.mp hmem
          obtain ⟨info', n, hn, rfl⟩ := exists_number_of_mem_targets
            (r := { r with downloads := r.downloads + 1 }) hdir hpath
          exact parts_target_ne (Nat.ne_of_gt hn) dir info' info hparts

end Run

/-- What holds of the downloads of a repository that has a directory for them. -/
structure DownloadLaws (r : LocalRepository) (dir : String) : Prop where
  /-- What is there goes to its target. -/
  goes : ∀ info t, t.isDirectory info.location = true → GoesTo r info t (target dir info r.downloads)
  /-- What is not there goes nowhere. -/
  stays : ∀ info t, t.isDirectory info.location = false →
    (r.download info t).2 = t ∧ (r.download info t).1.2 = r ∧ ∀ d, (r.download info t).1.1 ≠ .ok d
  /-- The target of an artifact that the repository describes is directly in the directory exactly if the
  version holds no slash. -/
  contained : ∀ id t info, r.fetch id t = .ok (some info) → ∀ n,
    (Path.IsChild dir (target dir info n) ↔ '/' ∉ info.version.toList)
  /-- Then it leads to a place directly in the one that the directory leads to. -/
  placed : ∀ id t info, r.fetch id t = .ok (some info) → '/' ∉ info.version.toList →
    ∀ (n : Nat) (t' : FileTree) (p q : Place), t'.locate dir = .ok q → t'.locate (target dir info n) = .ok p →
      p = q ++ [downloadName info n]
  /-- Targets with different numbers are different paths, and lead to different places. -/
  apart : ∀ info info' n n', n ≠ n' →
    Path.parts (target dir info n) ≠ Path.parts (target dir info' n') ∧
    ∀ (t t' : FileTree) (p p' : Place), t.locate (target dir info n) = .ok p →
      t'.locate (target dir info' n') = .ok p' → p ≠ p'
  /-- No two downloads of a run have the same target. -/
  run : ∀ requests, ((r.targets dir requests).map Path.parts).Nodup

/-- Every download has a target of its own. It is directly in the directory for downloads exactly if the
version of the artifact holds no slash. -/
theorem downloadLaws (hdir : r.downloadDir = some dir) : DownloadLaws r dir where
  goes _ _ := goesTo_target hdir
  stays _ _ h := download_of_gone h r
  contained _ _ _ hinfo := isChild_target_iff (slash_not_mem_id hinfo) dir
  placed _ _ _ hinfo hversion n _ _ _ hq hp :=
    FileTree.locate_child (isName_downloadName (slash_not_mem_id hinfo) hversion n) hq hp
  apart info info' _ _ h := ⟨parts_target_ne h dir info info', fun _ _ _ _ hp hp' => place_ne h hp hp'⟩
  run := nodup_targets hdir

/-! ## Versions with slashes -/

/-- A repository with one artifact, `x-0`, that has this version in its metadata file. -/
def shelf (version : String) : FileTree :=
  ⟨⟨[("repo", .directory ⟨[("x-0", .directory
    ⟨[(metadataFile, .file ("\x7b\"version\":\"" ++ version ++ "\"\x7d").toUTF8.toList),
      ("f", .file [7])]⟩)]⟩)]⟩⟩

def shelfRepository : LocalRepository := { root := "repo", downloadDir := some "out" }

/-- What the repository says of the artifact. -/
def shelved (version : String) : ArtifactInfo := ⟨"x-0", version, none, "repo/x-0"⟩

/-- With a plain version each download has a directory of its own among the downloads. -/
theorem downloadLaws_plain :
    shelfRepository.downloadDir = some "out" ∧
    Path.IsChild "out" (target "out" (shelved "1.0") 0) ∧
    ((shelfRepository.targets "out"
      [(shelved "1.0", shelf "1.0"), (shelved "1.0", shelf "1.0")]).map Path.parts).Nodup := by
  have hlaws : DownloadLaws shelfRepository "out" := downloadLaws rfl
  have hinfo : shelfRepository.fetch "x-0" (shelf "1.0") = .ok (some (shelved "1.0")) := by decide +kernel
  exact ⟨rfl, (hlaws.contained _ _ _ hinfo 0).mpr (by decide), hlaws.run _⟩

/-- A version that leads up and down again can make the artifact itself the target. The download writes over
it, and when the copy is given up nothing is left of it. -/
theorem not_isChild_climbing :
    shelfRepository.fetch "x-0" (shelf "1/../../repo/x") = .ok (some (shelved "1/../../repo/x")) ∧
    target "out" (shelved "1/../../repo/x") 0 = "out/x-0-1/../../repo/x-0" ∧
    ¬ Path.IsChild "out" (target "out" (shelved "1/../../repo/x") 0) ∧
    (shelf "1/../../repo/x").isThere "repo/x-0" = true ∧
    (shelfRepository.download (shelved "1/../../repo/x") (shelf "1/../../repo/x")).1.1 =
      .ok ⟨"out/x-0-1/../../repo/x-0", true⟩ ∧
    ((ExtractedArtifact.ofDownload ⟨"out/x-0-1/../../repo/x-0", true⟩).close
      (shelfRepository.download (shelved "1/../../repo/x") (shelf "1/../../repo/x")).2).2.isThere
        "repo/x-0" = false := by
  have hinfo : shelfRepository.fetch "x-0" (shelf "1/../../repo/x") =
      .ok (some (shelved "1/../../repo/x")) := by decide +kernel
  refine ⟨hinfo, by decide +kernel, ?_, by decide +kernel, by decide +kernel, by decide +kernel⟩
  rw [isChild_target_iff (slash_not_mem_id hinfo)]
  decide

end Linkage.LocalRepository

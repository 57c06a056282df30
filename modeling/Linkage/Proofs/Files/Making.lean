import Linkage.Proofs.Files.Ways

/-!
# Making, copying and removing

What the work on files does to a tree, said by the kinds of what stands at its places.

* **`Grows`**, **`makeDirectories_spec`** — making a directory makes directories on the way to it where nothing
  stood, and changes nothing else, also where it goes wrong;
* **`Confined`**, **`confined_copy`** — a copy stays where it is put, and no directory is lost by it;
* **`removeDirectory_spec`** — where a path does not lead through the directory itself, removing the directory
  takes it away with all that is in it, and nothing else.
-/

namespace Linkage.FileTree

variable {t t' t'' : FileTree} {p q : Place} {path : String} {pieces : List String} {made made' : List Place}

/-! ## Making directories -/

/-- Nothing changes but that there are directories now at some places where there was nothing. -/
def Grows (t t' : FileTree) (made : List Place) : Prop :=
  ∀ p, t'.kind? p = t.kind? p ∨ (p ∈ made ∧ t.kind? p = none ∧ t'.kind? p = some .directory)

namespace Grows

theorem refl (t : FileTree) (made : List Place) : t.Grows t made := fun _ => Or.inl rfl

theorem trans (h : t.Grows t' made) (h' : t'.Grows t'' made) : t.Grows t'' made := by
  intro p
  rcases h p with hsame | ⟨hp, hnone, hthere⟩
  · rw [← hsame]
    exact h' p
  · rcases h' p with hsame | ⟨-, hnone', -⟩
    · exact Or.inr ⟨hp, hnone, hsame.trans hthere⟩
    · rw [hthere] at hnone'
      cases hnone'

theorem mono (h : t.Grows t' made) (hsub : ∀ p ∈ made, p ∈ made') : t.Grows t' made' :=
  fun p => (h p).imp_right fun ⟨hp, hkinds⟩ => ⟨hsub p hp, hkinds⟩

/-- What is there stays as it is. -/
theorem kind?_eq (h : t.Grows t' made) (hp : t.kind? p ≠ none) : t'.kind? p = t.kind? p :=
  (h p).elim id fun ⟨_, hnone, _⟩ => absurd hnone hp

theorem stays (h : t.Grows t' made) (hp : t.kind? p ≠ none) : t'.kind? p ≠ none := by
  rwa [h.kind?_eq hp]

theorem directory (h : t.Grows t' made) (hp : t.kind? p = some .directory) :
    t'.kind? p = some .directory := by
  rw [h.kind?_eq (by rw [hp]; exact nofun), hp]

theorem passable (h : t.Grows t' made) (hpassable : t.Passable q pieces) : t'.Passable q pieces :=
  ⟨fun p hp => h.directory (hpassable.stops p hp), hpassable.short⟩

theorem named (h : t.Grows t' made) (hnamed : t.Named)
    (hmade : ∀ p ∈ made, ∀ name ∈ p, Path.IsName name) : t'.Named := by
  intro p hp
  rcases h p with hsame | ⟨hmem, -, -⟩
  · exact hnamed p (by rwa [← hsame])
  · exact hmade p hmem

end Grows

/-- The pieces lead to a directory. -/
structure LeadsThere (t : FileTree) (pieces : List String) : Prop where
  passable : t.Passable [] pieces
  directory : t.kind? (Path.resolve [] pieces) = some .directory

theorem leadsToDirectory_iff : t.leadsToDirectory pieces = true ↔ t.LeadsThere pieces := by
  unfold leadsToDirectory
  cases hfollow : t.follow [] pieces with
  | error fault =>
      refine ⟨fun h => (by cases h), fun h => ?_⟩
      rw [(follow_eq_ok_iff .root).mpr ⟨rfl, h.passable⟩] at hfollow
      cases hfollow
  | ok p =>
      obtain ⟨rfl, hpassable⟩ := (follow_eq_ok_iff .root).mp hfollow
      have hkind : (t.at? (Path.resolve [] pieces)).any (·.isDirectory) = true ↔
          t.kind? (Path.resolve [] pieces) = some .directory := by
        rw [kind?_eq_directory_iff]
        cases t.at? (Path.resolve [] pieces) with
        | none => simp
        | some node => cases node <;> simp [FileNode.isDirectory]
      rw [hkind]
      exact ⟨fun h => ⟨hpassable, h⟩, fun h => h.directory⟩

/-- A directory that was made is there now, and nothing else has changed. -/
theorem of_makeDirectory (h : t.makeDirectory pieces = .ok t') :
    t.Grows t' [Path.resolve [] pieces] ∧ t'.LeadsThere pieces := by
  unfold makeDirectory at h
  cases hfollow : t.follow [] pieces with
  | error fault =>
      rw [hfollow] at h
      cases h
  | ok p =>
      obtain ⟨rfl, hpassable⟩ := (follow_eq_ok_iff .root).mp hfollow
      cases hat : t.at? (Path.resolve [] pieces) with
      | some node =>
          simp only [hfollow, bind, Except.bind, hat] at h
          cases h
      | none =>
          simp only [hfollow, bind, Except.bind, hat, pure, Except.pure, Except.ok.injEq] at h
          subst h
          have hnone : t.kind? (Path.resolve [] pieces) = none := kind?_eq_none_iff.mpr hat
          have hthere : (t.put (Path.resolve [] pieces) (.directory Table.empty)).kind?
              (Path.resolve [] pieces) = some .directory := by
            rcases List.eq_nil_or_concat (Path.resolve [] pieces) with hroot | ⟨above, name, hplace⟩
            · rw [hroot]
              exact kind?_root _
            · rw [hplace, List.concat_eq_append]
              rw [List.concat_eq_append] at hplace
              exact kind?_put_self (hpassable.above hplace) name _
          have hgrows : t.Grows (t.put (Path.resolve [] pieces) (.directory Table.empty))
              [Path.resolve [] pieces] := by
            intro p
            by_cases hp : p = Path.resolve [] pieces
            · rw [hp]
              exact Or.inr ⟨List.mem_singleton.mpr rfl, hnone, hthere⟩
            · refine Or.inl (kind?_put_of_ne FileNode.isLeaf_empty ?_ hp)
              rw [hnone]
              exact nofun
          exact ⟨hgrows, hgrows.passable hpassable, hthere⟩

theorem of_ensureDirectory (h : t.ensureDirectory pieces = .ok t') :
    t.Grows t' [Path.resolve [] pieces] ∧ t'.LeadsThere pieces := by
  unfold ensureDirectory at h
  split at h
  · next made hmade =>
      obtain rfl := Except.ok.inj h
      exact of_makeDirectory hmade
  · split at h
    · next hthere =>
        obtain rfl := Except.ok.inj h
        exact ⟨Grows.refl t _, leadsToDirectory_iff.mp hthere⟩
    · cases h

/-- What making directories on a way comes to. -/
structure Makes (t : FileTree) (pieces : List String) (made : Except FileFault Unit × FileTree) : Prop where
  grows : t.Grows made.2 (Path.stops [] pieces ++ [Path.resolve [] pieces])
  /-- If it goes wrong, it has not come to the end of the way. -/
  failed : ∀ fault, made.1 = .error fault → t.Grows made.2 (Path.stops [] pieces)
  leads : made.1 = .ok () → made.2.LeadsThere pieces

theorem makes_ensured (h : t.ensureDirectory pieces = .ok t') : t.Makes pieces (.ok (), t') := by
  obtain ⟨hgrows, hleads⟩ := of_ensureDirectory h
  exact ⟨hgrows.mono fun p hp => List.mem_append_right _ hp, nofun, fun _ => hleads⟩

theorem makes_refused (t : FileTree) (pieces : List String) (fault : FileFault) :
    t.Makes pieces (.error fault, t) :=
  ⟨Grows.refl t _, fun _ _ => Grows.refl t _, nofun⟩

theorem ensureDirectories_spec (t : FileTree) (above : List String) :
    t.Makes above.reverse (t.ensureDirectories above) := by
  induction above generalizing t with
  | nil =>
      unfold ensureDirectories
      split
      · next made hmade => exact makes_ensured hmade
      · next heq => cases heq
      · next fault hfault _ => exact makes_refused t _ fault
  | cons piece rest ih =>
      unfold ensureDirectories
      split
      · next made hmade => exact makes_ensured hmade
      · next piece' rest' hmissing heq =>
          obtain ⟨rfl, rfl⟩ := List.cons.inj heq
          -- the way to the directory above is a part of the way
          have hway : ∀ p ∈ Path.stops [] rest.reverse ++ [Path.resolve [] rest.reverse],
              p ∈ Path.stops [] (piece :: rest).reverse := by
            intro p hp
            rwa [List.reverse_cons, Path.stops_concat]
          have habove := ih t
          split
          · next fault t₁ hmade =>
              rw [hmade] at habove
              have hgrows := habove.grows.mono hway
              exact ⟨hgrows.mono fun p hp => List.mem_append_left _ hp, fun _ _ => hgrows, nofun⟩
          · next t₁ hmade =>
              rw [hmade] at habove
              have hgrows := habove.grows.mono hway
              have hwhole : t.Grows t₁ (Path.stops [] (piece :: rest).reverse ++
                  [Path.resolve [] (piece :: rest).reverse]) :=
                hgrows.mono fun p hp => List.mem_append_left _ hp
              split
              · next made hmade' =>
                  have hlast := makes_ensured hmade'
                  exact ⟨hwhole.trans hlast.grows, nofun, hlast.leads⟩
              · next fault hfault => exact ⟨hwhole, fun _ _ => hgrows, nofun⟩
      · next fault _ _ => exact makes_refused t _ fault

/-- Making the directory at a path: if that goes well, the path leads to a directory. -/
theorem makeDirectories_spec (t : FileTree) (path : String) :
    t.Grows (t.makeDirectories path).2 (Path.way path) ∧
      (∀ fault, (t.makeDirectories path).1 = .error fault →
        t.Grows (t.makeDirectories path).2 (Path.stops [] (Path.pieces path))) ∧
      ((t.makeDirectories path).1 = .ok () → path ≠ "" →
        (t.makeDirectories path).2.Accessible path ∧
          (t.makeDirectories path).2.kind? (Path.place path) = some .directory) := by
  unfold makeDirectories
  cases hfits : refusal? path with
  | some fault => exact ⟨Grows.refl t _, fun _ _ => Grows.refl t _, nofun⟩
  | none =>
      obtain ⟨hgrows, hfailed, hleads⟩ := ensureDirectories_spec t (Path.steps path).reverse
      rw [List.reverse_reverse, Path.steps_eq] at hgrows hfailed hleads
      have hplace : Path.resolve [] ((Path.pieces path).filter Path.tells) = Path.place path :=
        Path.resolve_filter [] _
      rw [hplace] at hgrows
      refine ⟨hgrows.mono fun p hp => ?_, fun fault hfault => (hfailed fault hfault).mono fun p hp => ?_,
        fun hok hne => ?_⟩
      · refine List.mem_append.mpr ((List.mem_append.mp hp).imp_left Path.mem_stops_of_filter)
      · exact Path.mem_stops_of_filter hp
      · obtain ⟨hpassable, hdirectory⟩ := hleads hok
        rw [hplace] at hdirectory
        refine ⟨⟨hfits, hne, fun p hp => ?_, fun piece hpiece => ?_⟩, hdirectory⟩
        · rcases Path.mem_stops_filter hp with hp | rfl
          · exact hpassable.stops p hp
          · exact hdirectory
        · cases htells : Path.tells piece with
          | true => exact hpassable.short piece (List.mem_filter.mpr ⟨hpiece, htells⟩)
          | false =>
              have hskip : piece = "" ∨ piece = "." := by
                simpa [Path.tells, or_iff_not_imp_left] using htells
              rcases hskip with rfl | rfl <;> decide

/-! ## Copying -/

/-- A change keeps to a place and what is below it; directories stay, nothing is taken away, and names are names. -/
structure Confined (t t' : FileTree) (base : Place) : Prop where
  outside : ∀ p, ¬ base <+: p → t'.kind? p = t.kind? p
  directories : ∀ p, t.kind? p = some .directory → t'.kind? p = some .directory
  stays : ∀ p, t.kind? p ≠ none → t'.kind? p ≠ none
  named : t.Named → t'.Named

namespace Confined

variable {base : Place}

theorem refl (t : FileTree) (base : Place) : t.Confined t base := ⟨fun _ _ => rfl, fun _ => id, fun _ => id, id⟩

theorem trans (h : t.Confined t' base) (h' : t'.Confined t'' base) : t.Confined t'' base :=
  ⟨fun p hp => (h'.outside p hp).trans (h.outside p hp), fun p hp => h'.directories p (h.directories p hp),
    fun p hp => h'.stays p (h.stays p hp), fun hnamed => h'.named (h.named hnamed)⟩

theorem accessible (h : t.Confined t' base) (haccess : t.Accessible path) : t'.Accessible path :=
  haccess.mono fun p _ => h.directories p

end Confined

/-- A file is written where no directory is. -/
theorem of_write {bytes : List UInt8} (h : t.write path bytes = .ok t') :
    t.Accessible path ∧ t.kind? (Path.place path) ≠ some .directory ∧
      t' = t.put (Path.place path) (.file bytes) := by
  unfold write at h
  cases hlocate : t.locate path with
  | error fault =>
      rw [hlocate] at h
      cases h
  | ok p =>
      obtain ⟨rfl, haccess⟩ := locate_eq_ok_iff.mp hlocate
      simp only [hlocate, bind, Except.bind, pure, Except.pure] at h
      split at h
      · cases h
      · next hnot =>
          refine ⟨haccess, ?_, (Except.ok.inj h).symm⟩
          intro hdirectory
          obtain ⟨entries, hentries⟩ := kind?_eq_directory_iff.mp hdirectory
          exact hnot entries hentries

theorem confined_write {bytes : List UInt8} (h : t.write path bytes = .ok t') :
    t.Confined t' (Path.place path) := by
  obtain ⟨-, hfree, rfl⟩ := of_write h
  have hothers : ∀ p, p ≠ Path.place path →
      (t.put (Path.place path) (.file bytes)).kind? p = t.kind? p :=
    fun p hp => kind?_put_of_ne (FileNode.isLeaf_file bytes) hfree hp
  refine ⟨fun p hp => hothers p ?_, fun p hp => ?_,
    fun p => kind?_put_ne_none (FileNode.isLeaf_file bytes) hfree, fun hnamed => ?_⟩
  · rintro rfl
    exact hp List.prefix_rfl
  · rw [hothers p fun heq => hfree (heq ▸ hp), hp]
  · exact hnamed.put (FileNode.isLeaf_file bytes) hfree
      (Path.isName_of_mem_way (List.mem_append_right _ (List.mem_singleton.mpr rfl)))

theorem confined_copy {source : String} (h : t.copy source path = .ok t') :
    t.Confined t' (Path.place path) := by
  unfold copy at h
  cases hread : t.read source with
  | error fault =>
      rw [hread] at h
      cases h
  | ok bytes =>
      cases hemptied : t.write path [] with
      | error fault =>
          simp only [hread, bind, Except.bind, hemptied] at h
          cases h
      | ok emptied =>
          simp only [hread, bind, Except.bind, hemptied] at h
          split at h
          · cases h
          · exact (confined_write hemptied).trans (confined_write h)

/-! ## Removing -/

/-- A directory with nothing in it is taken away where its path ends in a name. -/
theorem removeEmpty_of_endsInName {p : Place} (hends : Path.EndsInName path)
    (h : t.lookup path = .ok (p, .directory Table.empty)) : t.removeEmpty path = .ok (t.erase p) := by
  obtain ⟨before, name, hpieces, hname⟩ := hends
  have hlast : Path.lastPiece? path = some name := by
    unfold Path.lastPiece?
    rw [hpieces, List.reverse_concat, List.find?_cons_of_pos (by simpa using hname.nonempty)]
  unfold removeEmpty
  rw [h]
  simp only [bind, Except.bind, hlast]
  split
  · next heq => exact absurd (Option.some.inj heq) hname.notSame
  · next heq => exact absurd (Option.some.inj heq) hname.notAbove
  · next htuple _ _ => cases htuple
  · next q entries htuple _ _ =>
      injection htuple with hp hnode
      injection hnode with hnode
      subst hp hnode
      rfl

/-- A directory whose path ends in a name and does not lead through it is removed with all that is in it, and
nothing else is. -/
theorem removeDirectory_spec (hends : Path.EndsInName path) (haccess : t.Accessible path)
    (hdirectory : t.kind? (Path.place path) = some .directory)
    (hstraight : ∀ p ∈ Path.stops [] (Path.pieces path), ¬ Path.place path <+: p) :
    (∀ p, Path.place path <+: p → (t.removeDirectory path).2.kind? p = none) ∧
      ∀ p, ¬ Path.place path <+: p → (t.removeDirectory path).2.kind? p = t.kind? p := by
  obtain ⟨entries, hentries⟩ := kind?_eq_directory_iff.mp hdirectory
  have hoff : ∀ p, ¬ Path.place path <+: p → (t.clear (Path.place path)).kind? p = t.kind? p :=
    fun p hp => kind?_clear_of_not_below fun hpre => absurd hpre hp
  -- the path leads to the directory still when nothing is in it any more
  have hcleared : (t.clear (Path.place path)).lookup path =
      .ok (Path.place path, .directory Table.empty) := by
    refine lookup_eq_ok_iff.mpr ⟨rfl, haccess.mono fun p hp hthere => ?_, ?_⟩
    · rw [hoff p (hstraight p hp), hthere]
    · have hbelow := at?_change_below (f := fun _ => Table.empty) hentries []
      rwa [List.append_nil] at hbelow
  have hremoved : (t.removeDirectory path).2 = (t.clear (Path.place path)).erase (Path.place path) := by
    unfold removeDirectory
    rw [lookup_eq_ok_iff.mpr ⟨rfl, haccess, hentries⟩]
    simp only [removeEmpty_of_endsInName hends hcleared]
  obtain ⟨before, name, hpieces, hname⟩ := hends
  have hplace : Path.place path = Path.resolve [] before ++ [name] := by
    unfold Path.place
    rw [hpieces, Path.resolve_concat, hname.goOn]
  rw [hremoved]
  constructor
  · intro p hp
    rw [hplace] at hp ⊢
    exact kind?_erase_below hp
  · intro p hp
    rw [← hoff p hp]
    rw [hplace] at hp ⊢
    exact kind?_erase_of_not_below hp

end Linkage.FileTree

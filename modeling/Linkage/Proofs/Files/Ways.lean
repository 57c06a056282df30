import Linkage.Proofs.Files.Kinds

/-!
# Where paths lead

The pieces of a path alone tell the place that it leads to; what stands in the tree only tells whether one gets
there. The places that the pieces are followed from must be directories, all of them, also where the path leads
back up.

* **`Path.place`** — where a path leads to;
* **`Path.stops`**, **`Path.way`** — the places on the way;
* **`FileTree.Accessible`**, **`locate_eq_ok_iff`** — a path is followed to its end exactly if all stops are
  directories and nothing is too long;
* **`isThere_iff`**, **`isDirectory_iff`** — what can be seen through a path.
-/

namespace Linkage

/-! ## Places -/

namespace Path

variable {q : Place} {xs ys : List String} {name path : String}

/-- Where one piece more leads to. -/
def goOn (q : Place) (piece : String) : Place :=
  if piece = "" ∨ piece = "." then q else if piece = ".." then q.dropLast else q ++ [piece]

/-- Where pieces lead to from a place. -/
def resolve (q : Place) (pieces : List String) : Place := pieces.foldl goOn q

/-- Where a path leads to. -/
def place (path : String) : Place := resolve [] (pieces path)

/-- The places that pieces are followed from, one for each of them. -/
def stops : Place → List String → List Place
  | _, [] => []
  | q, piece :: rest => q :: stops (goOn q piece) rest

/-- The places on the way of a path, with its end. -/
def way (path : String) : List Place := stops [] (pieces path) ++ [place path]

@[simp] theorem goOn_empty (q : Place) : goOn q "" = q := by simp [goOn]

theorem goOn_skip {piece : String} (h : piece = "" ∨ piece = ".") (q : Place) : goOn q piece = q :=
  if_pos h

theorem IsName.goOn (h : IsName name) (q : Place) : Path.goOn q name = q ++ [name] := by
  unfold Path.goOn
  rw [if_neg (fun hor => hor.elim h.nonempty h.notSame), if_neg h.notAbove]

theorem resolve_append (q : Place) (xs ys : List String) :
    resolve q (xs ++ ys) = resolve (resolve q xs) ys := List.foldl_append

theorem resolve_concat (q : Place) (xs : List String) (piece : String) :
    resolve q (xs ++ [piece]) = goOn (resolve q xs) piece := resolve_append q xs [piece]

/-- Names lead down. -/
theorem resolve_names (h : ∀ name ∈ xs, IsName name) (q : Place) : resolve q xs = q ++ xs := by
  induction xs generalizing q with
  | nil => exact (List.append_nil q).symm
  | cons name xs ih =>
      have hname := h name List.mem_cons_self
      show resolve (goOn q name) xs = _
      rw [hname.goOn, ih (fun n hn => h n (List.mem_cons_of_mem _ hn)), List.append_assoc]
      rfl

theorem stops_append (q : Place) (xs ys : List String) :
    stops q (xs ++ ys) = stops q xs ++ stops (resolve q xs) ys := by
  induction xs generalizing q with
  | nil => rfl
  | cons x xs ih =>
      show q :: stops (goOn q x) (xs ++ ys) = q :: stops (goOn q x) xs ++ _
      rw [ih]
      rfl

theorem stops_concat (q : Place) (xs : List String) (piece : String) :
    stops q (xs ++ [piece]) = stops q xs ++ [resolve q xs] := stops_append q xs [piece]

/-- The way of names goes down to where they lead. -/
theorem prefix_of_mem_stops_names (h : ∀ name ∈ xs, IsName name) {p : Place} (hp : p ∈ stops q xs) :
    q <+: p := by
  induction xs generalizing q with
  | nil => cases hp
  | cons name xs ih =>
      rcases List.mem_cons.mp hp with rfl | hp
      · exact List.prefix_rfl
      · rw [(h name List.mem_cons_self).goOn] at hp
        exact (List.prefix_append q [name]).trans
          (ih (fun n hn => h n (List.mem_cons_of_mem _ hn)) hp)

/-! ### Pieces that say nothing -/

/-- A piece that says something. -/
def tells (piece : String) : Bool := piece ≠ "" && piece ≠ "."

theorem steps_eq (path : String) : steps path = (pieces path).filter tells := rfl

theorem goOn_of_not_tells {piece : String} (h : tells piece = false) (q : Place) : goOn q piece = q := by
  refine goOn_skip ?_ q
  simpa [tells, or_iff_not_imp_left] using h

theorem resolve_filter (q : Place) (xs : List String) : resolve q (xs.filter tells) = resolve q xs := by
  induction xs generalizing q with
  | nil => rfl
  | cons x xs ih =>
      rw [List.filter_cons]
      cases hx : tells x with
      | false =>
          show resolve q (xs.filter tells) = resolve (goOn q x) xs
          rw [ih, goOn_of_not_tells hx]
      | true => exact ih (goOn q x)

theorem mem_stops_of_filter {p : Place} (h : p ∈ stops q (xs.filter tells)) : p ∈ stops q xs := by
  induction xs generalizing q with
  | nil => exact h
  | cons x xs ih =>
      rw [List.filter_cons] at h
      cases hx : tells x with
      | false =>
          rw [hx] at h
          refine List.mem_cons_of_mem _ ?_
          rw [goOn_of_not_tells hx]
          exact ih h
      | true =>
          rw [hx] at h
          exact (List.mem_cons.mp h).elim (fun heq => heq ▸ List.mem_cons_self)
            (fun h => List.mem_cons_of_mem _ (ih h))

/-- Pieces that say nothing are followed from where the others lead to or from. -/
theorem mem_stops_filter {p : Place} (h : p ∈ stops q xs) :
    p ∈ stops q (xs.filter tells) ∨ p = resolve q xs := by
  induction xs generalizing q with
  | nil => cases h
  | cons x xs ih =>
      rw [List.filter_cons]
      cases hx : tells x with
      | false =>
          have hskip := goOn_of_not_tells hx q
          have hstops : stops q (x :: xs) = q :: stops q xs := by rw [stops, hskip]
          have hresolve : resolve q (x :: xs) = resolve q xs := by
            show resolve (goOn q x) xs = _
            rw [hskip]
          rw [hresolve]
          rw [hstops] at h
          rcases List.mem_cons.mp h with rfl | h
          · -- the place itself is a stop, unless nothing that follows leads on
            cases hrest : xs.filter tells with
            | nil =>
                refine Or.inr ?_
                rw [← resolve_filter, hrest]
                rfl
            | cons y ys => exact Or.inl List.mem_cons_self
          · exact ih h
      | true =>
          rcases List.mem_cons.mp h with rfl | h
          · exact Or.inl List.mem_cons_self
          · exact (ih h).imp_left (List.mem_cons_of_mem _)

/-! ### Names on the way -/

theorem slash_not_mem_splitOn {cs : List Char} {w : List Char} (h : w ∈ Text.splitOn '/' cs) :
    '/' ∉ w := by
  induction cs generalizing w with
  | nil =>
      rw [List.mem_singleton.mp h]
      exact List.not_mem_nil
  | cons c cs ih =>
      rw [Text.splitOn] at h
      split at h
      · rcases List.mem_cons.mp h with rfl | h
        · exact List.not_mem_nil
        · exact ih h
      · next hc =>
          split at h
          · next piece rest hsplit =>
              rw [hsplit] at ih
              rcases List.mem_cons.mp h with rfl | h
              · rw [List.mem_cons, not_or]
                exact ⟨Ne.symm hc, ih List.mem_cons_self⟩
              · exact ih (List.mem_cons_of_mem _ h)
          · rw [List.mem_singleton.mp h, List.mem_singleton]
            exact Ne.symm hc

/-- There are no slashes in pieces. -/
theorem slash_not_mem_piece {piece : String} (h : piece ∈ pieces path) : '/' ∉ piece.toList := by
  obtain ⟨w, hw, rfl⟩ := List.mem_map.mp h
  rw [String.toList_ofList]
  exact slash_not_mem_splitOn hw

/-- One piece more leads to names only. -/
theorem isName_of_mem_goOn {piece : String} (hq : ∀ name ∈ q, IsName name) (hpiece : '/' ∉ piece.toList) :
    ∀ name ∈ goOn q piece, IsName name := by
  intro name hname
  unfold goOn at hname
  split at hname
  · exact hq name hname
  · next hskip =>
      obtain ⟨hnonempty, hnotSame⟩ := not_or.mp hskip
      split at hname
      · exact hq name (List.dropLast_subset q hname)
      · next hnotAbove =>
          rcases List.mem_append.mp hname with hname | hname
          · exact hq name hname
          · rw [List.mem_singleton.mp hname]
            exact ⟨hpiece, hnonempty, hnotSame, hnotAbove⟩

/-- On the way of a path there are names only. -/
theorem isName_of_mem_stops (hq : ∀ name ∈ q, IsName name) (hxs : ∀ piece ∈ xs, '/' ∉ piece.toList)
    {p : Place} (hp : p ∈ stops q xs ++ [resolve q xs]) : ∀ name ∈ p, IsName name := by
  induction xs generalizing q with
  | nil =>
      rw [List.mem_singleton.mp hp]
      exact hq
  | cons x xs ih =>
      have hpieces : ∀ piece ∈ xs, '/' ∉ piece.toList := fun piece h => hxs piece (List.mem_cons_of_mem _ h)
      rcases List.mem_cons.mp hp with rfl | hp
      · exact hq
      · exact ih (isName_of_mem_goOn hq (hxs x List.mem_cons_self)) hpieces hp

theorem isName_of_mem_way {p : Place} (hp : p ∈ way path) : ∀ name ∈ p, IsName name :=
  isName_of_mem_stops (fun _ h => absurd h List.not_mem_nil) (fun _ h => slash_not_mem_piece h) hp

/-! ### Joined paths -/

/-- A name joined to any directory comes after the pieces that lead there. -/
theorem pieces_join_name (hname : IsName name) (dir : String) :
    ∃ front, pieces (join dir name) = front ++ [name] ∧
      (pieces dir = front ∨ pieces dir = front ++ [""]) := by
  by_cases hdir : dir = ""
  · subst hdir
    refine ⟨[], ?_, Or.inr rfl⟩
    unfold join
    rw [if_pos (Or.inr rfl), pieces_of_name hname.single]
    rfl
  · obtain ⟨front, -, hjoined, hfront⟩ := pieces_join hname.startsWithin.isAbsolute_eq hdir
    exact ⟨front, by rw [hjoined, pieces_of_name hname.single], hfront⟩

theorem place_join_name (hname : IsName name) (dir : String) : place (join dir name) = place dir ++ [name] := by
  obtain ⟨front, hjoined, hfront⟩ := pieces_join_name hname dir
  have hdir : place dir = resolve [] front := by
    unfold place
    rcases hfront with hfront | hfront
    · rw [hfront]
    · rw [hfront, resolve_concat, goOn_empty]
  rw [hdir, ← hname.goOn, ← resolve_concat]
  unfold place
  rw [hjoined]

/-- The last piece of a path is a name. -/
def EndsInName (path : String) : Prop := ∃ before name, pieces path = before ++ [name] ∧ IsName name

theorem EndsInName.nonempty (h : EndsInName path) : path ≠ "" := by
  rintro rfl
  obtain ⟨before, name, hpieces, hname⟩ := h
  have hlast := congrArg List.getLast? hpieces
  rw [List.getLast?_concat] at hlast
  exact hname.nonempty (Option.some.inj hlast).symm

/-- After a name nothing is left out of the pieces. -/
theorem EndsInName.pieces_join (h : EndsInName path) (hname : IsName name) :
    pieces (join path name) = pieces path ++ [name] := by
  obtain ⟨front, hjoined, hfront | hfront⟩ := pieces_join_name hname path
  · rw [hjoined, hfront]
  · obtain ⟨before, last, hpieces, hlast⟩ := h
    have hempty := congrArg List.getLast? (hpieces.symm.trans hfront)
    rw [List.getLast?_concat, List.getLast?_concat] at hempty
    exact absurd (Option.some.inj hempty) hlast.nonempty

theorem endsInName_join (hname : IsName name) (dir : String) : EndsInName (join dir name) := by
  obtain ⟨front, hjoined, -⟩ := pieces_join_name hname dir
  exact ⟨front, name, hjoined, hname⟩

/-- To something in a directory one comes by the way of the directory. -/
theorem mem_way_of_mem_stops_join (hname : IsName name) {dir : String} {p : Place}
    (hp : p ∈ stops [] (pieces (join dir name))) : p ∈ way dir := by
  obtain ⟨front, hjoined, hfront⟩ := pieces_join_name hname dir
  rw [hjoined, stops_concat] at hp
  unfold way place
  rcases hfront with hfront | hfront
  · rw [hfront]
    exact hp
  · rw [hfront, stops_concat]
    exact List.mem_append_left _ hp

/-! ### Paths that do not lead back up -/

/-- The way of a path does not lead through a place. -/
def avoids (path : String) (p : Place) : Bool := (way path).all fun q => !p.isPrefixOf q

theorem not_prefix_of_avoids {p : Place} (h : avoids path p = true) (hq : q ∈ way path) : ¬ p <+: q := by
  intro hpre
  have hnot := List.all_eq_true.mp h q hq
  rw [List.isPrefixOf_iff_prefix.mpr hpre] at hnot
  cases hnot

theorem prefix_goOn {piece : String} (h : piece ≠ "..") (q : Place) : q <+: goOn q piece := by
  unfold goOn
  split
  · exact List.prefix_rfl
  · exact List.prefix_append q [piece]

theorem prefix_resolve (h : ".." ∉ xs) (q : Place) : q <+: resolve q xs := by
  induction xs generalizing q with
  | nil => exact List.prefix_rfl
  | cons x xs ih =>
      rw [List.mem_cons, not_or] at h
      exact (prefix_goOn (Ne.symm h.1) q).trans (ih h.2 (goOn q x))

theorem stop_prefix_resolve (h : ".." ∉ xs) {p : Place} (hp : p ∈ stops q xs) : p <+: resolve q xs := by
  induction xs generalizing q with
  | nil => cases hp
  | cons x xs ih =>
      rcases List.mem_cons.mp hp with rfl | hp
      · exact prefix_resolve h p
      · exact ih (fun hmem => h (List.mem_cons_of_mem _ hmem)) hp

/-- A path that does not lead back up does not lead through what is in its directory. -/
theorem avoids_of_no_up (h : ".." ∉ pieces path) (name : String) : avoids path (place path ++ [name]) = true := by
  refine List.all_eq_true.mpr fun q hq => ?_
  rw [Bool.not_eq_true', Bool.eq_false_iff, ne_eq, List.isPrefixOf_iff_prefix]
  intro hpre
  have hlength : q.length ≤ (place path).length := by
    rcases List.mem_append.mp hq with hq | hq
    · exact (stop_prefix_resolve h hq).length_le
    · exact Nat.le_of_eq (congrArg List.length (List.mem_singleton.mp hq))
  have hlonger := hpre.length_le
  rw [List.length_append, List.length_singleton] at hlonger
  omega

end Path

/-! ## Following paths -/

namespace FileTree

variable {t t' : FileTree} {trail : List (String × Option FileNode)} {p q : Place} {path : String}

/-- The trail holds what stands on the way down to a place. -/
inductive OnTrail (t : FileTree) : List (String × Option FileNode) → Place → Prop
  | root : OnTrail t [] []
  | down {trail : List (String × Option FileNode)} {q : Place} (h : OnTrail t trail q) (name : String) :
      OnTrail t ((name, t.at? (q ++ [name])) :: trail) (q ++ [name])

namespace OnTrail

theorem names (h : t.OnTrail trail q) : trail.reverse.map (·.1) = q := by
  induction h with
  | root => rfl
  | down h name ih => simp [ih]

/-- The end of the trail shows what stands there. -/
theorem standing (h : t.OnTrail trail q) : trail.head?.elim (some t.root) (·.2) = t.at? q := by
  cases h <;> rfl

theorem back (h : t.OnTrail trail q) : t.OnTrail trail.tail q.dropLast := by
  cases h with
  | root => exact .root
  | down h name =>
      rw [List.dropLast_concat]
      exact h

end OnTrail

/-- All stops on the way are directories, and no piece is too long. -/
structure Passable (t : FileTree) (q : Place) (pieces : List String) : Prop where
  stops : ∀ p ∈ Path.stops q pieces, t.kind? p = some .directory
  short : ∀ piece ∈ pieces, piece.utf8ByteSize ≤ nameLimit

theorem passable_nil (t : FileTree) (q : Place) : t.Passable q [] :=
  ⟨fun _ h => absurd h List.not_mem_nil, fun _ h => absurd h List.not_mem_nil⟩

theorem passable_cons_iff {piece : String} {rest : List String} :
    t.Passable q (piece :: rest) ↔ t.kind? q = some .directory ∧ piece.utf8ByteSize ≤ nameLimit ∧
      t.Passable (Path.goOn q piece) rest := by
  constructor
  · rintro ⟨hstops, hshort⟩
    exact ⟨hstops q List.mem_cons_self, hshort piece List.mem_cons_self,
      fun p hp => hstops p (List.mem_cons_of_mem _ hp), fun x hx => hshort x (List.mem_cons_of_mem _ hx)⟩
  · rintro ⟨hq, hpiece, hstops, hshort⟩
    exact ⟨List.forall_mem_cons.mpr ⟨hq, hstops⟩, List.forall_mem_cons.mpr ⟨hpiece, hshort⟩⟩

/-- From a directory a piece leads on, unless it is too long. -/
theorem advance_directory (h : t.OnTrail trail q) (hq : t.kind? q = some .directory) {piece : String}
    (hshort : piece.utf8ByteSize ≤ nameLimit) :
    ∃ trail', t.advance trail piece = .ok trail' ∧ t.OnTrail trail' (Path.goOn q piece) := by
  obtain ⟨entries, hentries⟩ := kind?_eq_directory_iff.mp hq
  unfold advance Path.goOn
  rw [h.standing, hentries]
  simp only
  split
  · exact ⟨trail, rfl, h⟩
  · split
    · exact ⟨_, rfl, h.back⟩
    · rw [if_neg (by omega)]
      have hbelow : entries.get? piece = t.at? (q ++ [piece]) := by
        rw [at?_append, hentries, Option.bind_some, FileNode.at?, at?_cons]
        cases entries.get? piece <;> simp
      rw [hbelow]
      exact ⟨_, rfl, h.down piece⟩

/-- No piece leads on from anywhere else, and none that is too long. -/
theorem of_advance {piece : String} {trail' : List (String × Option FileNode)} (h : t.OnTrail trail q)
    (hadvance : t.advance trail piece = .ok trail') :
    t.kind? q = some .directory ∧ piece.utf8ByteSize ≤ nameLimit := by
  unfold advance at hadvance
  rw [h.standing] at hadvance
  split at hadvance
  · cases hadvance
  · cases hadvance
  · next entries hentries =>
      refine ⟨kind?_eq_directory_iff.mpr ⟨entries, hentries⟩, ?_⟩
      split at hadvance
      · next hskip => rcases hskip with rfl | rfl <;> decide
      · split at hadvance
        · next habove =>
            subst habove
            decide
        · split at hadvance
          · cases hadvance
          · next hlong => exact Nat.le_of_not_lt hlong

/-- Pieces are followed to their end exactly if that is passable, and then they lead where they say. -/
theorem follow_eq_ok_iff {pieces : List String} (h : t.OnTrail trail q) :
    t.follow trail pieces = .ok p ↔ p = Path.resolve q pieces ∧ t.Passable q pieces := by
  induction pieces generalizing trail q with
  | nil =>
      rw [follow, h.names]
      constructor
      · intro heq
        exact ⟨(Except.ok.inj heq).symm, passable_nil t q⟩
      · rintro ⟨rfl, -⟩
        rfl
  | cons piece rest ih =>
      rw [follow_cons, passable_cons_iff]
      constructor
      · intro hfollow
        cases hadvance : t.advance trail piece with
        | error fault =>
            rw [hadvance] at hfollow
            cases hfollow
        | ok trail' =>
            obtain ⟨hq, hshort⟩ := of_advance h hadvance
            obtain ⟨next, hnext, htrail⟩ := advance_directory h hq hshort
            rw [hnext] at hfollow
            obtain ⟨rfl, hpassable⟩ := (ih htrail).mp hfollow
            exact ⟨rfl, hq, hshort, hpassable⟩
      · rintro ⟨rfl, hq, hshort, hpassable⟩
        obtain ⟨next, hnext, htrail⟩ := advance_directory h hq hshort
        rw [hnext]
        exact (ih htrail).mpr ⟨rfl, hpassable⟩

/-- All places above one are directories. -/
def Upheld (t : FileTree) (p : Place) : Prop := ∀ q, q <+: p → q ≠ p → t.kind? q = some .directory

theorem Upheld.goOn (h : t.Upheld q) (hq : t.kind? q = some .directory) (piece : String) :
    t.Upheld (Path.goOn q piece) := by
  unfold Path.goOn
  split
  · exact h
  · split
    · intro p hpre hne
      by_cases hsame : p = q
      · rw [hsame, hq]
      · exact h p (hpre.trans (List.dropLast_prefix q)) hsame
    · intro p hpre hne
      rcases List.prefix_concat_iff.mp hpre with rfl | hpre
      · exact absurd rfl hne
      · by_cases hsame : p = q
        · rw [hsame, hq]
        · exact h p hpre hsame

/-- Whatever can be passed leads into directories. -/
theorem Upheld.resolve (h : t.Upheld q) {pieces : List String} (hpassable : t.Passable q pieces) :
    t.Upheld (Path.resolve q pieces) := by
  induction pieces generalizing q with
  | nil => exact h
  | cons piece rest ih =>
      obtain ⟨hq, -, hrest⟩ := passable_cons_iff.mp hpassable
      exact ih (h.goOn hq piece) hrest

theorem upheld_root (t : FileTree) : t.Upheld [] := fun _ hpre hne => absurd (List.prefix_nil.mp hpre) hne

theorem Passable.above {pieces : List String} {name : String} (hpassable : t.Passable [] pieces)
    (hplace : Path.resolve [] pieces = q ++ [name]) : t.kind? q = some .directory := by
  refine t.upheld_root.resolve hpassable q ?_ ?_
  · rw [hplace]
    exact List.prefix_append q [name]
  · rw [hplace]
    exact fun heq => by simpa using congrArg List.length heq

/-! ## Access -/

/-- A path can be followed to its end. -/
structure Accessible (t : FileTree) (path : String) : Prop where
  fits : refusal? path = none
  nonempty : path ≠ ""
  passable : t.Passable [] (Path.pieces path)

theorem locate_eq_ok_iff : t.locate path = .ok p ↔ p = Path.place path ∧ t.Accessible path := by
  unfold locate
  cases hfits : refusal? path with
  | some fault =>
      refine ⟨fun h => (by cases h), fun h => ?_⟩
      rw [h.2.fits] at hfits
      cases hfits
  | none =>
      simp only
      split
      · next hempty =>
          refine ⟨fun h => (by cases h), fun h => ?_⟩
          exact absurd hempty h.2.nonempty
      · next hne =>
          rw [follow_eq_ok_iff .root]
          exact and_congr_right fun _ => ⟨fun h => ⟨hfits, hne, h⟩, fun h => h.passable⟩

/-- Where directories stay directories, paths stay accessible. -/
theorem Accessible.mono (h : t.Accessible path) (hstays : ∀ p ∈ Path.stops [] (Path.pieces path),
    t.kind? p = some .directory → t'.kind? p = some .directory) : t'.Accessible path :=
  ⟨h.fits, h.nonempty, fun p hp => hstays p hp (h.passable.stops p hp), h.passable.short⟩

theorem lookup_eq_ok_iff {node : FileNode} :
    t.lookup path = .ok (p, node) ↔ p = Path.place path ∧ t.Accessible path ∧ t.at? p = some node := by
  unfold lookup
  cases hlocate : t.locate path with
  | error fault =>
      refine ⟨fun h => (by cases h), ?_⟩
      rintro ⟨rfl, haccess, -⟩
      rw [locate_eq_ok_iff.mpr ⟨rfl, haccess⟩] at hlocate
      cases hlocate
  | ok q =>
      obtain ⟨rfl, haccess⟩ := locate_eq_ok_iff.mp hlocate
      cases hat : t.at? (Path.place path) with
      | none =>
          simp only [bind, Except.bind, hat]
          refine ⟨fun h => (by cases h), ?_⟩
          rintro ⟨rfl, -, hnode⟩
          rw [hat] at hnode
          cases hnode
      | some found =>
          simp only [bind, Except.bind, hat, pure, Except.pure, Except.ok.injEq, Prod.mk.injEq]
          constructor
          · rintro ⟨rfl, rfl⟩
            exact ⟨rfl, haccess, hat⟩
          · rintro ⟨rfl, -, hnode⟩
            exact ⟨rfl, Option.some.inj (hat.symm.trans hnode)⟩

theorem isThere_iff : t.isThere path = true ↔ t.Accessible path ∧ t.kind? (Path.place path) ≠ none := by
  have hlookup : t.isThere path = true ↔ ∃ p node, t.lookup path = .ok (p, node) := by
    unfold isThere
    cases t.lookup path with
    | error fault => simp [Except.toOption]
    | ok found => simpa [Except.toOption] using ⟨found.1, found.2, rfl⟩
  rw [hlookup]
  simp only [lookup_eq_ok_iff, ne_eq, kind?_eq_none_iff]
  constructor
  · rintro ⟨p, node, rfl, haccess, hnode⟩
    exact ⟨haccess, by rw [hnode]; exact fun h => by cases h⟩
  · rintro ⟨haccess, hthere⟩
    obtain ⟨node, hnode⟩ := Option.ne_none_iff_exists'.mp hthere
    exact ⟨_, node, rfl, haccess, hnode⟩

theorem isDirectory_iff :
    t.isDirectory path = true ↔ t.Accessible path ∧ t.kind? (Path.place path) = some .directory := by
  rw [kind?_eq_directory_iff]
  have hlookup : t.isDirectory path = true ↔ ∃ p entries, t.lookup path = .ok (p, .directory entries) := by
    unfold isDirectory
    split
    · next p entries heq => simp [heq]
    · next hother =>
        refine ⟨fun h => (by cases h), ?_⟩
        rintro ⟨p, entries, heq⟩
        exact absurd heq (hother p entries)
  rw [hlookup]
  simp only [lookup_eq_ok_iff]
  constructor
  · rintro ⟨p, entries, rfl, haccess, hat⟩
    exact ⟨haccess, entries, hat⟩
  · rintro ⟨haccess, entries, hat⟩
    exact ⟨_, entries, rfl, haccess, hat⟩

end FileTree

end Linkage

import Linkage.Files.Access
import Mathlib.Data.List.Basic

/-!
# Parts of joined paths

A path is taken apart at its slashes, so where texts are put together it is the slashes in them that decide
which parts the path has.

* **`Text.splitOn_append_first`**, **`Text.splitOn_append_last`** — the first and the last piece of a text
  that begins or ends without a separator;
* **`Path.StartsWithin`** — a path that goes on from wherever it is put;
* **`Path.parts_join`** — joined to a directory, such a path adds its steps to the parts of the directory;
* **`Path.IsChild`**, **`Path.isChild_join_iff`** — what is directly in a directory.
-/

namespace Linkage

/-! ## Pieces -/

namespace Text

variable {sep : Char} {cs ys : List Char}

/-- The pieces are those of the library. -/
theorem splitOn_eq (sep : Char) (cs : List Char) : splitOn sep cs = cs.splitOn sep := by
  induction cs with
  | nil => rfl
  | cons c cs ih =>
      rw [List.splitOn_cons_eq_if_modifyHead, splitOn, ih]
      have hne := List.splitOn_ne_nil sep cs
      cases hcs : cs.splitOn sep with
      | nil => exact absurd hcs hne
      | cons piece pieces => simp

theorem splitOn_append_first (h : sep ∉ ys) (cs : List Char) :
    ∃ w rest, splitOn sep (ys ++ cs) = (ys ++ w) :: rest := by
  rw [splitOn_eq]
  by_cases hmem : sep ∈ cs
  · obtain ⟨u, v, rfl, hu⟩ := List.eq_append_cons_of_mem hmem
    have hfirst : sep ∉ ys ++ u := by
      rw [List.mem_append]
      exact fun hor => hor.elim h hu
    refine ⟨u, v.splitOn sep, ?_⟩
    rw [← List.append_assoc, List.splitOn_append_cons_self_of_not_mem hfirst]
  · have hwhole : sep ∉ ys ++ cs := by
      rw [List.mem_append]
      exact fun hor => hor.elim h hmem
    exact ⟨cs, [], List.splitOn_eq_singleton hwhole⟩

theorem splitOn_append_last (h : sep ∉ ys) (cs : List Char) :
    ∃ front w, splitOn sep (cs ++ ys) = front ++ [w ++ ys] ∧ sep ∉ w ++ ys := by
  rw [splitOn_eq]
  by_cases hmem : sep ∈ cs
  · -- the last separator is the first one from the other end
    obtain ⟨v, u, hcs, hv⟩ := List.eq_append_cons_of_mem (List.mem_reverse.mpr hmem)
    have hlast : sep ∉ v.reverse ++ ys := by
      rw [List.mem_append, List.mem_reverse]
      exact fun hor => hor.elim hv h
    obtain rfl : cs = u.reverse ++ sep :: v.reverse := by
      rw [← cs.reverse_reverse, hcs]
      simp
    refine ⟨u.reverse.splitOn sep, v.reverse, ?_, hlast⟩
    rw [List.append_assoc, List.cons_append, List.splitOn_append_cons_self,
      List.splitOn_eq_singleton hlast]
  · have hwhole : sep ∉ cs ++ ys := by
      rw [List.mem_append]
      exact fun hor => hor.elim hmem h
    exact ⟨[], cs, List.splitOn_eq_singleton hwhole, hwhole⟩

end Text

namespace Path

variable {dir child name : String}

theorem pieces_append (front back : String) :
    pieces (front ++ "/" ++ back) = pieces front ++ pieces back := by
  have hlist : (front ++ "/" ++ back).toList = front.toList ++ '/' :: back.toList := by simp
  unfold pieces
  rw [hlist, Text.splitOn_eq, Text.splitOn_eq, Text.splitOn_eq, List.splitOn_append_cons_self,
    List.map_append]

theorem pieces_of_name (h : '/' ∉ name.toList) : pieces name = [name] := by
  unfold pieces
  rw [Text.splitOn_eq, List.splitOn_eq_singleton h, List.map_singleton, String.ofList_toList]

theorem pieces_ne_nil (path : String) : pieces path ≠ [] := by
  unfold pieces
  rw [Text.splitOn_eq]
  exact fun h => List.splitOn_ne_nil _ _ (List.map_eq_nil_iff.mp h)

/-- What a path begins with, up to the first slash, is in its first piece. -/
theorem exists_first_piece (h : '/' ∉ name.toList) (back : String) :
    ∃ w rest, pieces (name ++ back) = (name ++ w) :: rest := by
  obtain ⟨w, rest, hsplit⟩ := Text.splitOn_append_first h back.toList
  refine ⟨String.ofList w, rest.map String.ofList, ?_⟩
  unfold pieces
  rw [String.toList_append, hsplit, List.map_cons, String.ofList_append, String.ofList_toList]

/-- What a path ends in, from the last slash on, is in its last piece. -/
theorem exists_last_piece (h : '/' ∉ name.toList) (front : String) :
    ∃ before w, pieces (front ++ name) = before ++ [w ++ name] ∧ '/' ∉ (w ++ name).toList := by
  obtain ⟨before, w, hsplit, hlast⟩ := Text.splitOn_append_last h front.toList
  refine ⟨before.map String.ofList, String.ofList w, ?_, ?_⟩
  · unfold pieces
    rw [String.toList_append, hsplit, List.map_append, List.map_singleton, String.ofList_append,
      String.ofList_toList]
  · rwa [String.toList_append, String.toList_ofList]

/-! ## Joined paths -/

/-- Below a directory that is named, the pieces of a child come after those of the directory. An empty one at
the end of these is left out. -/
theorem pieces_join (hchild : isAbsolute child = false) (hdir : dir ≠ "") :
    ∃ front, front ≠ [] ∧ pieces (join dir child) = front ++ pieces child ∧
      (pieces dir = front ∨ pieces dir = front ++ [""]) := by
  have hplaced : ¬ (isAbsolute child = true ∨ dir = "") := by
    rw [hchild]
    exact fun h => h.elim nofun hdir
  unfold join
  rw [if_neg hplaced]
  split
  · next hslash =>
      obtain ⟨before, hbefore⟩ := List.getLast?_eq_some_iff.mp hslash
      obtain rfl : dir = String.ofList before ++ "/" := by
        rw [← dir.ofList_toList, hbefore, String.ofList_append]
      refine ⟨_, pieces_ne_nil _, pieces_append _ child, Or.inr ?_⟩
      have hends := pieces_append (String.ofList before) ""
      rwa [String.append_empty] at hends
  · exact ⟨_, pieces_ne_nil dir, pieces_append dir child, Or.inl rfl⟩

/-- A joined path ends in the pieces of the child, wherever that is put. -/
theorem exists_pieces_join (dir child : String) :
    ∃ front, pieces (join dir child) = front ++ pieces child := by
  by_cases hplaced : isAbsolute child = true ∨ dir = ""
  · refine ⟨[], ?_⟩
    unfold join
    rw [if_pos hplaced]
    rfl
  · obtain ⟨hchild, hdir⟩ := not_or.mp hplaced
    obtain ⟨front, -, hpieces, -⟩ := pieces_join (Bool.eq_false_iff.mpr hchild) hdir
    exact ⟨front, hpieces⟩

theorem isAbsolute_join (hchild : isAbsolute child = false) (hdir : dir ≠ "") :
    isAbsolute (join dir child) = isAbsolute dir := by
  have hplaced : ¬ (isAbsolute child = true ∨ dir = "") := by
    rw [hchild]
    exact fun h => h.elim nofun hdir
  have hbegins : ∀ s : String, isAbsolute (dir ++ s) = isAbsolute dir := by
    intro s
    have hne : dir.toList ≠ [] := fun h => hdir (String.toList_eq_nil_iff.mp h)
    unfold isAbsolute
    rw [String.toList_append, List.head?_append_of_ne_nil _ hne]
  unfold join
  rw [if_neg hplaced]
  split
  · exact hbegins child
  · rw [String.append_assoc, hbegins]

/-- A path that goes on from wherever it is put. -/
def StartsWithin (child : String) : Prop :=
  ∃ first rest, pieces child = first :: rest ∧ first ≠ "" ∧ first ≠ "."

theorem StartsWithin.isAbsolute_eq (h : StartsWithin child) : isAbsolute child = false := by
  obtain ⟨first, rest, hpieces, hfirst, -⟩ := h
  rw [Bool.eq_false_iff]
  intro habsolute
  obtain ⟨tail, hchild⟩ := List.head?_eq_some_iff.mp (decide_eq_true_iff.mp habsolute)
  unfold pieces at hpieces
  rw [hchild, Text.splitOn, if_pos rfl, List.map_cons] at hpieces
  exact hfirst (List.cons.inj hpieces).1.symm

/-- Joined to a directory, such a path adds its steps to the parts of the directory. -/
theorem parts_join (h : StartsWithin child) (dir : String) :
    parts (join dir child) = ⟨(parts dir).absolute, (parts dir).parts ++ steps child⟩ := by
  have hchild := h.isAbsolute_eq
  by_cases hdir : dir = ""
  · subst hdir
    obtain ⟨first, rest, hpieces, -, hfirst⟩ := h
    have hnone : (pieces child).head? ≠ some "." := by
      rw [hpieces, List.head?_cons]
      exact fun heq => hfirst (Option.some.inj heq)
    unfold join
    rw [if_pos (Or.inr rfl), parts, if_neg hnone, hchild]
    rfl
  · obtain ⟨front, hne, hjoined, hfront⟩ := pieces_join hchild hdir
    have hhead : (pieces (join dir child)).head? = (pieces dir).head? := by
      rw [hjoined, List.head?_append_of_ne_nil _ hne]
      rcases hfront with hfront | hfront
      · rw [hfront]
      · rw [hfront, List.head?_append_of_ne_nil _ hne]
    have hsteps : steps (join dir child) = steps dir ++ steps child := by
      unfold steps
      rw [hjoined, List.filter_append]
      rcases hfront with hfront | hfront
      · rw [hfront]
      · rw [hfront, List.filter_append]
        simp
    unfold parts
    rw [hhead, hsteps, isAbsolute_join hchild hdir]
    split <;> rfl

/-! ## What is in a directory -/

/-- A name that something in a directory can have. -/
structure IsName (name : String) : Prop where
  single : '/' ∉ name.toList
  nonempty : name ≠ ""
  notSame : name ≠ "."
  notAbove : name ≠ ".."

instance (name : String) : Decidable (IsName name) :=
  decidable_of_iff ('/' ∉ name.toList ∧ name ≠ "" ∧ name ≠ "." ∧ name ≠ "..")
    ⟨fun ⟨hsingle, hnonempty, hsame, habove⟩ => ⟨hsingle, hnonempty, hsame, habove⟩,
      fun h => ⟨h.single, h.nonempty, h.notSame, h.notAbove⟩⟩

/-- A path of something that is directly in the directory: it has the parts of the directory and one name
more. -/
def IsChild (dir path : String) : Prop :=
  ∃ name, IsName name ∧ parts path = ⟨(parts dir).absolute, (parts dir).parts ++ [name]⟩

theorem isChild_join_iff (h : StartsWithin child) :
    IsChild dir (join dir child) ↔ ∃ name, IsName name ∧ steps child = [name] := by
  unfold IsChild
  rw [parts_join h]
  refine exists_congr fun name => and_congr_right fun _ => ?_
  rw [Parts.mk.injEq, List.append_cancel_left_eq]
  exact and_iff_right rfl

theorem IsName.startsWithin (h : IsName name) : StartsWithin name :=
  ⟨name, [], pieces_of_name h.single, h.nonempty, h.notSame⟩

theorem IsName.steps_eq (h : IsName name) : steps name = [name] := by
  unfold steps
  rw [pieces_of_name h.single]
  simp [h.nonempty, h.notSame]

/-- A name at the end of a path is its last part. -/
theorem getLast?_parts {path : String} {before : List String} (hname : IsName name)
    (h : pieces path = before ++ [name]) : (parts path).parts.getLast? = some name := by
  have hsteps : steps path = before.filter (fun p => p ≠ "" && p ≠ ".") ++ [name] := by
    unfold steps
    rw [h, List.filter_append]
    simp [hname.nonempty, hname.notSame]
  unfold parts
  split
  · show ("." :: steps path).getLast? = some name
    rw [hsteps, ← List.cons_append, List.getLast?_concat]
  · rw [hsteps, List.getLast?_concat]

end Path

/-! ## Following joined paths -/

namespace FileTree

variable {t : FileTree} {p q : Place} {trail trail' : List (String × Option FileNode)} {name : String}

/-- The trail after one piece more. -/
def advance (t : FileTree) (trail : List (String × Option FileNode)) (piece : String) :
    Except FileFault (List (String × Option FileNode)) :=
  match trail.head?.elim (some t.root) (·.2) with
  | none => .error .missing
  | some (.file _) => .error .notDirectory
  | some (.directory entries) =>
    if piece = "" ∨ piece = "." then .ok trail
    else if piece = ".." then .ok trail.tail
    else if piece.utf8ByteSize > nameLimit then .error .nameTooLong
    else .ok ((piece, entries.get? piece) :: trail)

theorem follow_cons (t : FileTree) (trail : List (String × Option FileNode)) (piece : String)
    (rest : List String) :
    t.follow trail (piece :: rest) = (t.advance trail piece).bind fun trail => t.follow trail rest := by
  unfold advance
  rw [follow]
  cases trail.head?.elim (some t.root) (·.2) with
  | none => rfl
  | some node =>
      cases node with
      | file _ => rfl
      | directory entries =>
          simp only
          repeat' split
          all_goals rfl

/-- An empty piece leads no further. -/
theorem eq_of_advance_empty (h : t.advance trail "" = .ok trail') : trail' = trail := by
  unfold advance at h
  split at h
  · cases h
  · cases h
  · exact (Except.ok.inj h).symm

/-- A name leads to what has that name. -/
theorem advance_name (hname : Path.IsName name) (h : t.advance trail name = .ok trail') :
    ∃ node, trail' = (name, node) :: trail := by
  unfold advance at h
  split at h
  · cases h
  · cases h
  · rw [if_neg (fun hor => hor.elim hname.nonempty hname.notSame), if_neg hname.notAbove] at h
    split at h
    · cases h
    · exact ⟨_, (Except.ok.inj h).symm⟩

/-- Pieces are followed in two stretches. -/
theorem follow_append {xs ys : List String} (h : t.follow trail (xs ++ ys) = .ok p) :
    ∃ trail', t.follow trail xs = .ok (trail'.reverse.map (·.1)) ∧ t.follow trail' ys = .ok p := by
  induction xs generalizing trail with
  | nil => exact ⟨trail, rfl, h⟩
  | cons x xs ih =>
      rw [List.cons_append, follow_cons] at h
      rw [follow_cons]
      cases hnext : t.advance trail x with
      | error fault =>
          rw [hnext] at h
          cases h
      | ok next =>
          rw [hnext] at h
          exact ih h

/-- What the last piece leads to, if the path is followed to its end. -/
theorem follow_concat {xs : List String} (h : t.follow trail (xs ++ [name]) = .ok p) :
    ∃ before after, t.follow trail xs = .ok (before.reverse.map (·.1)) ∧
      t.advance before name = .ok after ∧ p = after.reverse.map (·.1) := by
  obtain ⟨before, hfront, hlast⟩ := follow_append h
  rw [follow_cons] at hlast
  cases hafter : t.advance before name with
  | error fault =>
      rw [hafter] at hlast
      cases hlast
  | ok after =>
      rw [hafter] at hlast
      exact ⟨before, after, hfront, hafter, (Except.ok.inj hlast).symm⟩

/-- Where the last piece is a name, the path leads to that name in whatever the others lead to. -/
theorem follow_name {xs : List String} (hname : Path.IsName name)
    (h : t.follow [] (xs ++ [name]) = .ok p) : ∃ q, t.follow [] xs = .ok q ∧ p = q ++ [name] := by
  obtain ⟨before, after, hfront, hafter, rfl⟩ := follow_concat h
  obtain ⟨node, rfl⟩ := advance_name hname hafter
  exact ⟨_, hfront, by simp⟩

theorem follow_of_locate {path : String} (h : t.locate path = .ok p) :
    path ≠ "" ∧ t.follow [] (Path.pieces path) = .ok p := by
  unfold locate at h
  split at h
  · cases h
  · split at h
    · cases h
    · next hne => exact ⟨hne, h⟩

/-- A name joined to a directory leads to that name in the directory. -/
theorem locate_child {dir : String} (hname : Path.IsName name) (hdir : t.locate dir = .ok q)
    (h : t.locate (Path.join dir name) = .ok p) : p = q ++ [name] := by
  obtain ⟨hne, hq⟩ := follow_of_locate hdir
  obtain ⟨-, hp⟩ := follow_of_locate h
  obtain ⟨front, -, hpieces, hfront⟩ := Path.pieces_join hname.startsWithin.isAbsolute_eq hne
  rw [hpieces, Path.pieces_of_name hname.single] at hp
  obtain ⟨q', hq', rfl⟩ := follow_name hname hp
  have hsame : t.follow [] front = .ok q := by
    rcases hfront with hfront | hfront
    · rw [← hfront, hq]
    · rw [hfront] at hq
      obtain ⟨before, after, hbefore, hafter, rfl⟩ := follow_concat hq
      rw [hbefore, eq_of_advance_empty hafter]
  rw [hsame] at hq'
  rw [Except.ok.inj hq']

end FileTree

end Linkage

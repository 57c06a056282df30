import Linkage.Proofs.Files.Paths
import Linkage.Proofs.Table

/-!
# What stands where

A tree of files is known by the kind of what stands at each place. What a change does to a tree is said by the
places at which the kind changes, so that several changes can be put together without a look at the tables.

* **`FileTree.kind?`** — what stands at a place, without what is below it;
* **`kind?_put_self`**, **`kind?_put_of_ne`**, **`kind?_erase_below`** and the lemmas beside them — what a change
  does to all places;
* **`FileTree.Named`** — names in the tree are names.
-/

namespace Linkage

/-- What stands at a place, without what is below it. -/
inductive FileKind where
  | file (bytes : List UInt8)
  | directory
  deriving DecidableEq, Repr

namespace FileNode

def kind : FileNode → FileKind
  | .file bytes => .file bytes
  | .directory _ => .directory

/-- What stands below a node, the place as seen from there. -/
def at? : FileNode → Place → Option FileNode
  | .file bytes, p => if p = [] then some (.file bytes) else none
  | .directory entries, p => FileTree.at? ⟨entries⟩ p

/-- Nothing is below the node. -/
def IsLeaf (node : FileNode) : Prop := ∀ name rest, node.at? (name :: rest) = none

theorem isLeaf_file (bytes : List UInt8) : (FileNode.file bytes).IsLeaf := fun _ _ => rfl

theorem isLeaf_empty : (FileNode.directory Table.empty).IsLeaf := fun _ _ => rfl

@[simp] theorem at?_nil (node : FileNode) : node.at? [] = some node := by
  cases node <;> rfl

end FileNode

namespace FileTree

variable {t t' : FileTree} {p q : Place} {name : String}

/-! ## Places -/

theorem at?_cons (t : FileTree) (name : String) (rest : Place) :
    t.at? (name :: rest) = (t.entries.get? name).bind (·.at? rest) := by
  rw [at?]
  cases t.entries.get? name with
  | none => rfl
  | some node => cases node <;> rfl

theorem at?_append (t : FileTree) (p r : Place) : t.at? (p ++ r) = (t.at? p).bind (·.at? r) := by
  induction p generalizing t with
  | nil => rfl
  | cons name p ih =>
      rw [List.cons_append, at?_cons, at?_cons]
      cases t.entries.get? name with
      | none => rfl
      | some node =>
          cases node with
          | directory entries => exact ih ⟨entries⟩
          | file bytes =>
              show (if p ++ r = [] then _ else _) = Option.bind (if p = [] then _ else _) _
              by_cases hp : p = []
              · subst hp
                rfl
              · rw [if_neg hp, if_neg (by simp [hp])]
                rfl

/-- What stands at a place, without what is below it. -/
def kind? (t : FileTree) (p : Place) : Option FileKind := (t.at? p).map FileNode.kind

@[simp] theorem kind?_root (t : FileTree) : t.kind? [] = some .directory := rfl

theorem kind?_eq_directory_iff :
    t.kind? p = some .directory ↔ ∃ entries, t.at? p = some (.directory entries) := by
  unfold kind?
  cases t.at? p with
  | none => simp
  | some node => cases node <;> simp [FileNode.kind]

theorem kind?_eq_none_iff : t.kind? p = none ↔ t.at? p = none := Option.map_eq_none_iff

/-- Whatever is below a place stands in a directory. -/
theorem kind?_of_below {name : String} {rest : Place} (h : t.kind? (p ++ name :: rest) ≠ none) :
    t.kind? p = some .directory := by
  unfold kind? at h ⊢
  rw [at?_append] at h
  cases hp : t.at? p with
  | none =>
      rw [hp] at h
      exact absurd rfl h
  | some node =>
      cases node with
      | directory entries => rfl
      | file bytes =>
          rw [hp] at h
          exact absurd rfl h

/-- Below nothing there is nothing. -/
theorem kind?_none_of_prefix (hpre : p <+: q) (h : t.kind? p = none) : t.kind? q = none := by
  obtain ⟨rest, rfl⟩ := hpre
  by_contra hthere
  cases rest with
  | nil => exact hthere (by rwa [List.append_nil])
  | cons name rest =>
      rw [kind?_of_below hthere] at h
      cases h

/-! ## Changes -/

section Changes

variable {f : Table String FileNode → Table String FileNode} {entries : Table String FileNode}
  {node : FileNode}

theorem at?_change_below (h : t.at? p = some (.directory entries)) (r : Place) :
    (t.change f p).at? (p ++ r) = at? ⟨f entries⟩ r := by
  induction p generalizing t with
  | nil =>
      have hroot : FileNode.directory t.entries = .directory entries := Option.some.inj h
      injection hroot with hroot
      rw [List.nil_append, change, hroot]
  | cons name p ih =>
      rw [at?_cons] at h
      obtain ⟨inner, hinner, hbelow⟩ := Option.bind_eq_some_iff.mp h
      cases inner with
      | file bytes =>
          simp only [FileNode.at?] at hbelow
          split at hbelow <;> cases hbelow
      | directory inner =>
          simp only [change, hinner, List.cons_append]
          rw [at?_cons, Table.get?_put, if_pos rfl]
          exact ih hbelow

/-- A change of a directory reaches nothing but what is in it, and where no directory is, nothing is changed. -/
theorem kind?_change (h : t.kind? p = some .directory → p <+: q → q = p) :
    (t.change f p).kind? q = t.kind? q := by
  induction p generalizing t q with
  | nil =>
      rw [h (kind?_root t) List.nil_prefix]
      rfl
  | cons name p ih =>
      unfold change
      split
      · next inner hinner =>
          cases q with
          | nil => rfl
          | cons name' q =>
              unfold kind?
              rw [at?_cons, at?_cons, Table.get?_put]
              split
              · next heq =>
                  subst heq
                  rw [hinner]
                  refine ih fun hdirectory hpre => ?_
                  refine (List.cons.inj (h ?_ (List.cons_prefix_cons.mpr ⟨rfl, hpre⟩))).2
                  unfold kind? at hdirectory ⊢
                  rwa [at?_cons, hinner]
              · rfl
      · rfl

/-! ### Putting -/

theorem put_concat (t : FileTree) (q : Place) (name : String) (node : FileNode) :
    t.put (q ++ [name]) node = t.change (·.put name node) q := by
  unfold put
  rw [List.getLast?_concat, List.dropLast_concat]

theorem kind?_put_self (h : t.kind? q = some .directory) (name : String) (node : FileNode) :
    (t.put (q ++ [name]) node).kind? (q ++ [name]) = some node.kind := by
  obtain ⟨entries, hentries⟩ := kind?_eq_directory_iff.mp h
  unfold kind?
  rw [put_concat, at?_change_below hentries, at?_cons, Table.get?_put, if_pos rfl, Option.bind_some,
    FileNode.at?_nil, Option.map_some]

/-- What is put in the place of a file, or where there is nothing, changes no other place. -/
theorem kind?_put_of_ne (hleaf : node.IsLeaf) (h : t.kind? p ≠ some .directory) (hne : q ≠ p) :
    (t.put p node).kind? q = t.kind? q := by
  rcases List.eq_nil_or_concat p with rfl | ⟨above, name, rfl⟩
  · exact absurd (kind?_root t) h
  · rw [List.concat_eq_append] at h hne ⊢
    rw [put_concat]
    by_cases hbelow : t.kind? above = some .directory ∧ above <+: q ∧ q ≠ above
    · obtain ⟨hdirectory, ⟨rest, rfl⟩, hrest⟩ := hbelow
      obtain ⟨entries, hentries⟩ := kind?_eq_directory_iff.mp hdirectory
      cases rest with
      | nil => exact absurd (List.append_nil above) hrest
      | cons name' rest =>
          unfold kind?
          rw [at?_change_below hentries, at?_append, hentries, Option.bind_some, at?_cons,
            Table.get?_put, FileNode.at?, at?_cons]
          split
          · next heq =>
              subst heq
              cases rest with
              | nil => exact absurd rfl hne
              | cons name rest =>
                  -- nothing is below what was put, and nothing was below what stood there
                  have hbefore : t.kind? (above ++ name' :: name :: rest) = none := by
                    by_contra hthere
                    have hinside : t.kind? ((above ++ [name']) ++ name :: rest) ≠ none := by
                      rwa [List.append_assoc]
                    exact h (kind?_of_below hinside)
                  unfold kind? at hbefore
                  rw [at?_append, hentries, Option.bind_some, FileNode.at?, at?_cons] at hbefore
                  rw [hbefore, Option.bind_some, hleaf]
                  rfl
          · rfl
    · refine kind?_change fun hdirectory hpre => ?_
      by_contra hrest
      exact hbelow ⟨hdirectory, hpre, hrest⟩

/-- What is put where no directory is takes nothing away. -/
theorem kind?_put_ne_none (hleaf : node.IsLeaf) (h : t.kind? p ≠ some .directory) (hq : t.kind? q ≠ none) :
    (t.put p node).kind? q ≠ none := by
  by_cases hsame : q = p
  · subst hsame
    rcases List.eq_nil_or_concat q with rfl | ⟨above, name, rfl⟩
    · exact absurd (kind?_root t) h
    · rw [List.concat_eq_append] at hq ⊢
      rw [kind?_put_self (kind?_of_below hq)]
      exact nofun
  · rwa [kind?_put_of_ne hleaf h hsame]

/-! ### Taking away -/

theorem erase_concat (t : FileTree) (q : Place) (name : String) :
    t.erase (q ++ [name]) = t.change (·.erase name) q := by
  unfold erase
  rw [List.getLast?_concat, List.dropLast_concat]

/-- What is taken away is gone with all that was in it. -/
theorem kind?_erase_below (h : q ++ [name] <+: p) : (t.erase (q ++ [name])).kind? p = none := by
  refine kind?_none_of_prefix h ?_
  rw [erase_concat]
  by_cases hdirectory : t.kind? q = some .directory
  · obtain ⟨entries, hentries⟩ := kind?_eq_directory_iff.mp hdirectory
    unfold kind?
    rw [at?_change_below hentries, at?_cons, Table.get?_erase_self]
    rfl
  · rw [kind?_change fun hthere => absurd hthere hdirectory]
    by_contra hthere
    exact hdirectory (kind?_of_below hthere)

theorem kind?_erase_of_not_below (h : ¬ q ++ [name] <+: p) :
    (t.erase (q ++ [name])).kind? p = t.kind? p := by
  rw [erase_concat]
  by_cases hbelow : t.kind? q = some .directory ∧ q <+: p ∧ p ≠ q
  · obtain ⟨hdirectory, ⟨rest, rfl⟩, hrest⟩ := hbelow
    obtain ⟨entries, hentries⟩ := kind?_eq_directory_iff.mp hdirectory
    cases rest with
    | nil => exact absurd (List.append_nil q) hrest
    | cons name' rest =>
        have hne : name' ≠ name := by
          rintro rfl
          exact h ⟨rest, by simp⟩
        unfold kind?
        rw [at?_change_below hentries, at?_append, hentries, Option.bind_some, at?_cons,
          Table.get?_erase_of_ne _ hne, FileNode.at?, at?_cons]
  · refine kind?_change fun hdirectory hpre => ?_
    by_contra hrest
    exact hbelow ⟨hdirectory, hpre, hrest⟩

/-- Clearing a directory changes nothing but what is in it. -/
theorem kind?_clear_of_not_below (h : p <+: q → q = p) : (t.clear p).kind? q = t.kind? q :=
  kind?_change fun _ => h

end Changes

/-! ## Names -/

/-- Whatever is in the tree has a name. -/
def Named (t : FileTree) : Prop := ∀ p, t.kind? p ≠ none → ∀ name ∈ p, Path.IsName name

/-- A tree has names if its entries have, and the directories among them. -/
theorem Named.of_entries (h : ∀ e ∈ t.entries.entries, Path.IsName e.1 ∧
    ∀ inner, e.2 = .directory inner → Named ⟨inner⟩) : t.Named := by
  rintro p hp name hname
  cases p with
  | nil => cases hname
  | cons first rest =>
      unfold kind? at hp
      rw [at?_cons] at hp
      cases hget : t.entries.get? first with
      | none => rw [hget] at hp; exact absurd rfl hp
      | some node =>
          obtain ⟨hfirst, hinner⟩ := h _ (Table.mem_of_get? hget)
          rcases List.mem_cons.mp hname with rfl | hname
          · exact hfirst
          · rw [hget] at hp
            cases node with
            | directory inner => exact hinner inner rfl rest hp name hname
            | file bytes =>
                cases rest with
                | nil => cases hname
                | cons next rest => exact absurd rfl hp

/-- What is put where no directory is has the names on the way to it. -/
theorem Named.put {node : FileNode} (h : t.Named) (hleaf : node.IsLeaf) (hfree : t.kind? p ≠ some .directory)
    (hp : ∀ name ∈ p, Path.IsName name) : (t.put p node).Named := by
  intro q hq
  by_cases hsame : q = p
  · rw [hsame]
    exact hp
  · exact h q (by rwa [← kind?_put_of_ne hleaf hfree hsame])

/-- The names in a directory are names. -/
theorem Named.of_mem_names (h : t.Named) {path : String} {found : List String}
    (hfound : t.names path = .ok found) : ∀ name ∈ found, Path.IsName name := by
  intro name hname
  unfold names lookup at hfound
  cases hlocate : t.locate path with
  | error fault =>
      rw [hlocate] at hfound
      cases hfound
  | ok p =>
      rw [hlocate] at hfound
      cases hat : t.at? p with
      | none =>
          simp only [hat, bind, Except.bind] at hfound
          cases hfound
      | some node =>
          simp only [hat, bind, Except.bind, pure, Except.pure] at hfound
          cases node with
          | file bytes => cases hfound
          | directory entries =>
              obtain rfl := Except.ok.inj hfound
              have hkey := mem_sortedTexts.mp hname
              refine h (p ++ [name]) ?_ name (by simp)
              unfold kind?
              rw [at?_append, hat, Option.bind_some, FileNode.at?, at?_cons]
              cases hget : entries.get? name with
              | none => exact absurd hkey (Table.get?_eq_none_iff.mp hget)
              | some node => simp

end FileTree

end Linkage

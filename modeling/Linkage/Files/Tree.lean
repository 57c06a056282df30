import Linkage.Table
import Linkage.Text.Blank

/-!
# Trees of files

A tree is a directory with all that is below it. What stands in a tree is known by its place, the names
on the way from the root; the root itself is a directory and always there. A change of a directory
reaches nothing that is not in it, and a directory that is not there cannot be changed.
-/

namespace Linkage

/-- Where something stands: the names on the way from the root. -/
abbrev Place := List String

/-- What stands at a place. -/
inductive FileNode where
  | file (bytes : List UInt8)
  | directory (entries : Table String FileNode)

/-- Whether it is a directory. -/
def FileNode.isDirectory : FileNode → Bool
  | .directory _ => true
  | .file _ => false

mutual

/-- All that is below a node, with the places as seen from there. -/
def FileNode.contents : FileNode → List (Place × FileNode)
  | .file _ => []
  | .directory entries => FileNode.contentsOfTable entries

/-- All that a directory with these entries holds. -/
def FileNode.contentsOfTable : Table String FileNode → List (Place × FileNode)
  | ⟨entries⟩ => FileNode.contentsOfList entries

/-- All that a list of entries holds. -/
def FileNode.contentsOfList : List (String × FileNode) → List (Place × FileNode)
  | [] => []
  | entry :: rest => FileNode.contentsOfEntry entry ++ FileNode.contentsOfList rest

/-- An entry and all that is below it. -/
def FileNode.contentsOfEntry : String × FileNode → List (Place × FileNode)
  | (name, node) => ([name], node) :: node.contents.map fun e => (name :: e.1, e.2)

end

/-- What is below, as paths with sizes, ascending; directories end in a slash. -/
def FileNode.listing (node : FileNode) : List (String × Nat) :=
  (node.contents.map fun e =>
    let path := Text.join "/" e.1
    match e.2 with
    | .directory _ => (path ++ "/", 0)
    | .file bytes => (path, bytes.length)).mergeSort fun a b => decide (a.1 ≤ b.1)

/-- A directory with all that is below it. -/
structure FileTree where
  /-- What is in the directory, by name. -/
  entries : Table String FileNode

namespace FileTree

/-- The tree that holds only the root. -/
def empty : FileTree := ⟨Table.empty⟩

/-- The tree as what stands at its root. -/
def root (t : FileTree) : FileNode := .directory t.entries

/-- What stands at a place. -/
def at? (t : FileTree) : Place → Option FileNode
  | [] => some t.root
  | name :: rest =>
    match t.entries.get? name with
    | some (.directory entries) => at? ⟨entries⟩ rest
    | some (.file bytes) => if rest = [] then some (.file bytes) else none
    | none => none

/-- Changes what is in the directory at a place. -/
def change (f : Table String FileNode → Table String FileNode) (t : FileTree) : Place → FileTree
  | [] => ⟨f t.entries⟩
  | name :: rest =>
    match t.entries.get? name with
    | some (.directory entries) => ⟨t.entries.put name (change f ⟨entries⟩ rest).root⟩
    | _ => t

/-- Puts something at a place, if the directory for it is there. -/
def put (t : FileTree) (p : Place) (node : FileNode) : FileTree :=
  match p.getLast? with
  | some name => t.change (·.put name node) p.dropLast
  | none => t

/-- Takes away what stands at a place. -/
def erase (t : FileTree) (p : Place) : FileTree :=
  match p.getLast? with
  | some name => t.change (·.erase name) p.dropLast
  | none => t

/-- Takes away all that is in the directory at a place. -/
def clear (t : FileTree) (p : Place) : FileTree := t.change (fun _ => Table.empty) p

/-- How many directories and files there are, the root among them. -/
def size (t : FileTree) : Nat := t.root.contents.length + 1

end FileTree

end Linkage

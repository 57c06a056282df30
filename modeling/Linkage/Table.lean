/-!
# Tables in order of insertion

A `Table` maps keys to values and remembers the order in which the keys first came. Putting a value
under a known key replaces the value where it stands; erasing a key closes the gap.
-/

namespace Linkage

/-- Keys with their values, in the order in which the keys came. -/
structure Table (κ : Type) (α : Type) where
  entries : List (κ × α)
  deriving Repr

namespace Table

variable {κ α : Type} [DecidableEq κ]

/-- The table that holds nothing. -/
def empty : Table κ α := ⟨[]⟩

instance : Inhabited (Table κ α) := ⟨empty⟩

/-- The value under a key. -/
def get? (t : Table κ α) (k : κ) : Option α :=
  t.entries.lookup k

/-- Whether the table has the key. -/
def contains (t : Table κ α) (k : κ) : Bool :=
  (t.get? k).isSome

/-- Replaces the value of a known key, in its place. -/
def replaceIn (k : κ) (v : α) : List (κ × α) → List (κ × α)
  | [] => [(k, v)]
  | (k', v') :: rest => if k' = k then (k, v) :: rest else (k', v') :: replaceIn k v rest

/-- Puts a value under a key: in the key's place if it is known, else at the end. -/
def put (t : Table κ α) (k : κ) (v : α) : Table κ α :=
  ⟨replaceIn k v t.entries⟩

/-- Drops a key with its value. -/
def erase (t : Table κ α) (k : κ) : Table κ α :=
  ⟨t.entries.filter (fun e => e.1 ≠ k)⟩

/-- Changes the value under a key, if there is one. -/
def modify (t : Table κ α) (k : κ) (f : α → α) : Table κ α :=
  ⟨t.entries.map (fun e => if e.1 = k then (e.1, f e.2) else e)⟩

/-- The keys in order. -/
def keys (t : Table κ α) : List κ := t.entries.map (·.1)

/-- The values in the order of their keys. -/
def values (t : Table κ α) : List α := t.entries.map (·.2)

/-- How many keys there are. -/
def size (t : Table κ α) : Nat := t.entries.length

/-- A table from pairs; of two pairs with one key the later gives the value. -/
def ofList (pairs : List (κ × α)) : Table κ α :=
  pairs.foldl (fun t e => t.put e.1 e.2) empty

end Table

/-- Adds an element at the end unless it is there already. -/
def insertNew {α : Type} [BEq α] (xs : List α) (x : α) : List α :=
  if xs.contains x then xs else xs ++ [x]

/-- The elements in order of first occurrence. -/
def distinct {α : Type} [BEq α] (xs : List α) : List α :=
  xs.foldl insertNew []

/-- Puts a text before the first one that is not smaller. -/
def insertText (x : String) : List String → List String
  | [] => [x]
  | y :: rest => if x ≤ y then x :: y :: rest else y :: insertText x rest

/-- Texts in ascending order of their code points. -/
def sortedTexts (xs : List String) : List String := xs.foldr insertText []

end Linkage

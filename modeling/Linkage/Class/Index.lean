import Linkage.Class.Definition
import Linkage.Table

/-!
# Class indexes

A named set of classes with at most one class of each name.
-/

namespace Linkage

/-- Classes addressable by name; `name` says what they are the classes of. -/
structure ClassIndex where
  name : String
  classes : List ClassDefinition
  deriving DecidableEq, Repr

namespace ClassIndex

/-- The index that holds no class. -/
def empty (name : String) : ClassIndex := ⟨name, []⟩

/-- Adds a class; an earlier class of the same name gives way. -/
def insert (i : ClassIndex) (c : ClassDefinition) : ClassIndex :=
  { i with classes := i.classes.filter (·.name ≠ c.name) ++ [c] }

/-- An index of the given classes, the last of each name. -/
def ofList (name : String) (classes : List ClassDefinition) : ClassIndex :=
  classes.foldl insert (empty name)

/-- The class of that name. -/
def get? (i : ClassIndex) (className : String) : Option ClassDefinition :=
  i.classes.find? (·.name == className)

/-- Whether there is a class of that name. -/
def contains (i : ClassIndex) (className : String) : Bool :=
  (i.get? className).isSome

/-- How many classes there are. -/
def size (i : ClassIndex) : Nat := i.classes.length

/-- The names of the classes, ascending. -/
def names (i : ClassIndex) : List String :=
  sortedTexts (i.classes.map (·.name))

/-- The classes in ascending order of their names. -/
def sorted (i : ClassIndex) : List ClassDefinition :=
  i.classes.mergeSort (fun a b => decide (a.name ≤ b.name))

end ClassIndex

end Linkage

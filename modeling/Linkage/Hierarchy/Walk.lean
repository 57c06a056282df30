import Linkage.Session

/-!
# Walks up the hierarchy

A walk offers a class and its ancestors to a visitor, the superclass of a class before its
interfaces. A walker offers each class once over all its walks. A parent that does not resolve is a
problem of the class that names it; it is not marked, so that another class that names it reports it
again.

A walk expands each class that it offers at most once, so the number of classes of the class path
bounds its steps.
-/

namespace Linkage

/-- How a walk ended. -/
inductive WalkOutcome where
  /-- Every ancestor was offered. -/
  | completed
  /-- The visitor wanted no more. -/
  | stopped
  deriving DecidableEq, Repr

/-- The names already offered, and whether interfaces are followed. -/
structure Walker where
  interfaces : Bool
  visited : List String
  deriving DecidableEq, Repr

namespace Walker

/-- A walker that has offered nothing. -/
def fresh (interfaces : Bool) : Walker := ⟨interfaces, []⟩

/-- Whether a class has been offered. -/
def hasVisited (w : Walker) (name : String) : Bool := w.visited.contains name

/-- Marks a class as offered. -/
def mark (w : Walker) (name : String) : Walker := { w with visited := w.visited ++ [name] }

/-- Forgets what has been offered. -/
def reset (w : Walker) : Walker := { w with visited := [] }

/-- The parents that are followed from a class: its superclass and, if asked for, its
interfaces. -/
def parents (w : Walker) (c : ClassDefinition) : List String :=
  c.parent?.toList ++ (if w.interfaces then c.interfaces else [])

end Walker

/-- A visitor is offered a class and tells whether the walk should go on. It may carry a state of
its own. -/
abbrev Visitor (σ : Type) := ClassDefinition → StateT σ Check Bool

/-- Offers those parents of `c` that are new; gives them, or nothing if the visitor wanted no
more. -/
def offerParents {σ : Type} (env : Setting) (visit : Visitor σ) (c : ClassDefinition) :
    List String → Walker → List ClassDefinition → StateT σ Check (Option (List ClassDefinition) × Walker)
  | [], w, offered => pure (some offered.reverse, w)
  | name :: rest, w, offered => do
    if w.hasVisited name then offerParents env visit c rest w offered
    else
      match ← (resolveAt env (.inClass c.name) name : Check _) with
      | none => offerParents env visit c rest w offered
      | some parent =>
        if w.hasVisited parent.name then offerParents env visit c rest w offered
        else if ← visit parent then
          offerParents env visit c rest (w.mark parent.name) (parent :: offered)
        else return (none, w.mark parent.name)

/-- Expands the pending classes, the first one first, at most `bound` of them. -/
def expand {σ : Type} (env : Setting) (visit : Visitor σ) :
    Nat → List ClassDefinition → Walker → StateT σ Check (WalkOutcome × Walker)
  | 0, _, w => pure (.completed, w)
  | _, [], w => pure (.completed, w)
  | bound + 1, c :: pending, w => do
    match ← offerParents env visit c (w.parents c) w [] with
    | (none, w') => return (.stopped, w')
    | (some offered, w') => expand env visit bound (offered ++ pending) w'

/-- Walks up from a class. The class itself is offered first if `includeSelf` says so, and the walk
is over at once if it was offered before. -/
def Walker.walk {σ : Type} (env : Setting) (visit : Visitor σ) (w : Walker) (start : ClassDefinition)
    (includeSelf : Bool) : StateT σ Check (WalkOutcome × Walker) := do
  let climb (w : Walker) := expand env visit (env.classpath.size + 1) [start] w
  if includeSelf then
    if w.hasVisited start.name then return (.completed, w)
    else if ← visit start then climb (w.mark start.name)
    else return (.stopped, w.mark start.name)
  else climb w

end Linkage

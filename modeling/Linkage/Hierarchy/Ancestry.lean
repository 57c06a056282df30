import Linkage.Session

/-!
# Ancestry

The ancestors of a class as far as they resolve: the chain of superclasses first, then the
interfaces of the class, of the chain and of those interfaces. What does not resolve makes the
ancestry incomplete but is no problem here.

Each name is followed once. The names that can come up are the parents of the class and of the
classes of the class path, which bounds both searches.
-/

namespace Linkage

/-- The ancestors that resolve, and whether all did. -/
structure Ancestry where
  classes : List ClassDefinition
  complete : Bool
  deriving DecidableEq, Repr

/-- A search for ancestors under way. -/
structure Climb where
  /-- The ancestors found, the last one first. -/
  found : List ClassDefinition
  complete : Bool
  /-- The names followed. -/
  seen : List String
  /-- The interfaces still to be followed, the next one first. -/
  interfaces : List String
  deriving DecidableEq, Repr

namespace Climb

/-- Notes an ancestor, whose interfaces come before those waiting, the last of them first. -/
def add (k : Climb) (c : ClassDefinition) : Climb :=
  { k with found := c :: k.found, interfaces := c.interfaces.reverse ++ k.interfaces }

/-- Notes a name as followed. -/
def see (k : Climb) (name : String) : Climb := { k with seen := name :: k.seen }

/-- Notes that an ancestor does not resolve. -/
def miss (k : Climb) : Climb := { k with complete := false }

/-- Follows superclasses, at most `bound` of them. -/
def superclasses (env : Setting) : Nat → Option String → Climb → Check Climb
  | 0, _, k => pure k
  | _, none, k => pure k
  | bound + 1, some name, k => do
    if k.seen.contains name then return k
    else
      match ← resolve env name with
      | some c => superclasses env bound c.parent? ((k.see name).add c)
      | none => return (k.see name).miss

/-- Follows the waiting interfaces, at most `bound` of them. -/
def allInterfaces (env : Setting) : Nat → Climb → Check Climb
  | 0, k => pure k
  | bound + 1, k =>
    match k.interfaces with
    | [] => pure k
    | name :: rest => do
      let k := { k with interfaces := rest }
      if k.seen.contains name then allInterfaces env bound k
      else
        match ← resolve env name with
        | some c => allInterfaces env bound ((k.see name).add c)
        | none => allInterfaces env bound (k.see name).miss

end Climb

/-- How many names a search from `c` can come upon, with repeats: those that `c` names, and those
that each of the names followed brings along. -/
def climbBound (env : Setting) (c : ClassDefinition) : Nat :=
  let direct := 1 + c.interfaces.length
  (direct + env.classpath.links + 1) * (env.classpath.links + 1)

/-- The ancestors of a class. -/
def ancestry (env : Setting) (c : ClassDefinition) : Check Ancestry := do
  let bound := climbBound env c
  let k ← Climb.superclasses env bound c.parent? ⟨[], true, [c.name], c.interfaces.reverse⟩
  let k ← Climb.allInterfaces env bound k
  return ⟨k.found.reverse, k.complete⟩

/-! ## Members of ancestors -/

/-- What a search for a member came to. -/
inductive MemberSearch where
  | found (declaring : ClassDefinition) (member : Member)
  /-- No class of a complete ancestry declares it. -/
  | missing
  /-- An ancestor that does not resolve might declare it. -/
  | unknown
  deriving DecidableEq, Repr

/-- The first class of a list that declares the member wanted. -/
def declaredIn (pick : ClassDefinition → Option Member) :
    List ClassDefinition → Option (ClassDefinition × Member)
  | [] => none
  | c :: rest =>
    match pick c with
    | some m => some (c, m)
    | none => declaredIn pick rest

/-- Searches a class and then its ancestors for a member. -/
def searchMember (env : Setting) (owner : ClassDefinition)
    (pick : ClassDefinition → Option Member) : Check MemberSearch := do
  match pick owner with
  | some m => return .found owner m
  | none => do
    let a ← ancestry env owner
    match declaredIn pick a.classes with
    | some (c, m) => return .found c m
    | none => return if a.complete then .missing else .unknown

/-- Searches for a method. -/
def findMethod (env : Setting) (owner : ClassDefinition) (name descriptor : String) :
    Check MemberSearch :=
  searchMember env owner (·.findMethod name descriptor)

/-- Searches for a field. -/
def findField (env : Setting) (owner : ClassDefinition) (name descriptor : String) :
    Check MemberSearch :=
  searchMember env owner (·.findField name descriptor)

/-! ## Access -/

/-- Follows declared superclasses from a name in search of `ancestor`, at most `bound` of them. -/
def reachesSuper (env : Setting) (ancestor : String) :
    Nat → List String → Option String → Check Bool
  | 0, _, _ => pure false
  | _, _, none => pure false
  | bound + 1, seen, some name => do
    if name = ancestor then return true
    else if seen.contains name then return false
    else
      let next ← resolve env name
      reachesSuper env ancestor bound (name :: seen) (next.bind (·.super))

/-- Whether `ancestor` is on the chain of declared superclasses of a class or, for a nested class,
on that of the top-level class around it. -/
def isSubclassOf (env : Setting) (c : ClassDefinition) (ancestor : String) : Check Bool := do
  let outer := ClassName.outermost c.name
  let outerSuper ←
    if outer = c.name then pure none
    else do
      let around ← resolve env outer
      pure (around.bind (·.super))
  let bound := env.classpath.size + 2
  if ← reachesSuper env ancestor bound [] c.super then return true
  else reachesSuper env ancestor bound [] outerSuper

/-- Whether a class may use a member of `declaring` that has the given flags. -/
def isAccessible (env : Setting) (accessor declaring : ClassDefinition) (access : AccessFlags) :
    Check Bool := do
  if access.isPublic || accessor.name == declaring.name then return true
  else if access.isPrivate then
    return ClassName.outermost accessor.name == ClassName.outermost declaring.name
  else
    let samePackage := ClassName.package accessor.name == ClassName.package declaring.name
    if access.isProtected then
      if samePackage then return true else isSubclassOf env accessor declaring.name
    else return samePackage

end Linkage

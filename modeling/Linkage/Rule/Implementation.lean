import Linkage.Hierarchy.Ancestry

/-!
# The rule about abstract methods

A concrete class must have a body for every abstract method that it inherits. Along the chain of
superclasses the nearest declaration counts, so that an abstract one hides a body further up. Where
the chain declares nothing, a default body of any interface serves.

Nothing is said while an ancestor does not resolve: it might bring the body.
-/

namespace Linkage.Rules

/-- Inherited as the method of an object: neither static nor private. -/
def isOverridable (m : Member) : Bool := !m.access.isStatic && !m.access.isPrivate

/-- Has the signature of another method. -/
def sameSignature (m other : Member) : Bool := m.isCalled other.name other.descriptor

/-- The nearest overridable declaration with the signature of `m` along a chain of classes. -/
def nearest (chain : List ClassDefinition) (m : Member) : Option (ClassDefinition × Member) :=
  declaredIn (fun c => c.methods.find? fun x => isOverridable x && sameSignature x m) chain

/-- Whether some interface gives the signature of `m` a default body. -/
def hasDefault (interfaces : List ClassDefinition) (m : Member) : Bool :=
  interfaces.any fun i =>
    i.methods.any fun x => isOverridable x && !x.access.isAbstract && sameSignature x m

/-- The declaration to complain about for the abstract method `m` of the ancestor `owner`, if there
is no body. -/
def lacking (chain interfaces : List ClassDefinition) (owner : ClassDefinition) (m : Member) :
    Option (ClassDefinition × Member) :=
  match nearest chain m with
  | some (c, x) => if x.access.isAbstract then some (c, x) else none
  | none => if hasDefault interfaces m then none else some (owner, m)

/-- Adds a declaration unless its signature is there already. -/
def addSignature (found : List (ClassDefinition × Member)) (d : ClassDefinition × Member) :
    List (ClassDefinition × Member) :=
  if found.any (fun f => sameSignature f.2 d.2) then found else found ++ [d]

/-- The abstract methods without a body that `c` inherits from `ancestors`, each signature once. -/
def unimplemented (c : ClassDefinition) (ancestors : List ClassDefinition) :
    List (ClassDefinition × Member) :=
  let chain := c :: ancestors.filter (!·.isInterface)
  let interfaces := ancestors.filter (·.isInterface)
  let inherited := ancestors.flatMap fun a =>
    (a.methods.filter fun m => isOverridable m && m.access.isAbstract).map fun m => (a, m)
  (inherited.filterMap fun d => lacking chain interfaces d.1 d.2).foldl addSignature []

/-- Every inherited abstract method must have a body. -/
def abstractMethodsImplemented (env : Setting) (c : ClassDefinition) : Check Unit :=
  if c.isConcrete then do
    let a ← ancestry env c
    if a.complete then
      Check.each (unimplemented c a.classes) fun d =>
        Check.problem (.methodNotImplemented c.name (.ofMember d.1 d.2))
    else pure ()
  else pure ()

end Linkage.Rules

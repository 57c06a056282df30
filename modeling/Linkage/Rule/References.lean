import Linkage.Hierarchy.Ancestry

/-!
# Rules about references

Every class that a class refers to must resolve, and every member that it uses must be declared by
its owner or by an ancestor of it, and be accessible from there.
-/

namespace Linkage.Rules

/-- The classes whose methods take any signature. -/
def polymorphicOwners : List String :=
  ["java/lang/invoke/MethodHandle", "java/lang/invoke/VarHandle"]

/-- Whether a name is that of an array. -/
def isArrayName (name : String) : Bool := name.toList.head? == some '['

/-- Every class referred to must resolve. -/
def referencedClassesResolve (env : Setting) (c : ClassDefinition) : Check Unit :=
  Check.each c.classRefs fun name => discard (resolveAt env (.inClass c.name) name)

/-- A method must exist and be accessible. Methods of arrays and of polymorphic owners are exempt. -/
def methodRefLinks (env : Setting) (c : ClassDefinition) (r : MemberRef) : Check Unit :=
  if isArrayName r.owner || polymorphicOwners.contains r.owner then pure ()
  else do
    match ← resolveAt env (.inClass c.name) r.owner with
    | none => pure ()
    | some owner =>
      match ← findMethod env owner r.name r.descriptor with
      | .found declaring m =>
        if ← isAccessible env c declaring m.access then pure ()
        else
          Check.problem (.illegalMethodAccess (.ofMember declaring m) m.access.level
            (.inClass c.name))
      | .missing => Check.problem (.methodNotFound (.ofRef r) (.inClass c.name))
      | .unknown => pure ()

/-- A field must exist and be accessible. Fields of arrays are exempt. -/
def fieldRefLinks (env : Setting) (c : ClassDefinition) (r : MemberRef) : Check Unit :=
  if isArrayName r.owner then pure ()
  else do
    match ← resolveAt env (.inClass c.name) r.owner with
    | none => pure ()
    | some owner =>
      match ← findField env owner r.name r.descriptor with
      | .found declaring m =>
        if ← isAccessible env c declaring m.access then pure ()
        else
          Check.problem (.illegalFieldAccess (.ofMember declaring m) m.access.level
            (.inClass c.name))
      | .missing => Check.problem (.fieldNotFound (.ofRef r) (.inClass c.name))
      | .unknown => pure ()

/-- Every member used must exist and be accessible. -/
def memberRefsLink (env : Setting) (c : ClassDefinition) : Check Unit :=
  Check.each c.memberRefs fun r =>
    match r.kind with
    | .field => fieldRefLinks env c r
    | .method | .interfaceMethod => methodRefLinks env c r

end Linkage.Rules

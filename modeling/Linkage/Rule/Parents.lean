import Linkage.Session

/-!
# Rules about direct parents

A superclass must be a class that may be extended, and an interface must be an interface. A parent
that does not resolve is a problem of its own.
-/

namespace Linkage.Rules

/-- Resolves the declared superclass of a class that is no interface, and goes on with its declared
name and its definition. -/
def withSuperclass (env : Setting) (c : ClassDefinition)
    (check : String → ClassDefinition → Check Unit) : Check Unit :=
  if c.isInterface then pure ()
  else
    match c.super with
    | none => pure ()
    | some name => do
      match ← resolveAt env (.inClass c.name) name with
      | some superclass => check name superclass
      | none => pure ()

/-- The superclass must not be an interface. -/
def superclassIsClass (env : Setting) (c : ClassDefinition) : Check Unit :=
  withSuperclass env c fun name superclass =>
    if superclass.isInterface then Check.problem (.superclassBecameInterface c.name name)
    else pure ()

/-- The superclass must not be a final class. -/
def superclassIsOpen (env : Setting) (c : ClassDefinition) : Check Unit :=
  withSuperclass env c fun name superclass =>
    if superclass.isFinal && !superclass.isInterface then
      Check.problem (.finalClassInherited c.name name)
    else pure ()

/-- Every interface of the class must be an interface. -/
def interfacesAreInterfaces (env : Setting) (c : ClassDefinition) : Check Unit :=
  Check.each c.interfaces fun name => do
    match ← resolveAt env (.inClass c.name) name with
    | some resolved =>
      if resolved.isInterface then pure ()
      else Check.problem (.interfaceBecameClass c.name name)
    | none => pure ()

end Linkage.Rules

import Linkage.Class.Descriptor
import Linkage.Session

/-!
# Rules about declared members

A method must not override a final method, and the types in descriptors must resolve.
-/

namespace Linkage.Rules

/-- Whether a class sees a method of an ancestor as one that its own methods may override. -/
def seesOverridden (c ancestor : ClassDefinition) (m : Member) : Bool :=
  !m.access.isPrivate && !m.access.isStatic &&
    (m.access.isPublic || m.access.isProtected ||
      ClassName.package ancestor.name == ClassName.package c.name)

/-- Follows declared superclasses up to the first one that declares a method which `m` overrides;
that method must not be final. At most `bound` superclasses are followed. -/
def overriddenIsOpen (env : Setting) (c : ClassDefinition) (m : Member) :
    Nat → List String → Option String → Check Unit
  | 0, _, _ => pure ()
  | _, _, none => pure ()
  | bound + 1, seen, some name => do
    if seen.contains name then return
    else
      match ← resolve env name with
      | none => return
      | some ancestor =>
        match ancestor.findMethod m.name m.descriptor with
        | some overridden =>
          if seesOverridden c ancestor overridden then
            if overridden.access.isFinal then
              Check.problem (.finalMethodOverridden (.ofMember ancestor overridden) (.ofMember c m))
            else return
          else overriddenIsOpen env c m bound (name :: seen) ancestor.super
        | none => overriddenIsOpen env c m bound (name :: seen) ancestor.super

/-- A method must not override a final method of a superclass. -/
def noFinalOverridden (env : Setting) (c : ClassDefinition) (m : Member) : Check Unit :=
  if m.isConstructor || m.isStaticInitializer || m.access.isStatic || m.access.isPrivate then
    pure ()
  else overriddenIsOpen env c m (env.classpath.size + 2) [] c.super

/-- The types of a method's parameters and result must resolve. -/
def methodTypesResolve (env : Setting) (c : ClassDefinition) (m : Member) : Check Unit :=
  Check.each (Descriptor.classes m.descriptor) fun name =>
    discard (resolveAt env (.inMethod (.ofMember c m)) name)

/-- The type of a field must resolve. -/
def fieldTypeResolves (env : Setting) (c : ClassDefinition) (f : Member) : Check Unit :=
  Check.each (Descriptor.classes f.descriptor) fun name =>
    discard (resolveAt env (.inField (.ofMember c f)) name)

end Linkage.Rules

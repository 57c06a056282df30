import Linkage.Hierarchy.Ancestry

/-!
# The rule about deprecated interfaces

Using a deprecated class as a parent, or a member that is deprecated itself or through its class,
gives a warning. What the plugin names as its own is its own business.
-/

namespace Linkage.Rules

/-- A use of a deprecated thing by a class. -/
def deprecatedUse (c : ClassDefinition) (api : String) : Check Unit :=
  Check.warning (.deprecatedApiUsage api (.inClass c.name))

/-- Warns of a deprecated parent. -/
def deprecatedParent (env : Setting) (c : ClassDefinition) (parent : String) : Check Unit :=
  if env.isPluginClass parent then pure ()
  else do
    match ← resolve env parent with
    | some resolved =>
      if resolved.deprecated then deprecatedUse c ("class " ++ ClassName.dotted parent)
      else pure ()
    | none => pure ()

/-- Warns of a deprecated member. -/
def deprecatedMember (env : Setting) (c : ClassDefinition) (r : MemberRef) : Check Unit :=
  if env.isPluginClass r.owner then pure ()
  else do
    match ← resolve env r.owner with
    | none => pure ()
    | some owner =>
      let search ← match r.kind with
        | .field => findField env owner r.name r.descriptor
        | .method | .interfaceMethod => findMethod env owner r.name r.descriptor
      match search with
      | .found declaring m =>
        if m.deprecated || declaring.deprecated then
          let place := MemberPlace.ofMember declaring m
          match r.kind with
          | .field => deprecatedUse c ("field " ++ place.asField)
          | .method | .interfaceMethod => deprecatedUse c ("method " ++ place.asMethod)
        else pure ()
      | _ => pure ()

/-- Nothing deprecated should be extended, implemented or used. -/
def deprecatedUsages (env : Setting) (c : ClassDefinition) : Check Unit := do
  Check.each (c.super.toList ++ c.interfaces) (deprecatedParent env c)
  Check.each c.memberRefs (deprecatedMember env c)

end Linkage.Rules

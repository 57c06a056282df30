import Linkage.Rule.Basic
import Linkage.Rule.Deprecation
import Linkage.Rule.Implementation
import Linkage.Rule.Members
import Linkage.Rule.Parents
import Linkage.Rule.References

/-!
# Rule registries

The rules that a verification runs, by their ids. Rules run in the order in which they were
registered; registering under a known id replaces the rule in its place.
-/

namespace Linkage

/-- Rules by id, in the order in which they run. -/
abbrev RuleRegistry := Table String Rule

namespace RuleRegistry

/-- The rules that are there from the beginning. -/
def default : RuleRegistry := ⟨[
  ("superclass-became-interface", .ofClass Rules.superclassIsClass),
  ("interface-became-class", .ofClass Rules.interfacesAreInterfaces),
  ("final-class-inherited", .ofClass Rules.superclassIsOpen),
  ("abstract-method-not-implemented", .ofClass Rules.abstractMethodsImplemented),
  ("referenced-classes-resolved", .ofClass Rules.referencedClassesResolve),
  ("member-references", .ofClass Rules.memberRefsLink),
  ("deprecated-api-usage", .ofClass Rules.deprecatedUsages),
  ("overriding-final-method", .ofMethod Rules.noFinalOverridden),
  ("method-signature-types-resolved", .ofMethod Rules.methodTypesResolve),
  ("field-type-resolved", .ofField Rules.fieldTypeResolves)]⟩

/-- Runs the rules for classes on a class. -/
def runOnClass (r : RuleRegistry) (env : Setting) (c : ClassDefinition) : Check Unit :=
  Check.each r.values (Rule.runOnClass env c)

/-- Runs the rules for members on the members of a class, rule by rule. -/
def runOnMembers (r : RuleRegistry) (env : Setting) (c : ClassDefinition) : Check Unit :=
  Check.each r.values (Rule.runOnMembers env c)

end RuleRegistry

end Linkage

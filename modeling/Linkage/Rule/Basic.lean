import Linkage.Session

/-!
# Rules

A rule checks one subject, a class or one of its members, and adds what it finds to the session.
-/

namespace Linkage

/-- A check of one kind of subject. -/
inductive Rule where
  | ofClass (check : Setting → ClassDefinition → Check Unit)
  | ofMethod (check : Setting → ClassDefinition → Member → Check Unit)
  | ofField (check : Setting → ClassDefinition → Member → Check Unit)

/-- The subjects that rules check. -/
inductive Subject where
  | wholeClass
  | method
  | field
  deriving DecidableEq, Repr

/-- What a rule checks. -/
def Rule.subject : Rule → Subject
  | .ofClass _ => .wholeClass
  | .ofMethod _ => .method
  | .ofField _ => .field

/-- Runs a rule on a class as a whole; rules for members do nothing. -/
def Rule.runOnClass (env : Setting) (c : ClassDefinition) : Rule → Check Unit
  | .ofClass check => check env c
  | _ => pure ()

/-- Runs a rule on the members of a class that it checks. -/
def Rule.runOnMembers (env : Setting) (c : ClassDefinition) : Rule → Check Unit
  | .ofClass _ => pure ()
  | .ofMethod check => Check.each c.methods (check env c)
  | .ofField check => Check.each c.fields (check env c)

end Linkage

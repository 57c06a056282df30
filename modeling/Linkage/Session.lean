import Linkage.Classpath
import Linkage.Finding.Problem
import Linkage.Finding.Warning
import Linkage.Table

/-!
# Verification sessions

A session resolves names against a class path and gathers findings. It asks the class path at most
once for each name and remembers the answer, a miss as well as a hit. Once a question has failed, the
session asks nothing more until the failure is taken from it. A finding that is there already is not
added again.
-/

namespace Linkage

/-- What a session works with. -/
structure Setting where
  classpath : Classpath
  external : ExternalPackages
  /-- The classes of the plugin under verification, if any are marked as such. -/
  pluginClasses : Option ClassIndex

/-- What a session has learnt and found so far. -/
structure Session where
  traffic : Traffic
  known : Table String (Option ClassDefinition)
  failure : Option LookupFailure
  problems : List Problem
  warnings : List Warning

namespace Session

/-- The session at its beginning. -/
def start (env : Setting) : Session where
  traffic := env.classpath.untouched
  known := Table.empty
  failure := none
  problems := []
  warnings := []

/-- Adds a problem unless it is there already. -/
def addProblem (s : Session) (p : Problem) : Session :=
  { s with problems := insertNew s.problems p }

/-- Adds a warning unless it is there already. -/
def addWarning (s : Session) (w : Warning) : Session :=
  { s with warnings := insertNew s.warnings w }

/-- Looks a plain name up: from memory if it is known, else on the class path unless that failed. -/
def lookup (env : Setting) (s : Session) (name : String) : Option ClassDefinition × Session :=
  match s.known.get? name with
  | some answer => (answer, s)
  | none =>
    if s.failure.isSome then (none, s)
    else
      match env.classpath.find name s.traffic with
      | (.ok answer, traffic) =>
        let found := answer.map (·.1)
        (found, { s with traffic := traffic, known := s.known.put name found })
      | (.error failure, traffic) => (none, { s with traffic := traffic, failure := some failure })

end Session

/-- A check: a step that reads and extends a session. -/
abbrev Check := StateM Session

namespace Check

/-- Registers a problem. -/
def problem (p : Problem) : Check Unit := modify (·.addProblem p)

/-- Registers a warning. -/
def warning (w : Warning) : Check Unit := modify (·.addWarning w)

/-- Does a check for each element in turn. -/
def each {α : Type} (xs : List α) (check : α → Check Unit) : Check Unit :=
  match xs with
  | [] => pure ()
  | x :: rest => do
    check x
    each rest check

end Check

/-- The class that a name stands for. The name may be that of an array; primitive arrays stand for
no class. -/
def resolve (env : Setting) (name : String) : Check (Option ClassDefinition) :=
  match ClassName.element? name with
  | none => pure none
  | some plain => fun s => s.lookup env plain

/-- As `resolve`, and a miss is a problem at `location`, unless the class is external or the class
path has failed. -/
def resolveAt (env : Setting) (location : Location) (name : String) :
    Check (Option ClassDefinition) :=
  match ClassName.element? name with
  | none => pure none
  | some plain => do
    match ← (fun s => s.lookup env plain : Check (Option ClassDefinition)) with
    | some c => return some c
    | none => do
      if (← get).failure.isNone && !env.external.covers plain then
        Check.problem (.classNotFound plain location)
      return none

/-- Whether a class belongs to the plugin under verification. -/
def Setting.isPluginClass (env : Setting) (className : String) : Bool :=
  match env.pluginClasses with
  | some index => index.contains className
  | none => false

/-- Takes the failure out of the session, which may then ask the class path again. -/
def takeFailure : Check (Option LookupFailure) := do
  let s ← get
  set { s with failure := none }
  return s.failure

end Linkage

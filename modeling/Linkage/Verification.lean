import Linkage.Hierarchy.Walk
import Linkage.Plugin.Structure
import Linkage.Rule.Registry
import Linkage.Verdict

/-!
# Verification of a plugin against a target

The package is validated, its dependencies are found, and every class of the plugin is walked
together with its ancestors. The rules run on each class of the plugin that a walk offers, so that
every class is checked once, when it is first met. Classes that stand under a missing direct
dependency are walked as ancestors of others but not checked.

Between the classes the caller is asked whether to stop, and is told how far the run has come.
-/

namespace Linkage

/-- What a verification is made with. -/
structure Engine where
  rules : RuleRegistry := RuleRegistry.default
  structureRules : StructureRules := StructureRules.default
  external : ExternalPackages := ⟨[]⟩

/-- What a verification is about, and whom it asks and tells on the way. -/
structure VerificationInput (σ κ : Type) where
  plugin : Plugin
  target : Target
  host : ClassSource
  jdk : ClassSource
  finder : DependencyFinder σ κ
  /-- Whether the run should end now. -/
  shouldStop : StateM σ Bool
  /-- Takes note of the part of the work that is done. -/
  progress : Float → StateM σ Unit

/-- Why a run came to no verdict. -/
inductive VerificationFailure where
  | interrupted
  | classpathUnavailable (failure : LookupFailure)
  deriving DecidableEq, Repr

def VerificationFailure.message : VerificationFailure → String
  | .interrupted => "Verification was interrupted"
  | .classpathUnavailable failure => failure.message

/-- What a run ends with, and what was held for it and can now be let go. -/
structure VerificationOutcome (κ : Type) where
  answer : Except VerificationFailure VerificationResult
  keepalives : List κ

namespace Verification

variable {σ κ : Type}

/-- The classes that stand under a missing direct dependency. -/
def excludedClasses (p : Plugin) (missing : List MissingDependency) : List String :=
  missing.flatMap fun m => (p.dependentClasses.get? m.dependency.id).getD []

/-- The class path of a run: the plugin, its dependencies, the host and the JDK. -/
def classpathOf (input : VerificationInput σ κ) (g : DependencyGraph κ) : Classpath :=
  [⟨.plugin, .reliable input.plugin.classes⟩]
    ++ g.resolved.values.map (fun r => ⟨.dependency r.plugin.info.id, .reliable r.plugin.classes⟩)
    ++ [⟨.host, input.host⟩, ⟨.jdk, input.jdk⟩]

/-- The warnings that are there before any class is checked. -/
def initialWarnings (structureWarnings : List String) (missing : List MissingDependency) :
    List Warning :=
  structureWarnings.map .pluginStructure
    ++ (missing.filter (·.dependency.optional)).map fun m =>
      .optionalDependencyNotResolved m.dependency.id m.reason

/-- Runs the rules on a class that a walk offers, if it is one to be checked. -/
def checkOffered (engine : Engine) (env : Setting) (excluded : List String) : Visitor Unit :=
  fun c => do
    if env.isPluginClass c.name && !excluded.contains c.name then
      (engine.rules.runOnClass env c : Check Unit)
      (engine.rules.runOnMembers env c : Check Unit)
    return true

/-- What the walks of a run carry along. -/
structure Walking where
  walker : Walker
  session : Session

/-- Walks from one class of the plugin; tells whether the class path failed. -/
def walkClass (engine : Engine) (env : Setting) (excluded : List String) (w : Walking)
    (c : ClassDefinition) : Walking × Option LookupFailure :=
  let (((_, walker), ()), session) :=
    (w.walker.walk env (checkOffered engine env excluded) c true).run () |>.run w.session
  let (failure, session) := takeFailure.run session
  (⟨walker, session⟩, failure)

/-- Walks from the classes named, of which `done` of `total` have been walked from. -/
def walkAll (engine : Engine) (input : VerificationInput σ κ) (env : Setting)
    (excluded : List String) (total : Nat) :
    Nat → List String → Walking → StateM σ (Except VerificationFailure Session)
  | _, [], w => do
    if ← input.shouldStop then return .error .interrupted
    else return .ok w.session
  | done, name :: rest, w => do
    if ← input.shouldStop then return .error .interrupted
    else
      match input.plugin.classes.get? name with
      | none => walkAll engine input env excluded total (done + 1) rest w
      | some c =>
        match walkClass engine env excluded w c with
        | (_, some failure) => return .error (.classpathUnavailable failure)
        | (w, none) => do
          input.progress (Float.ofNat (done + 1) / Float.ofNat total)
          walkAll engine input env excluded total (done + 1) rest w

/-- Checks a plugin whose package is valid and whose dependencies have been looked for. -/
def checkClasses (engine : Engine) (input : VerificationInput σ κ)
    (structureWarnings : List String) (g : DependencyGraph κ) :
    StateM σ (Except VerificationFailure Verdict) := do
  let missing := g.directMissing
  let excluded := excludedClasses input.plugin missing
  let env : Setting := ⟨classpathOf input g, engine.external, some input.plugin.classes⟩
  let session := (initialWarnings structureWarnings missing).foldl Session.addWarning
    (Session.start env)
  let names := input.plugin.classes.names.filter (fun n => !excluded.contains n)
  match ← walkAll engine input env excluded (max names.length 1) 0 names ⟨Walker.fresh true, session⟩ with
  | .error failure => return .error failure
  | .ok s => return .ok (Verdict.ofFindings [] missing s.problems s.warnings)

/-- Verifies a plugin against a target. -/
def run (engine : Engine) (input : VerificationInput σ κ) : StateM σ (VerificationOutcome κ) := do
  let result (verdict : Verdict) : VerificationResult :=
    ⟨input.plugin.info, input.target, verdict, some (DynamicStatus.of input.plugin)⟩
  let report := engine.structureRules.validate input.plugin
  if report.isValid then
    let g ← DependencyGraph.build input.finder input.plugin
    if ← input.shouldStop then return ⟨.error .interrupted, g.keepalives⟩
    else
      match ← checkClasses engine input report.warnings g with
      | .error failure => return ⟨.error failure, g.keepalives⟩
      | .ok verdict => do
        input.progress 1.0
        return ⟨.ok (result verdict), g.keepalives⟩
  else
    input.progress 1.0
    return ⟨.ok (result (.bad report.errors)), []⟩

end Verification

end Linkage

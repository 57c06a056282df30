import Linkage.Verification
import Linkage.Proofs.Check.Lookups

/-!
# The steps of a run

A run asks its caller whether to stop, walks from a class, asks again, and so on. The journal of a run
lists what it does, each walk with the session as it is afterwards; what the run comes to can be read
off it.

* **`journal`** — the steps of a run;
* **`walkAll_eq`**, **`run_eq_journal`** — the answer of a run is that of its journal, and both leave
  the caller in the same state.
-/

namespace Linkage

/-- A step of a run. -/
inductive RunStep where
  /-- The caller says whether to stop. -/
  | poll (stop : Bool)
  /-- A walk from a class; a failure of the class path is still in the session. -/
  | walk (start : String) (session : Session)

/-- The step is no reason to end the run. -/
def RunStep.IsFine : RunStep → Prop
  | .poll stop => stop = false
  | .walk _ session => session.failure = none

/-- The class that a step walks from, and nothing for a question to the caller. -/
def RunStep.start? : RunStep → Option String
  | .poll _ => none
  | .walk start _ => some start

namespace Verification

variable {σ κ : Type} (engine : Engine) (input : VerificationInput σ κ) (env : Setting)
  (excluded : List String)

/-- A walk from a class of the plugin, before a failure is taken from the session. -/
def walkFrom (w : Walking) (c : ClassDefinition) : Walking :=
  let result := w.walker.walk env (checkOffered engine env excluded) c true () w.session
  ⟨result.1.1.2, result.2⟩

theorem walkClass_eq (w : Walking) (c : ClassDefinition) :
    walkClass engine env excluded w c =
      (⟨(walkFrom engine env excluded w c).walker,
        { (walkFrom engine env excluded w c).session with failure := none }⟩,
        (walkFrom engine env excluded w c).session.failure) := rfl

/-- The steps of `walkAll`. -/
def stepsOfAll (total : Nat) : Nat → List String → Walking → StateM σ (List RunStep)
  | _, [], _ => do return [.poll (← input.shouldStop)]
  | done, name :: rest, w => do
    if ← input.shouldStop then return [.poll true]
    else
      match input.plugin.classes.get? name with
      | none => return .poll false :: (← stepsOfAll total (done + 1) rest w)
      | some c =>
        let w := walkFrom engine env excluded w c
        if w.session.failure.isSome then return [.poll false, .walk name w.session]
        else do
          input.progress (Float.ofNat (done + 1) / Float.ofNat total)
          return .poll false :: .walk name w.session :: (← stepsOfAll total (done + 1) rest w)

/-- What steps come to, beginning with a session. -/
def answerOf : List RunStep → Session → Except VerificationFailure Session
  | [], s => .ok s
  | .poll true :: _, _ => .error .interrupted
  | .poll false :: rest, s => answerOf rest s
  | .walk _ s :: rest, _ =>
    match s.failure with
    | some failure => .error (.classpathUnavailable failure)
    | none => answerOf rest s

/-- The answer of `walkAll` is that of its steps. -/
theorem walkAll_eq (total done : Nat) (names : List String) (w : Walking) :
    walkAll engine input env excluded total done names w = do
      return answerOf (← stepsOfAll engine input env excluded total done names w) w.session := by
  induction names generalizing done w with
  | nil =>
      unfold walkAll stepsOfAll
      rw [bind_assoc]
      refine bind_congr ?_
      intro stop
      cases stop <;> rfl
  | cons name rest ih =>
      unfold walkAll stepsOfAll
      rw [bind_assoc]
      refine bind_congr ?_
      intro stop
      cases stop with
      | true => rfl
      | false =>
          rw [if_neg Bool.false_ne_true, if_neg Bool.false_ne_true]
          cases hget : input.plugin.classes.get? name with
          | none =>
              simp only
              rw [ih, bind_assoc]
              rfl
          | some c =>
              simp only [walkClass_eq]
              cases hfailure : (walkFrom engine env excluded w c).session.failure with
              | some failure =>
                  simp only [Option.isSome_some, if_true, pure_bind, answerOf, hfailure]
              | none =>
                  simp only [Option.isSome_none, Bool.false_eq_true, if_false]
                  rw [bind_assoc]
                  refine bind_congr ?_
                  intro _
                  have hsession : ({ (walkFrom engine env excluded w c).session with
                      failure := none } : Session) = (walkFrom engine env excluded w c).session := by
                    rw [← hfailure]
                  rw [ih, hsession, bind_assoc]
                  refine bind_congr ?_
                  intro steps
                  simp only [pure_bind, answerOf, hfailure]

/-! ## Runs -/

/-- What the classes of a plugin are checked in. -/
def settingOf (g : DependencyGraph κ) : Setting :=
  ⟨classpathOf input g, engine.external, some input.plugin.classes⟩

/-- The classes that a run walks from, in order. -/
def checkedNames (g : DependencyGraph κ) : List String :=
  input.plugin.classes.names.filter fun n =>
    !(excludedClasses input.plugin g.directMissing).contains n

/-- The session before any class is checked. -/
def openingSession (g : DependencyGraph κ) : Session :=
  (initialWarnings (engine.structureRules.validate input.plugin).warnings g.directMissing).foldl
    Session.addWarning (Session.start (settingOf engine input g))

/-- What a run does after the dependencies have been found. -/
def journal (g : DependencyGraph κ) : StateM σ (List RunStep) := do
  if ← input.shouldStop then return [.poll true]
  else
    let names := checkedNames input g
    return .poll false :: (← stepsOfAll engine input (settingOf engine input g)
      (excludedClasses input.plugin g.directMissing) (max names.length 1) 0 names
      ⟨Walker.fresh true, openingSession engine input g⟩)

/-- The verdict on what a session has found. -/
def verdictOn (g : DependencyGraph κ) (s : Session) : Verdict :=
  Verdict.ofFindings [] g.directMissing s.problems s.warnings

/-- What a run answers when its checks come to an end. -/
def resultOn (input : VerificationInput σ κ) (g : DependencyGraph κ) (session : Session) :
    VerificationResult :=
  ⟨input.plugin.info, input.target, verdictOn g session, some (DynamicStatus.of input.plugin)⟩

/-- A run on a valid package finds the dependencies and then does what its journal says; its answer
is that of the journal. -/
theorem run_eq_journal (hvalid : (engine.structureRules.validate input.plugin).isValid = true) :
    run engine input = do
      let g ← DependencyGraph.build input.finder input.plugin
      match answerOf (← journal engine input g) (openingSession engine input g) with
      | .error failure => return ⟨.error failure, g.keepalives⟩
      | .ok session => do
        input.progress 1.0
        return ⟨.ok ⟨input.plugin.info, input.target, verdictOn g session,
          some (DynamicStatus.of input.plugin)⟩, g.keepalives⟩ := by
  unfold run journal
  simp only [hvalid, if_true]
  refine bind_congr ?_
  intro g
  rw [bind_assoc]
  refine bind_congr ?_
  intro stop
  cases stop with
  | true => rfl
  | false =>
      rw [if_neg Bool.false_ne_true, if_neg Bool.false_ne_true]
      unfold checkClasses
      simp only [walkAll_eq, bind_assoc, pure_bind]
      refine bind_congr ?_
      intro steps
      show (match answerOf steps (openingSession engine input g) with
        | .error failure => _
        | .ok s => _) >>= _ = _
      simp only [answerOf]
      cases answerOf steps (openingSession engine input g) with
      | error failure => rfl
      | ok session => rfl

/-- The answer of a run on a valid package. -/
theorem answer_run (hvalid : (engine.structureRules.validate input.plugin).isValid = true) (s : σ) :
    let g := ((DependencyGraph.build input.finder input.plugin).run s).1
    let s' := ((DependencyGraph.build input.finder input.plugin).run s).2
    ((run engine input).run s).1.answer =
      (answerOf ((journal engine input g).run s').1 (openingSession engine input g)).map
        (resultOn input g) := by
  intro g s'
  rw [run_eq_journal engine input hvalid]
  show VerificationOutcome.answer (StateT.run
    (match answerOf ((journal engine input g).run s').1 (openingSession engine input g) with
    | .error failure => (_ : StateM σ (VerificationOutcome κ))
    | .ok session => _) _).1 = _
  cases answerOf ((journal engine input g).run s').1 (openingSession engine input g) with
  | error failure => rfl
  | ok session => rfl

end Verification

end Linkage

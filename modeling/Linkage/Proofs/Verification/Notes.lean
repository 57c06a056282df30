import Linkage.Proofs.Verification.Findings

/-!
# Runs with notes

A run can be made to note each rule that it invokes, with the class or the member that the rule is
invoked on, and does not change by it.

* **`Invocation`** — a rule that is invoked, with what it is invoked on;
* **`notedRun`**, **`fst_notedRun`** — a run with notes is the run;
* **`Notes`** — a check with notes is the check without, and says what is new in the notes;
* **`notesOn`**, **`notedOffered_eq`** — what is noted of a class that a walk offers.
-/

namespace Linkage

/-! ## Notes -/

/-- A rule that is invoked, by its id, with what it is invoked on. -/
inductive Invocation where
  | onClass (rule : String) (c : ClassDefinition)
  | onMethod (rule : String) (c : ClassDefinition) (m : Member)
  | onField (rule : String) (c : ClassDefinition) (f : Member)
  deriving DecidableEq

/-- A check that notes which rules it invokes. -/
abbrev NotedCheck := StateT (List Invocation) Check

/-- Notes that a rule is invoked, and invokes it. -/
def noted (i : Invocation) (check : Check Unit) : NotedCheck Unit := do
  modify (· ++ [i])
  check

/-- Does a noted check for each element in turn. -/
def notedEach {α : Type} (xs : List α) (check : α → NotedCheck Unit) : NotedCheck Unit :=
  match xs with
  | [] => pure ()
  | x :: rest => do
    check x
    notedEach rest check

def Rule.notedOnClass (env : Setting) (c : ClassDefinition) (id : String) : Rule → NotedCheck Unit
  | .ofClass check => noted (.onClass id c) (check env c)
  | _ => pure ()

def Rule.notedOnMembers (env : Setting) (c : ClassDefinition) (id : String) : Rule → NotedCheck Unit
  | .ofClass _ => pure ()
  | .ofMethod check => notedEach c.methods fun m => noted (.onMethod id c m) (check env c m)
  | .ofField check => notedEach c.fields fun f => noted (.onField id c f) (check env c f)

namespace RuleRegistry

def notedOnClass (r : RuleRegistry) (env : Setting) (c : ClassDefinition) : NotedCheck Unit :=
  notedEach r.entries fun e => e.2.notedOnClass env c e.1

def notedOnMembers (r : RuleRegistry) (env : Setting) (c : ClassDefinition) : NotedCheck Unit :=
  notedEach r.entries fun e => e.2.notedOnMembers env c e.1

end RuleRegistry

/-! ## Runs with notes -/

namespace Verification

section Noted

variable {σ κ : Type} (engine : Engine) (input : VerificationInput σ κ) (env : Setting)
  (excluded : List String)

/-- `checkOffered`, with notes. -/
def notedOffered : Visitor (List Invocation) := fun c => do
  if env.isPluginClass c.name && !excluded.contains c.name then
    engine.rules.notedOnClass env c
    engine.rules.notedOnMembers env c
  return true

/-- `walkClass`, with notes. -/
def notedWalkClass (w : Walking) (c : ClassDefinition) (notes : List Invocation) :
    Walking × Option LookupFailure × List Invocation :=
  let (((_, walker), notes), session) :=
    (w.walker.walk env (notedOffered engine env excluded) c true).run notes |>.run w.session
  let (failure, session) := takeFailure.run session
  (⟨walker, session⟩, failure, notes)

/-- `walkAll`, with notes. -/
def notedWalkAll (total : Nat) : Nat → List String → Walking → List Invocation →
    StateM σ (Except VerificationFailure Session × List Invocation)
  | _, [], w, notes => do
    if ← input.shouldStop then return (.error .interrupted, notes)
    else return (.ok w.session, notes)
  | done, name :: rest, w, notes => do
    if ← input.shouldStop then return (.error .interrupted, notes)
    else
      match input.plugin.classes.get? name with
      | none => notedWalkAll total (done + 1) rest w notes
      | some c =>
        match notedWalkClass engine env excluded w c notes with
        | (_, some failure, notes) => return (.error (.classpathUnavailable failure), notes)
        | (w, none, notes) => do
          input.progress (Float.ofNat (done + 1) / Float.ofNat total)
          notedWalkAll total (done + 1) rest w notes

/-- `checkClasses`, with notes. -/
def notedCheckClasses (structureWarnings : List String) (g : DependencyGraph κ) :
    StateM σ (Except VerificationFailure Verdict × List Invocation) := do
  let missing := g.directMissing
  let excluded := excludedClasses input.plugin missing
  let env : Setting := ⟨classpathOf input g, engine.external, some input.plugin.classes⟩
  let session := (initialWarnings structureWarnings missing).foldl Session.addWarning
    (Session.start env)
  let names := input.plugin.classes.names.filter (fun n => !excluded.contains n)
  match ← notedWalkAll engine input env excluded (max names.length 1) 0 names
    ⟨Walker.fresh true, session⟩ [] with
  | (.error failure, notes) => return (.error failure, notes)
  | (.ok s, notes) => return (.ok (Verdict.ofFindings [] missing s.problems s.warnings), notes)

/-- `run`, with notes. -/
def notedRun : StateM σ (VerificationOutcome κ × List Invocation) := do
  let result (verdict : Verdict) : VerificationResult :=
    ⟨input.plugin.info, input.target, verdict, some (DynamicStatus.of input.plugin)⟩
  let report := engine.structureRules.validate input.plugin
  if report.isValid then
    let g ← DependencyGraph.build input.finder input.plugin
    if ← input.shouldStop then return (⟨.error .interrupted, g.keepalives⟩, [])
    else
      match ← notedCheckClasses engine input report.warnings g with
      | (.error failure, notes) => return (⟨.error failure, g.keepalives⟩, notes)
      | (.ok verdict, notes) => do
        input.progress 1.0
        return (⟨.ok (result verdict), g.keepalives⟩, notes)
  else
    input.progress 1.0
    return (⟨.ok (result (.bad report.errors)), []⟩, [])

/-- One more name, when nobody stops the run. -/
theorem run_notedWalkAll_cons {total done : Nat} {name : String} {rest : List String} {w : Walking}
    {notes : List Invocation} {s : σ} (hgoesOn : (input.shouldStop.run s).1 = false) :
    (notedWalkAll engine input env excluded total done (name :: rest) w notes).run s =
      (match input.plugin.classes.get? name with
        | none => notedWalkAll engine input env excluded total (done + 1) rest w notes
        | some c =>
          match notedWalkClass engine env excluded w c notes with
          | (_, some failure, notes) => return (.error (.classpathUnavailable failure), notes)
          | (w, none, notes) => do
            input.progress (Float.ofNat (done + 1) / Float.ofNat total)
            notedWalkAll engine input env excluded total (done + 1) rest w notes :
        StateM σ _).run (input.shouldStop.run s).2 := by
  rw [notedWalkAll, StateT.run_bind]
  show ((if (input.shouldStop.run s).1 = true then _ else _ : StateM σ _).run
    (input.shouldStop.run s).2) = _
  rw [hgoesOn]
  rfl

/-- A run with a plugin that is valid, when nobody stops it before the checks. -/
theorem run_notedRun_of_goesOn {s : σ}
    (hvalid : (engine.structureRules.validate input.plugin).isValid = true)
    (hgoesOn : (input.shouldStop.run
      ((DependencyGraph.build input.finder input.plugin).run s).2).1 = false) :
    (notedRun engine input).run s =
      (do
        match ← notedCheckClasses engine input (engine.structureRules.validate input.plugin).warnings
          (graphOf input s) with
        | (.error failure, notes) => return (⟨.error failure, (graphOf input s).keepalives⟩, notes)
        | (.ok verdict, notes) => do
          input.progress 1.0
          return (⟨.ok ⟨input.plugin.info, input.target, verdict,
            some (DynamicStatus.of input.plugin)⟩, (graphOf input s).keepalives⟩, notes) :
        StateM σ (VerificationOutcome κ × List Invocation)).run
        (input.shouldStop.run ((DependencyGraph.build input.finder input.plugin).run s).2).2 := by
  unfold notedRun
  simp only [hvalid, if_true]
  rw [StateT.run_bind]
  show ((if (input.shouldStop.run ((DependencyGraph.build input.finder input.plugin).run s).2).1 = true
    then _ else _ : StateM σ _).run _) = _
  rw [hgoesOn, if_neg Bool.false_ne_true]
  rfl

end Noted

end Verification

/-! ## What rules note -/

/-- The invocations of a rule for classes on a class. -/
def Rule.classInvocations (id : String) (c : ClassDefinition) : Rule → List Invocation
  | .ofClass _ => [.onClass id c]
  | _ => []

/-- The invocations of a rule for members on the members of a class. -/
def Rule.memberInvocations (id : String) (c : ClassDefinition) : Rule → List Invocation
  | .ofClass _ => []
  | .ofMethod _ => c.methods.map (.onMethod id c)
  | .ofField _ => c.fields.map (.onField id c)

/-- Each rule for classes once on the class, each rule for methods once on each of its methods, and
each rule for fields once on each of its fields. -/
def RuleRegistry.invocationsOn (r : RuleRegistry) (c : ClassDefinition) : List Invocation :=
  r.entries.flatMap fun e => e.2.classInvocations e.1 c ++ e.2.memberInvocations e.1 c

/-- A check with notes is the check without, and the notes have become longer by what is new. -/
def Notes {α : Type} (m : NotedCheck α) (check : Check α) (new : List Invocation) : Prop :=
  ∀ notes s, m notes s = (((check s).1, notes ++ new), (check s).2)

namespace Notes

variable {α : Type} {m m' : NotedCheck Unit} {check check' : Check Unit} {new new' : List Invocation}

theorem pure (x : α) : Notes (Pure.pure x) (Pure.pure x) [] := by
  intro notes s
  rw [List.append_nil]
  rfl

theorem bind {next : Unit → NotedCheck α} {next' : Unit → Check α} (h : Notes m check new)
    (h' : Notes (next ()) (next' ()) new') : Notes (m >>= next) (check >>= next') (new ++ new') := by
  intro notes s
  rw [run_bind, h notes s, ← List.append_assoc]
  exact h' (notes ++ new) (check s).2

theorem noted (i : Invocation) (check : Check Unit) : Notes (noted i check) check [i] :=
  fun _ _ => rfl

theorem each {α : Type} {xs : List α} {m : α → NotedCheck Unit} {check : α → Check Unit}
    {new : α → List Invocation} (h : ∀ x ∈ xs, Notes (m x) (check x) (new x)) :
    Notes (notedEach xs m) (Check.each xs check) (xs.flatMap new) := by
  induction xs with
  | nil => exact pure ()
  | cons x rest ih =>
      refine bind (h x List.mem_cons_self) ?_
      exact ih fun y hy => h y (List.mem_cons_of_mem _ hy)

theorem onClass (env : Setting) (c : ClassDefinition) (id : String) (rule : Rule) :
    Notes (rule.notedOnClass env c id) (rule.runOnClass env c) (rule.classInvocations id c) := by
  cases rule with
  | ofClass check => exact noted _ _
  | ofMethod check => exact pure ()
  | ofField check => exact pure ()

theorem onMembers (env : Setting) (c : ClassDefinition) (id : String) (rule : Rule) :
    Notes (rule.notedOnMembers env c id) (rule.runOnMembers env c) (rule.memberInvocations id c) := by
  cases rule with
  | ofClass check => exact pure ()
  | ofMethod check =>
      show Notes _ _ (c.methods.map _)
      rw [List.map_eq_flatMap]
      exact each fun m _ => noted _ _
  | ofField check =>
      show Notes _ _ (c.fields.map _)
      rw [List.map_eq_flatMap]
      exact each fun f _ => noted _ _

end Notes

/-- Checks for the values of a table are checks for its entries. -/
theorem each_values {κ α : Type} (t : Table κ α) (check : α → Check Unit) :
    Check.each t.values check = Check.each t.entries fun e => check e.2 := by
  unfold Table.values
  generalize t.entries = entries
  induction entries with
  | nil => rfl
  | cons e rest ih =>
      show (check e.2 >>= fun _ => Check.each (rest.map (·.2)) check) = _
      rw [ih]
      rfl

namespace Verification

variable {σ κ : Type} {engine : Engine} {input : VerificationInput σ κ} {env : Setting}
  {excluded : List String} {g : DependencyGraph κ}

/-- What is noted of a class that a walk offers. -/
def notesOn (engine : Engine) (env : Setting) (excluded : List String) (c : ClassDefinition) :
    List Invocation :=
  if env.isPluginClass c.name && !excluded.contains c.name then
    engine.rules.entries.flatMap (fun e => e.2.classInvocations e.1 c) ++
      engine.rules.entries.flatMap (fun e => e.2.memberInvocations e.1 c)
  else []

theorem notes_onClass (r : RuleRegistry) (env : Setting) (c : ClassDefinition) :
    Notes (r.notedOnClass env c) (r.runOnClass env c)
      (r.entries.flatMap fun e => e.2.classInvocations e.1 c) := by
  unfold RuleRegistry.runOnClass
  rw [each_values]
  exact .each fun e _ => .onClass env c e.1 e.2

theorem notes_onMembers (r : RuleRegistry) (env : Setting) (c : ClassDefinition) :
    Notes (r.notedOnMembers env c) (r.runOnMembers env c)
      (r.entries.flatMap fun e => e.2.memberInvocations e.1 c) := by
  unfold RuleRegistry.runOnMembers
  rw [each_values]
  exact .each fun e _ => .onMembers env c e.1 e.2

theorem notedOffered_eq (c : ClassDefinition) (notes : List Invocation) (s : Session) :
    notedOffered engine env excluded c notes s =
      (((checkOffered engine env excluded c () s).1.1, notes ++ notesOn engine env excluded c),
        (checkOffered engine env excluded c () s).2) := by
  unfold notedOffered checkOffered notesOn
  split
  · have hmembers : Notes (do engine.rules.notedOnMembers env c; pure true)
        (do engine.rules.runOnMembers env c; pure true) (_ ++ []) :=
      .bind (notes_onMembers engine.rules env c) (.pure true)
    have hboth : Notes (do engine.rules.notedOnClass env c; engine.rules.notedOnMembers env c; pure true)
        (do engine.rules.runOnClass env c; engine.rules.runOnMembers env c; pure true) _ :=
      .bind (notes_onClass engine.rules env c) hmembers
    rw [List.append_nil] at hboth
    exact hboth notes s
  · rw [List.append_nil]
    rfl

variable (engine input env excluded)

/-- Notes make no difference to a walk. -/
theorem alike_notedOffered :
    (notedOffered engine env excluded).Alike (checkOffered engine env excluded) := by
  intro c notes u s
  rw [notedOffered_eq]
  exact ⟨rfl, rfl⟩

theorem notedWalkClass_def (w : Walking) (c : ClassDefinition) (notes : List Invocation) :
    notedWalkClass engine env excluded w c notes =
      let r := w.walker.walk env (notedOffered engine env excluded) c true notes w.session
      (⟨r.1.1.2, { r.2 with failure := none }⟩, r.2.failure, r.1.2) := rfl

theorem notedWalkClass_eq (w : Walking) (c : ClassDefinition) (notes : List Invocation) :
    notedWalkClass engine env excluded w c notes =
      ((walkClass engine env excluded w c).1, (walkClass engine env excluded w c).2,
        (w.walker.walk env (notedOffered engine env excluded) c true notes w.session).1.2) := by
  obtain ⟨hend, hsession⟩ := walk_alike env (alike_notedOffered engine env excluded) w.walker c true
    notes () w.session
  rw [notedWalkClass_def]
  simp only
  rw [hend, hsession]
  rfl

theorem fst_notedWalkAll (total done : Nat) (names : List String) (w : Walking)
    (notes : List Invocation) :
    Prod.fst <$> notedWalkAll engine input env excluded total done names w notes =
      walkAll engine input env excluded total done names w := by
  induction names generalizing done w notes with
  | nil =>
      unfold notedWalkAll walkAll
      rw [map_bind]
      refine bind_congr ?_
      intro stop
      cases stop <;> rfl
  | cons name rest ih =>
      unfold notedWalkAll walkAll
      rw [map_bind]
      refine bind_congr ?_
      intro stop
      cases stop with
      | true => rfl
      | false =>
          rw [if_neg Bool.false_ne_true, if_neg Bool.false_ne_true]
          cases input.plugin.classes.get? name with
          | none => exact ih _ _ _
          | some c =>
              simp only [notedWalkClass_eq]
              rcases walkClass engine env excluded w c with ⟨w', _ | failure⟩
              · simp only
                rw [map_bind]
                refine bind_congr ?_
                intro _
                exact ih _ _ _
              · rfl

theorem fst_notedCheckClasses (structureWarnings : List String) (g : DependencyGraph κ) :
    Prod.fst <$> notedCheckClasses engine input structureWarnings g =
      checkClasses engine input structureWarnings g := by
  unfold notedCheckClasses checkClasses
  simp only
  rw [map_bind, ← fst_notedWalkAll engine input _ _ _ _ _ _ [], bind_map_left]
  refine bind_congr ?_
  rintro ⟨failure | session, notes⟩
  · rfl
  · rfl

/-- A run with notes is the run. -/
theorem fst_notedRun : Prod.fst <$> notedRun engine input = run engine input := by
  unfold notedRun run
  simp only
  split
  · rw [map_bind]
    refine bind_congr ?_
    intro g
    rw [map_bind]
    refine bind_congr ?_
    intro stop
    cases stop with
    | true => rfl
    | false =>
        rw [if_neg Bool.false_ne_true, if_neg Bool.false_ne_true, map_bind,
          ← fst_notedCheckClasses, bind_map_left]
        refine bind_congr ?_
        rintro ⟨failure | verdict, notes⟩
        · rfl
        · rfl
  · rfl

end Verification

end Linkage

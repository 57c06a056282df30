import Linkage.Proofs.Verification.Journal

/-!
# Runs that are broken off

A run ends at the first trouble: when its caller wants it to stop, or when the class path fails. After
that it walks from no class and asks the class path for nothing.

* **`StepsOf`** — the steps that a run can take from a session on;
* **`StopsAtTrouble`** — what the steps of a run and its answer have to do with each other;
* **`run_stops_at_trouble`** — it holds of every run with the rules that are there from the beginning,
  whatever fails and whenever the caller wants the run to stop.
-/

namespace Linkage.Verification

variable {σ κ : Type} {engine : Engine} {input : VerificationInput σ κ} {env : Setting}
  {excluded : List String}

/-! ## Walks of a run -/

/-- The rules that run on the classes of a walk are regular. -/
theorem regular_checkOffered (hrules : engine.rules.IsRegular) (c : ClassDefinition) (u : Unit) :
    Regular env (checkOffered engine env excluded c u) := by
  unfold checkOffered
  split
  · refine .bindState (.liftState (.eachMem fun rule hrule => ?_) u) fun _ _ =>
      .bindState (.liftState (.eachMem fun rule hrule => ?_) _) fun _ _ => .pure _
    · exact (hrules rule hrule).runOnClass env c
    · exact (hrules rule hrule).runOnMembers env c
  · exact .pure _

/-- A walk keeps the session traced. -/
theorem traced_walkFrom (hrules : engine.rules.IsRegular) {w : Walking} (c : ClassDefinition)
    (h : w.session.Traced env) : (walkFrom engine env excluded w c).session.Traced env :=
  (regular_walk (regular_checkOffered hrules) w.walker c true ()).traced h

/-! ## The steps that can be -/

variable (engine input env excluded) in
/-- The steps of a run that has still to walk from the classes named. -/
inductive StepsOf : List String → Walking → List RunStep → Prop where
  /-- The caller wants the run to stop. -/
  | stop (names : List String) (w : Walking) : StepsOf names w [.poll true]
  /-- There is no class left. -/
  | done (w : Walking) : StepsOf [] w [.poll false]
  /-- The class path fails in a walk. -/
  | fail {name : String} {rest : List String} {w : Walking} {c : ClassDefinition}
      {failure : LookupFailure} (hget : input.plugin.classes.get? name = some c)
      (hfailure : (walkFrom engine env excluded w c).session.failure = some failure) :
      StepsOf (name :: rest) w
        [.poll false, .walk name (walkFrom engine env excluded w c).session]
  | next {name : String} {rest : List String} {w : Walking} {c : ClassDefinition}
      {steps : List RunStep} (hget : input.plugin.classes.get? name = some c)
      (hfailure : (walkFrom engine env excluded w c).session.failure = none)
      (hrest : StepsOf rest (walkFrom engine env excluded w c) steps) :
      StepsOf (name :: rest) w
        (.poll false :: .walk name (walkFrom engine env excluded w c).session :: steps)

theorem stepsOf_stepsOfAll (total done : Nat) {names : List String}
    (hnames : ∀ n ∈ names, input.plugin.classes.get? n ≠ none) (w : Walking) (s : σ) :
    StepsOf engine input env excluded names w
      ((stepsOfAll engine input env excluded total done names w).run s).1 := by
  induction names generalizing done w s with
  | nil =>
      show StepsOf engine input env excluded [] w [.poll (input.shouldStop.run s).1]
      cases (input.shouldStop.run s).1 with
      | true => exact .stop [] w
      | false => exact .done w
  | cons name rest ih =>
      unfold stepsOfAll
      rw [StateT.run_bind]
      show StepsOf engine input env excluded (name :: rest) w
        (((if (input.shouldStop.run s).1 = true then _ else _ : StateM σ _).run
          (input.shouldStop.run s).2).1)
      cases (input.shouldStop.run s).1 with
      | true => exact .stop _ w
      | false =>
          rw [if_neg Bool.false_ne_true]
          cases hget : input.plugin.classes.get? name with
          | none => exact absurd hget (hnames name (List.mem_cons_self ..))
          | some c =>
              cases hfailure : (walkFrom engine env excluded w c).session.failure with
              | some failure =>
                  simp only [hfailure, Option.isSome_some, if_true]
                  exact .fail hget hfailure
              | none =>
                  simp only [hfailure, Option.isSome_none, Bool.false_eq_true, if_false]
                  exact .next hget hfailure
                    (ih (done + 1) (fun n hn => hnames n (List.mem_cons_of_mem _ hn)) _ _)

/-- The classes that a run walks from are classes of the plugin. -/
theorem get?_of_checked (g : DependencyGraph κ) {name : String}
    (h : name ∈ checkedNames input g) : input.plugin.classes.get? name ≠ none := by
  have hname := mem_sortedTexts.mp (List.mem_filter.mp h).1
  obtain ⟨c, hc, rfl⟩ := List.mem_map.mp hname
  intro hnone
  have hother := List.find?_eq_none.mp hnone c hc
  simp at hother

variable (engine input) in
/-- The steps of a run are steps that can be. -/
theorem stepsOf_checked (g : DependencyGraph κ) (s : σ) :
    StepsOf engine input (settingOf engine input g) (excludedClasses input.plugin g.directMissing)
      (checkedNames input g) ⟨Walker.fresh true, openingSession engine input g⟩
      ((stepsOfAll engine input (settingOf engine input g)
        (excludedClasses input.plugin g.directMissing) (max (checkedNames input g).length 1) 0
        (checkedNames input g) ⟨Walker.fresh true, openingSession engine input g⟩).run s).1 :=
  stepsOf_stepsOfAll _ 0 (fun _ hn => get?_of_checked g hn) _ s

/-! ## What the steps say about the answer -/

/-- The session after the last walk. -/
def lastSession : List RunStep → Session → Session
  | [], s => s
  | .poll _ :: rest, s => lastSession rest s
  | .walk _ s :: rest, _ => lastSession rest s

/-- The course of walks without trouble: the caller is asked before each and once at the end. -/
def course (names : List String) : List (Option String) :=
  (names.flatMap fun n => [none, some n]) ++ [none]

/-- The steps of a run that has a course to go, and the answer of the run. -/
structure StopsAtTrouble (env : Setting) (course : List (Option String)) (opening : Session)
    (steps : List RunStep) (answer : Except VerificationFailure Session) : Prop where
  /-- All look-ups up to a walk are those of its session, in turn, up to the first that failed. -/
  traced : ∀ start session, .walk start session ∈ steps → session.Traced env
  /-- The run goes its course as far as it goes. -/
  onCourse : steps.map RunStep.start? <+: course
  /-- A walk in which the class path fails is the last step, and the failure is the answer. -/
  failed : ∀ start session failure, .walk start session ∈ steps →
    session.failure = some failure →
      steps.getLast? = some (.walk start session) ∧ answer = .error (.classpathUnavailable failure)
  /-- When the caller wants the run to stop, that is the last step, and the answer says so. -/
  stopped : .poll true ∈ steps →
    steps.getLast? = some (.poll true) ∧ answer = .error .interrupted
  /-- A run in which neither happens goes its course to the end. -/
  fine : (∀ step ∈ steps, step.IsFine) → steps.map RunStep.start? = course ∧
    answer = .ok (lastSession steps opening)
  /-- Only such a run has a verdict. -/
  completed : ∀ session, answer = .ok session → ∀ step ∈ steps, step.IsFine

/-- One step without trouble more, in front of the others. -/
theorem StopsAtTrouble.cons {course : List (Option String)} {between opening : Session}
    {steps : List RunStep} {answer : Except VerificationFailure Session} {step : RunStep}
    (h : StopsAtTrouble env course between steps answer) (hfine : step.IsFine)
    (htraced : ∀ start session, step = .walk start session → session.Traced env)
    (hsession : lastSession (step :: steps) opening = lastSession steps between) :
    StopsAtTrouble env (step.start? :: course) opening (step :: steps) answer := by
  have hlast : ∀ {last : RunStep}, steps.getLast? = some last →
      (step :: steps).getLast? = some last := by
    intro last hlast
    rw [List.getLast?_cons, hlast]
    rfl
  exact {
    traced := by
      intro start session hmem
      rcases List.mem_cons.mp hmem with heq | hmem
      · exact htraced start session heq.symm
      · exact h.traced start session hmem
    onCourse := List.cons_prefix_cons.mpr ⟨rfl, h.onCourse⟩
    failed := by
      intro start session failure hmem hfailed
      rcases List.mem_cons.mp hmem with heq | hmem
      · -- the step in front has not failed
        have hnone : session.failure = none := by
          rw [← heq] at hfine
          exact hfine
        rw [hnone] at hfailed
        cases hfailed
      · obtain ⟨hend, hanswer⟩ := h.failed start session failure hmem hfailed
        exact ⟨hlast hend, hanswer⟩
    stopped := by
      intro hmem
      rcases List.mem_cons.mp hmem with heq | hmem
      · rw [← heq] at hfine
        cases hfine
      · obtain ⟨hend, hanswer⟩ := h.stopped hmem
        exact ⟨hlast hend, hanswer⟩
    fine := by
      intro hall
      obtain ⟨hcourse, hanswer⟩ := h.fine fun x hx => hall x (List.mem_cons_of_mem _ hx)
      rw [List.map_cons, hcourse, hsession]
      exact ⟨rfl, hanswer⟩
    completed := by
      intro session hanswer x hx
      rcases List.mem_cons.mp hx with rfl | hx
      · exact hfine
      · exact h.completed session hanswer x hx }

/-- The caller lets a run go on. -/
theorem StopsAtTrouble.goOn {course : List (Option String)} {opening : Session}
    {steps : List RunStep} {answer : Except VerificationFailure Session}
    (h : StopsAtTrouble env course opening steps answer) :
    StopsAtTrouble env (none :: course) opening (.poll false :: steps) answer := by
  have hfine : (RunStep.poll false).IsFine := rfl
  exact h.cons hfine (fun _ _ heq => by cases heq) rfl

/-- A run that is stopped at once. -/
theorem stopsAtTrouble_stop (rest : List (Option String)) (opening : Session) :
    StopsAtTrouble env (none :: rest) opening [.poll true] (.error .interrupted) := by
  refine ⟨by simp, ⟨rest, rfl⟩, by simp, fun _ => ⟨rfl, rfl⟩, ?_, fun _ h => by cases h⟩
  intro hfine
  cases hfine _ (List.mem_singleton.mpr rfl)

/-- A run whose first walk fails. -/
theorem stopsAtTrouble_fail (start : String) {session : Session} (opening : Session)
    {failure : LookupFailure} (rest : List (Option String)) (htraced : session.Traced env)
    (hfailure : session.failure = some failure) :
    StopsAtTrouble env (some start :: rest) opening [.walk start session]
      (.error (.classpathUnavailable failure)) := by
  refine ⟨?_, ⟨rest, rfl⟩, ?_, by simp, ?_, fun _ h => by cases h⟩
  · intro start' session' hmem
    injection List.mem_singleton.mp hmem with _ heq
    rw [heq]
    exact htraced
  · intro start' session' failure' hmem hfailed
    injection List.mem_singleton.mp hmem with hstart heq
    rw [heq, hfailure] at hfailed
    injection hfailed with hfailed
    rw [hstart, heq, hfailed]
    exact ⟨rfl, rfl⟩
  · intro hfine
    have hnone : session.failure = none := hfine _ (List.mem_singleton.mpr rfl)
    rw [hfailure] at hnone
    cases hnone

/-- The steps that a run can take are in keeping with its answer. -/
theorem StepsOf.stopsAtTrouble (hrules : engine.rules.IsRegular) {names : List String} {w : Walking}
    {steps : List RunStep} (h : StepsOf engine input env excluded names w steps)
    (hw : w.session.Traced env) :
    StopsAtTrouble env (course names) w.session steps (answerOf steps w.session) := by
  induction h with
  | stop names w =>
      cases names with
      | nil => exact stopsAtTrouble_stop [] w.session
      | cons name rest => exact stopsAtTrouble_stop (some name :: course rest) w.session
  | done w =>
      refine ⟨by simp, List.prefix_refl _, by simp, by simp, fun _ => ⟨rfl, rfl⟩, ?_⟩
      intro _ _ step hstep
      rw [List.mem_singleton.mp hstep]
      rfl
  | @fail name rest w c failure hget hfailure =>
      simp only [answerOf, hfailure]
      have hfail := stopsAtTrouble_fail name w.session (course rest)
        (traced_walkFrom hrules c hw) hfailure
      exact hfail.goOn
  | @next name rest w c steps hget hfailure hrest ih =>
      have htraced : (walkFrom engine env excluded w c).session.Traced env :=
        traced_walkFrom hrules c hw
      simp only [answerOf, hfailure]
      have hwalk : StopsAtTrouble env (some name :: course rest) w.session
          (.walk name (walkFrom engine env excluded w c).session :: steps)
          (answerOf steps (walkFrom engine env excluded w c).session) := by
        have hfine : (RunStep.walk name (walkFrom engine env excluded w c).session).IsFine := hfailure
        refine (ih htraced).cons hfine ?_ rfl
        intro _ _ heq
        injection heq with _ heq
        rw [← heq]
        exact htraced
      exact hwalk.goOn

/-! ## Runs -/

theorem traced_openingSession (g : DependencyGraph κ) :
    (openingSession engine input g).Traced (settingOf engine input g) := by
  unfold openingSession
  generalize initialWarnings _ _ = warnings
  have hstart := traced_start (settingOf engine input g)
  revert hstart
  generalize Session.start (settingOf engine input g) = session
  induction warnings generalizing session with
  | nil => exact fun h => h
  | cons w rest ih => exact fun h => ih _ (h.of_eq rfl rfl rfl)

theorem stopsAtTrouble_journal (hrules : engine.rules.IsRegular) (g : DependencyGraph κ) (s : σ) :
    StopsAtTrouble (settingOf engine input g) (none :: course (checkedNames input g))
      (openingSession engine input g) ((journal engine input g).run s).1
      (answerOf ((journal engine input g).run s).1 (openingSession engine input g)) := by
  unfold journal
  rw [StateT.run_bind]
  show StopsAtTrouble _ _ _
    (((if (input.shouldStop.run s).1 = true then _ else _ : StateM σ _).run
      (input.shouldStop.run s).2).1)
    (answerOf (((if (input.shouldStop.run s).1 = true then _ else _ : StateM σ _).run
      (input.shouldStop.run s).2).1) _)
  cases (input.shouldStop.run s).1 with
  | true => exact stopsAtTrouble_stop _ _
  | false =>
      rw [if_neg Bool.false_ne_true]
      have hsteps := stepsOf_checked engine input g (input.shouldStop.run s).2
      exact (hsteps.stopsAtTrouble hrules (traced_openingSession g)).goOn

/-- A run on a valid package, with the rules that are there from the beginning, goes on as long as the
class path answers and the caller lets it, and no longer; its answer tells how far it came. -/
theorem run_stops_at_trouble (structureRules : StructureRules) (external : ExternalPackages)
    (input : VerificationInput σ κ) (s : σ)
    (hvalid : (structureRules.validate input.plugin).isValid = true) :
    let engine : Engine := { structureRules := structureRules, external := external }
    let g := ((DependencyGraph.build input.finder input.plugin).run s).1
    let s' := ((DependencyGraph.build input.finder input.plugin).run s).2
    let steps := ((journal engine input g).run s').1
    let answer := answerOf steps (openingSession engine input g)
    StopsAtTrouble (settingOf engine input g) (none :: course (checkedNames input g))
        (openingSession engine input g) steps answer ∧
      ((run engine input).run s).1.answer = answer.map (resultOn input g) := by
  intro engine g s' steps answer
  exact ⟨stopsAtTrouble_journal regular_default g s', answer_run engine input hvalid s⟩

/-- A plugin with one class, whose host cannot be read. -/
def unreadableHost : VerificationInput Unit Unit where
  plugin := ⟨⟨"p", "1.0", none⟩,
    ⟨"p", [⟨"p/A", ⟨1⟩, some "h/Base", [], [], [], [], [], false, 52⟩]⟩, [], Table.empty, [], [], [],
    []⟩
  target := ⟨"241.1", "17"⟩
  host := ⟨.empty "host", fun _ _ => some ⟨"host", "disk unplugged"⟩⟩
  jdk := .reliable (.empty "jdk")
  finder := ⟨fun _ => return .notFound "none", 0⟩
  shouldStop := return false
  progress := fun _ => return ()

theorem run_unreadableHost :
    (StructureRules.default.validate unreadableHost.plugin).isValid = true ∧
      ((run {} unreadableHost).run ()).1.answer =
        .error (.classpathUnavailable ⟨"host", "disk unplugged"⟩) := by
  have hvalid : (StructureRules.default.validate unreadableHost.plugin).isValid = true := by
    decide +kernel
  have hrun := run_stops_at_trouble StructureRules.default ⟨[]⟩ unreadableHost () hvalid
  exact ⟨hvalid, hrun.2.trans rfl⟩

end Linkage.Verification

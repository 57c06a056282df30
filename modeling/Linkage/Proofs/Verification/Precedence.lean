import Linkage.Proofs.Plugin.Dependencies
import Linkage.Proofs.Verification.Findings

/-!
# Which verdict a run comes to

Errors of the package weigh most, then dependencies that the plugin itself needs and that are not
found, then problems, then warnings. What the dependencies of a plugin lack weighs nothing.

* **`Plugin.unmet`** — the declared dependencies of a plugin that are not found;
* **`directMissing_of_valid`** — these are what the graph of a valid plugin holds against it;
* **`Verdict.kind_eq_problems_iff`** and the lemmas beside it — which kind a verdict has;
* **`StepsOf.concluded`**, **`run_concluded`** — a run that nobody stops and whose class path never
  fails comes to its end, and keeps the warnings that were there before;
* **`run_precedence`** — the verdict of such a run.
-/

namespace Linkage

variable {σ κ : Type} {answers : String → DependencyAnswer κ} {p : Plugin}

/-! ## Dependencies that are not found -/

/-- Nobody finds the dependency. -/
def DependencyAnswer.Lacks (answers : String → DependencyAnswer κ) (d : Dependency) : Prop :=
  ∃ reason, answers d.id = .notFound reason

open DependencyAnswer (Lacks)

/-- What a plugin itself declares and nobody finds, in the order of the declarations. -/
def Plugin.unmet (answers : String → DependencyAnswer κ) (p : Plugin) : List MissingDependency :=
  p.dependencies.filterMap fun d => (answers d.id).reason?.map fun reason => ⟨p.info.id, d, reason⟩

theorem Plugin.mem_unmet {m : MissingDependency} :
    m ∈ p.unmet answers ↔ m.owner = p.info.id ∧ m.dependency ∈ p.dependencies ∧
      answers m.dependency.id = .notFound m.reason := by
  unfold unmet
  rw [List.mem_filterMap]
  constructor
  · rintro ⟨d, hd, hfor⟩
    cases hanswer : answers d.id with
    | found r => simp [hanswer, DependencyAnswer.reason?] at hfor
    | notFound reason =>
        simp only [hanswer, DependencyAnswer.reason?, Option.map_some, Option.some.injEq] at hfor
        subst hfor
        exact ⟨rfl, hd, hanswer⟩
  · obtain ⟨owner, d, reason⟩ := m
    rintro ⟨rfl, hd, hanswer⟩
    refine ⟨d, hd, ?_⟩
    simp only at hanswer
    simp [hanswer, DependencyAnswer.reason?]

/-- Some dependency of one kind is unmet if one of that kind is declared and not found. -/
theorem Plugin.exists_unmet (optional : Bool) :
    (∃ m ∈ p.unmet answers, m.dependency.optional = optional) ↔
      ∃ d ∈ p.dependencies, d.optional = optional ∧ Lacks answers d := by
  constructor
  · rintro ⟨m, hm, hkind⟩
    obtain ⟨-, hd, hanswer⟩ := Plugin.mem_unmet.mp hm
    exact ⟨m.dependency, hd, hkind, m.reason, hanswer⟩
  · rintro ⟨d, hd, hkind, reason, hanswer⟩
    exact ⟨⟨p.info.id, d, reason⟩, Plugin.mem_unmet.mpr ⟨rfl, hd, hanswer⟩, hkind⟩

/-- Whatever the search finds further on, a valid plugin lacks what it declares and nobody finds. -/
theorem directMissing_of_valid {finder : DependencyFinder σ κ} (hfinder : finder.AnswersBy answers)
    (hvalid : (StructureRules.default.validate p).isValid = true) (s : σ) :
    ((DependencyGraph.build finder p).run s).1.directMissing = p.unmet answers := by
  rw [DependencyGraph.directMissing_build hfinder, declaredEdges, List.filterMap_map, Plugin.unmet]
  apply List.filterMap_congr
  intro d hd
  have hother := StructureRules.id_ne_of_valid hvalid hd
  simp [missingFor, hother]

/-! ## The kind of a verdict -/

namespace Verdict

variable {missing : List MissingDependency} {problems : List Problem} {warnings : List Warning}

theorem kind_ofFindings (missing : List MissingDependency) (problems : List Problem)
    (warnings : List Warning) :
    (ofFindings [] missing problems warnings).kind =
      if missing.any (!·.dependency.optional) = true then .missingDependencies
      else if problems ≠ [] then .problems
      else if warnings ≠ [] then .warnings else .ok := by
  unfold ofFindings
  rw [if_neg (by simp)]
  split
  · rfl
  · cases problems with
    | cons problem rest => rfl
    | nil => cases warnings <;> rfl

/-- A dependency that the plugin cannot do without goes before all else. -/
theorem kind_eq_missingDependencies_iff :
    (ofFindings [] missing problems warnings).kind = .missingDependencies ↔
      missing.any (!·.dependency.optional) = true := by
  rw [kind_ofFindings]
  constructor
  · intro hkind
    by_contra hneeded
    rw [if_neg hneeded] at hkind
    split_ifs at hkind
  · intro hneeded
    rw [if_pos hneeded]

/-- Then come problems, -/
theorem kind_eq_problems_iff :
    (ofFindings [] missing problems warnings).kind = .problems ↔
      ¬ missing.any (!·.dependency.optional) = true ∧ problems ≠ [] := by
  rw [kind_ofFindings]
  constructor
  · intro hkind
    split_ifs at hkind with hneeded hproblems
    exact ⟨hneeded, hproblems⟩
  · rintro ⟨hneeded, hproblems⟩
    rw [if_neg hneeded, if_pos hproblems]

/-- then warnings, -/
theorem kind_eq_warnings_iff :
    (ofFindings [] missing problems warnings).kind = .warnings ↔
      ¬ missing.any (!·.dependency.optional) = true ∧ problems = [] ∧ warnings ≠ [] := by
  rw [kind_ofFindings]
  constructor
  · intro hkind
    split_ifs at hkind with hneeded hproblems hwarnings
    exact ⟨hneeded, not_not.mp hproblems, hwarnings⟩
  · rintro ⟨hneeded, hproblems, hwarnings⟩
    rw [if_neg hneeded, if_neg (not_not.mpr hproblems), if_pos hwarnings]

/-- and without any of them a plugin is compatible. -/
theorem kind_eq_ok_iff :
    (ofFindings [] missing problems warnings).kind = .ok ↔
      ¬ missing.any (!·.dependency.optional) = true ∧ problems = [] ∧ warnings = [] := by
  rw [kind_ofFindings]
  constructor
  · intro hkind
    split_ifs at hkind with hneeded hproblems hwarnings
    exact ⟨hneeded, not_not.mp hproblems, not_not.mp hwarnings⟩
  · rintro ⟨hneeded, hproblems, hwarnings⟩
    rw [if_neg hneeded, if_neg (not_not.mpr hproblems), if_neg (not_not.mpr hwarnings)]

/-- A verdict on missing dependencies names all of them. -/
theorem missing_ofFindings
    (hkind : (ofFindings [] missing problems warnings).kind = .missingDependencies) :
    (ofFindings [] missing problems warnings).missing = missing := by
  have hneeded := kind_eq_missingDependencies_iff.mp hkind
  unfold ofFindings
  rw [if_neg (by simp), if_pos hneeded]
  rfl

end Verdict

namespace Verification

variable {engine : Engine} {input : VerificationInput σ κ} {env : Setting} {excluded : List String}
  {g : DependencyGraph κ}

/-! ## Runs without trouble -/

variable (excluded) in
/-- A walk on a class path that never fails keeps the session faithful and its warnings in it. -/
theorem faithful_walkFrom (hpath : env.classpath.Reliable) (hrules : engine.rules.IsRegular)
    {w : Walking} (hw : Faithful env w.session) (c : ClassDefinition) :
    Faithful env (walkFrom engine env excluded w c).session ∧
      ∀ v ∈ w.session.warnings, v ∈ (walkFrom engine env excluded w c).session.warnings := by
  have hvisit : ∀ c u, Regular env (checkOffered engine env excluded c u) :=
    regular_checkOffered hrules
  have hregular := regular_walk hvisit w.walker c true ()
  obtain ⟨-, hfaithful, hboth⟩ := hregular.faithful hpath hw
  exact ⟨hfaithful, fun v hv => (hboth.warnings v).mpr (Or.inl hv)⟩

/-- The steps of a run that nobody stops and whose class path never fails come to an end. -/
theorem StepsOf.concluded (hpath : env.classpath.Reliable) (hrules : engine.rules.IsRegular)
    {names : List String} {w : Walking} {steps : List RunStep}
    (h : StepsOf engine input env excluded names w steps) (hgoesOn : RunStep.poll true ∉ steps)
    (hw : Faithful env w.session) :
    ∃ session, answerOf steps w.session = .ok session ∧
      ∀ v ∈ w.session.warnings, v ∈ session.warnings := by
  induction h with
  | stop names w => simp at hgoesOn
  | done w => exact ⟨w.session, rfl, fun _ hv => hv⟩
  | @fail name rest w c failure hget hfailure =>
      -- a faithful session has met no failure
      obtain ⟨hfaithful, -⟩ := faithful_walkFrom excluded hpath hrules hw c
      rw [hfaithful.unfailed] at hfailure
      cases hfailure
  | @next name rest w c steps hget hfailure hrest ih =>
      obtain ⟨hfaithful, hkept⟩ := faithful_walkFrom excluded hpath hrules hw c
      obtain ⟨session, hanswer, hwarnings⟩ := ih (fun hstop => hgoesOn (by simp [hstop])) hfaithful
      refine ⟨session, ?_, fun v hv => hwarnings v (hkept v hv)⟩
      simp only [answerOf, hfailure]
      exact hanswer

variable (engine) in
/-- A run that is not stopped comes to its end, with all the warnings that there were at its
beginning. -/
theorem journal_unstopped (hrules : engine.rules.IsRegular) (hanswers : Answers input)
    {g : DependencyGraph κ} {s : σ} (hgoesOn : RunStep.poll true ∉ ((journal engine input g).run s).1) :
    ∃ session,
      answerOf ((journal engine input g).run s).1 (openingSession engine input g) = .ok session ∧
      ∀ v ∈ initialWarnings (engine.structureRules.validate input.plugin).warnings g.directMissing,
        v ∈ session.warnings := by
  obtain ⟨hfaithful, -, hopening⟩ := foldl_addWarning
    (initialWarnings (engine.structureRules.validate input.plugin).warnings g.directMissing)
    (faithful_start (settingOf engine input g))
  have hjournal : ((journal engine input g).run s).1 =
      (((if (input.shouldStop.run s).1 = true then return [.poll true]
        else return .poll false :: (← stepsOfAll engine input (settingOf engine input g)
          (excludedClasses input.plugin g.directMissing) (max (checkedNames input g).length 1) 0
          (checkedNames input g) ⟨Walker.fresh true, openingSession engine input g⟩) :
        StateM σ _).run (input.shouldStop.run s).2).1) := rfl
  rw [hjournal] at hgoesOn ⊢
  cases hstop : (input.shouldStop.run s).1 with
  | true =>
      rw [hstop, if_pos rfl] at hgoesOn
      exact absurd (List.mem_singleton.mpr rfl) hgoesOn
  | false =>
      rw [hstop, if_neg Bool.false_ne_true] at hgoesOn
      rw [if_neg Bool.false_ne_true]
      obtain ⟨session, hanswer, hwarnings⟩ :=
        (stepsOf_checked engine input g (input.shouldStop.run s).2).concluded
          (reliable_classpathOf hanswers) hrules (fun hmem => hgoesOn (List.mem_cons_of_mem _ hmem))
          hfaithful
      exact ⟨session, hanswer, fun v hv => hwarnings v ((hopening v).mpr (Or.inr hv))⟩

variable (engine) in
/-- A run that nobody stops comes to its end, with all the warnings that there were at its beginning. -/
theorem journal_concluded (hrules : engine.rules.IsRegular) (hanswers : Answers input)
    (hgoesOn : ∀ s, (input.shouldStop.run s).1 = false) (g : DependencyGraph κ) (s : σ) :
    ∃ session,
      answerOf ((journal engine input g).run s).1 (openingSession engine input g) = .ok session ∧
      ∀ v ∈ initialWarnings (engine.structureRules.validate input.plugin).warnings g.directMissing,
        v ∈ session.warnings := by
  refine journal_unstopped engine hrules hanswers ?_
  unfold journal
  rw [StateT.run_bind]
  show RunStep.poll true ∉ (((if (input.shouldStop.run s).1 = true then _ else _ : StateM σ _).run
    (input.shouldStop.run s).2).1)
  rw [hgoesOn, if_neg Bool.false_ne_true]
  exact List.not_mem_cons_of_ne_of_not_mem (by simp) (not_stop_stepsOfAll hgoesOn _ _ _ _ _)

/-! ## The verdict -/

/-- What a plugin without errors in its package is judged by: the dependencies that it declares, and
what the session in which its classes were checked has in the end. -/
structure Precedence (answers : String → DependencyAnswer κ) (p : Plugin) (session : Session)
    (v : Verdict) : Prop where
  missing : v.kind = .missingDependencies ↔
    ∃ d ∈ p.dependencies, d.optional = false ∧ Lacks answers d
  problems : v.kind = .problems ↔
    (∀ d ∈ p.dependencies, Lacks answers d → d.optional = true) ∧ session.problems ≠ []
  warnings : v.kind = .warnings ↔
    (∀ d ∈ p.dependencies, Lacks answers d → d.optional = true) ∧ session.problems = [] ∧
      session.warnings ≠ []
  ok : v.kind = .ok ↔
    (∀ d ∈ p.dependencies, Lacks answers d → d.optional = true) ∧ session.problems = [] ∧
      session.warnings = []
  /-- The missing dependencies are the plugin's own, each as often as it is declared. -/
  own : v.kind = .missingDependencies → v.missing = p.unmet answers
  optional : (∃ d ∈ p.dependencies, d.optional = true ∧ Lacks answers d) → session.warnings ≠ []

theorem precedence_ofFindings (session : Session)
    (hwarnings : ∀ m ∈ p.unmet answers, m.dependency.optional = true →
      Warning.optionalDependencyNotResolved m.dependency.id m.reason ∈ session.warnings) :
    Precedence answers p session
      (.ofFindings [] (p.unmet answers) session.problems session.warnings) := by
  have hneeded : (∃ d ∈ p.dependencies, d.optional = false ∧ Lacks answers d) ↔
      (p.unmet answers).any (!·.dependency.optional) = true := by
    rw [← Plugin.exists_unmet]
    simp
  have hspared : (∀ d ∈ p.dependencies, Lacks answers d → d.optional = true) ↔
      ¬ (p.unmet answers).any (!·.dependency.optional) = true := by
    rw [← hneeded]
    simp only [not_exists, not_and]
    apply forall₂_congr
    intro d _
    cases d.optional <;> simp
  exact {
    missing := Verdict.kind_eq_missingDependencies_iff.trans hneeded.symm
    problems := by rw [Verdict.kind_eq_problems_iff, hspared]
    warnings := by rw [Verdict.kind_eq_warnings_iff, hspared]
    ok := by rw [Verdict.kind_eq_ok_iff, hspared]
    own := Verdict.missing_ofFindings
    optional := fun hlacks => by
      obtain ⟨m, hm, hkind⟩ := (Plugin.exists_unmet true).mpr hlacks
      exact List.ne_nil_of_mem (hwarnings m hm hkind) }

/-- A run on a package with errors says so and asks nobody anything: it only tells its caller that it
is done, whatever the finder, the host and the JDK would have answered. -/
theorem run_of_errors (engine : Engine) (input : VerificationInput σ κ)
    (herrors : (engine.structureRules.validate input.plugin).errors ≠ []) :
    run engine input = do
      input.progress 1.0
      return ⟨.ok ⟨input.plugin.info, input.target,
        .bad (engine.structureRules.validate input.plugin).errors,
        some (DynamicStatus.of input.plugin)⟩, []⟩ := by
  have hinvalid : (engine.structureRules.validate input.plugin).isValid = false := by
    simpa [StructureReport.isValid] using herrors
  unfold run
  simp only [hinvalid, Bool.false_eq_true, if_false]

/-- A run that is not broken off comes to a verdict of its own on the plugin and the target that it was
given, if the class path never fails. -/
theorem run_concluded (engine : Engine) (hrules : engine.rules.IsRegular)
    (input : VerificationInput σ κ) (hanswers : Answers input) (s : σ)
    (hgoesOn : ((run engine input).run s).1.answer ≠ .error .interrupted) :
    ∃ result, ((run engine input).run s).1.answer = .ok result ∧
      result.plugin = input.plugin.info ∧ result.target = input.target ∧
      result.verdict.kind.isVerified = true := by
  by_cases herrors : (engine.structureRules.validate input.plugin).errors = []
  · have hvalid : (engine.structureRules.validate input.plugin).isValid = true := by
      simpa [StructureReport.isValid] using herrors
    have hanswer := answer_run engine input hvalid s
    simp only at hanswer
    rw [hanswer] at hgoesOn ⊢
    generalize hgraph : ((DependencyGraph.build input.finder input.plugin).run s).1 = g at hgoesOn ⊢
    generalize ((DependencyGraph.build input.finder input.plugin).run s).2 = s' at hgoesOn ⊢
    have hstops : StopsAtTrouble _ _ (openingSession engine input g)
        ((journal engine input g).run s').1 _ := stopsAtTrouble_journal hrules g s'
    obtain ⟨session, hsession, -⟩ := journal_unstopped engine hrules hanswers fun hstop =>
      hgoesOn (by rw [(hstops.stopped hstop).2]; rfl)
    refine ⟨resultOn input g session, by rw [hsession]; rfl, rfl, rfl, ?_⟩
    show (verdictOn g session).kind.isVerified = true
    unfold verdictOn
    rw [Verdict.kind_ofFindings]
    split_ifs <;> rfl
  · rw [run_of_errors engine input herrors]
    exact ⟨_, rfl, rfl, rfl, rfl⟩

/-- The verdict on a plugin that is checked with the structure rules that are there from the
beginning, when answers for dependencies go by the id, the class path never fails and nobody stops the
run. -/
theorem run_precedence (rules : RuleRegistry) (hrules : rules.IsRegular)
    (external : ExternalPackages) (input : VerificationInput σ κ)
    (answers : String → DependencyAnswer κ) (hfinder : input.finder.AnswersBy answers)
    (hanswers : Answers input) (hgoesOn : ∀ s, (input.shouldStop.run s).1 = false) (s : σ) :
    let engine : Engine := { rules := rules, external := external }
    let errors := input.plugin.structureErrors ++
      StructureRules.default.values.flatMap fun rule => (rule input.plugin).errors
    let s' := ((DependencyGraph.build input.finder input.plugin).run s).2
    ∃ result, ((run engine input).run s).1.answer = .ok result ∧
      (result.verdict.kind = .bad ↔ errors ≠ []) ∧
      (errors ≠ [] → result.verdict = .bad errors ∧
        ((run engine input).run s).2 = ((input.progress 1.0).run s).2 ∧
        ∀ finder host jdk,
          run engine { input with finder := finder, host := host, jdk := jdk } = run engine input) ∧
      (errors = [] → ∃ session,
        answerOf ((journal engine input (graphOf input s)).run s').1
          (openingSession engine input (graphOf input s)) = .ok session ∧
        Precedence answers input.plugin session result.verdict) := by
  intro engine errors s'
  have hvalidate : (StructureRules.default.validate input.plugin).errors = errors :=
    StructureRules.errors_validate
  by_cases herrors : errors = []
  · have hvalid : (StructureRules.default.validate input.plugin).isValid = true := by
      unfold StructureReport.isValid
      rw [hvalidate, herrors]
      rfl
    obtain ⟨session, hanswer, hwarnings⟩ :=
      journal_concluded engine hrules hanswers hgoesOn (graphOf input s) s'
    -- whatever the graph holds further on, only the plugin's own declarations are weighed
    have hmissing : (graphOf input s).directMissing = input.plugin.unmet answers :=
      directMissing_of_valid hfinder hvalid s
    have hprecedence : Precedence answers input.plugin session
        (verdictOn (graphOf input s) session) := by
      unfold verdictOn
      rw [hmissing]
      apply precedence_ofFindings
      intro m hm hoptional
      apply hwarnings
      rw [mem_initialWarnings, hmissing]
      exact Or.inr ⟨m, hm, hoptional, rfl⟩
    refine ⟨resultOn input (graphOf input s) session, ?_, ?_, absurd herrors, fun _ =>
      ⟨session, hanswer, hprecedence⟩⟩
    · exact (answer_run engine input hvalid s).trans (congrArg (Except.map _) hanswer)
    · have hkind := Verdict.kind_ofFindings (graphOf input s).directMissing session.problems
        session.warnings
      show (verdictOn (graphOf input s) session).kind = .bad ↔ errors ≠ []
      unfold verdictOn
      rw [hkind]
      split_ifs <;> simp [herrors]
  · have hbad : (StructureRules.default.validate input.plugin).errors ≠ [] := by
      rw [hvalidate]
      exact herrors
    have hrun := run_of_errors engine input hbad
    refine ⟨⟨input.plugin.info, input.target, .bad errors, some (DynamicStatus.of input.plugin)⟩, ?_,
      ?_, fun _ => ⟨rfl, ?_, ?_⟩, fun hnone => absurd hnone herrors⟩
    · rw [hrun, ← hvalidate]
      rfl
    · exact iff_of_true rfl herrors
    · rw [hrun]
      rfl
    · intro finder host jdk
      rw [hrun, run_of_errors engine { input with finder := finder, host := host, jdk := jdk } hbad]

/-- Nothing is found but a library, which needs something that is nowhere. -/
def libraryAnswers (id : String) : DependencyAnswer Unit :=
  if id = "lib" then
    .found ⟨⟨⟨"lib", "1.0", none⟩, .empty "lib", [⟨"far", false⟩], Table.empty, [], [], [], []⟩, none⟩
  else .notFound "nowhere"

/-- A plugin that names something that is nowhere twice, and a library. -/
def withoutGone : VerificationInput Unit Unit where
  plugin := ⟨⟨"p", "1.0", none⟩,
    ⟨"p", [⟨"p/A", ⟨1⟩, some "java/lang/Object", [], [], [], [], [], false, 52⟩]⟩,
    [⟨"gone", true⟩, ⟨"lib", false⟩, ⟨"gone", false⟩], Table.empty, [], [], [], []⟩
  target := ⟨"241.1", "17"⟩
  host := .reliable (.empty "host")
  jdk := .reliable ⟨"jdk", [⟨"java/lang/Object", ⟨1⟩, none, [], [], [], [], [], false, 52⟩]⟩
  finder := ⟨fun d => return libraryAnswers d.id, 1⟩
  shouldStop := return false
  progress := fun _ => return ()

theorem run_withoutGone :
    withoutGone.finder.AnswersBy libraryAnswers ∧ Answers withoutGone ∧
      (∀ s, (withoutGone.shouldStop.run s).1 = false) ∧ RuleRegistry.default.IsRegular ∧
      ∃ result, ((run {} withoutGone).run ()).1.answer = .ok result ∧
        result.verdict.kind = .missingDependencies ∧ result.verdict.missing =
          [⟨"p", ⟨"gone", true⟩, "nowhere"⟩, ⟨"p", ⟨"gone", false⟩, "nowhere"⟩] := by
  have hfinder : withoutGone.finder.AnswersBy libraryAnswers := fun _ _ => rfl
  have hanswers : Answers withoutGone := ⟨fun _ _ => rfl, fun _ _ => rfl⟩
  obtain ⟨result, hanswer, -, -, hprecedence⟩ := run_precedence RuleRegistry.default regular_default
    ⟨[]⟩ withoutGone libraryAnswers hfinder hanswers (fun _ => rfl) ()
  obtain ⟨session, -, h⟩ := hprecedence (by decide +kernel)
  have hkind : result.verdict.kind = .missingDependencies :=
    h.missing.mpr ⟨⟨"gone", false⟩, by decide, rfl, "nowhere", rfl⟩
  exact ⟨hfinder, hanswers, fun _ => rfl, regular_default, result, hanswer, hkind,
    (h.own hkind).trans (by decide +kernel)⟩

end Verification

end Linkage

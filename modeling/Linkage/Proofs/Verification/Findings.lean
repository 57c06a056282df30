import Linkage.Proofs.Hierarchy.Reach
import Linkage.Proofs.Plugin.Structure
import Linkage.Proofs.Verification.Interruption

/-!
# What runs find

A run whose class path never fails and that nobody stops comes to a verdict, and the findings of the
verdict can be told without the run: they are those of each class by itself. Nothing is lost because
the walks share what they have visited and the checks share what they remember.

* **`IsProblem`**, **`IsWarning`** — what there is to find;
* **`StepsOf.walked`** — a run without trouble walks from all the classes that are checked;
* **`findsExactly`** — a run finds what there is to find, provided that no class on the way is named
  as an array is;
* **`run_finds_exactly`** — so does a run with the rules that are there from the beginning;
* **`not_findsExactly_arrayHost`** — a host with a class that is named as an array is.
-/

namespace Linkage

/-! ## Verdicts on findings -/

namespace Verdict

variable (missing : List MissingDependency) (problems : List Problem) (warnings : List Warning)

/-- A verdict on a valid package has all problems that were found. -/
theorem problems_ofFindings :
    (ofFindings [] missing problems warnings).problems?.getD [] = problems := by
  unfold ofFindings
  rw [if_neg (by simp)]
  split
  · rfl
  · cases problems with
    | cons p rest => rfl
    | nil => cases warnings <;> rfl

/-- A verdict on a valid package has all warnings that were found. -/
theorem warnings_ofFindings :
    (ofFindings [] missing problems warnings).warnings?.getD [] = warnings := by
  unfold ofFindings
  rw [if_neg (by simp)]
  split
  · rfl
  · cases problems with
    | cons p rest => rfl
    | nil => cases warnings <;> rfl

end Verdict

namespace Verification

variable {σ κ : Type} {engine : Engine} {input : VerificationInput σ κ} {env : Setting}
  {excluded : List String} {g : DependencyGraph κ}

/-! ## What there is to find -/

/-- What the rules find in a class by itself. -/
def findingsOn (engine : Engine) (env : Setting) (c : ClassDefinition) : Session :=
  ((do
    engine.rules.runOnClass env c
    engine.rules.runOnMembers env c : Check Unit) (Session.start env)).2

/-- The classes of the plugin that stand under no missing dependency. -/
def checkedClasses (input : VerificationInput σ κ) (g : DependencyGraph κ) : List ClassDefinition :=
  (checkedNames input g).filterMap input.plugin.classes.get?

/-- A problem that there is: a parent of a class that can be reached stands for no class, or the rules
find it in a class that is checked. -/
def IsProblem (engine : Engine) (input : VerificationInput σ κ) (g : DependencyGraph κ)
    (p : Problem) : Prop :=
  (∃ c, Reached (settingOf engine input g) (checkedClasses input g) c ∧
    ∃ name ∈ c.parentNames, Misses (settingOf engine input g) (.inClass c.name) name p) ∨
  ∃ c ∈ checkedClasses input g, p ∈ (findingsOn engine (settingOf engine input g) c).problems

/-- A warning that there is: about the package, about an optional dependency that is missing, or from
the rules. -/
def IsWarning (engine : Engine) (input : VerificationInput σ κ) (g : DependencyGraph κ)
    (w : Warning) : Prop :=
  (∃ message ∈ (engine.structureRules.validate input.plugin).warnings,
    w = .pluginStructure message) ∨
  (∃ m ∈ g.directMissing, m.dependency.optional = true ∧
    w = .optionalDependencyNotResolved m.dependency.id m.reason) ∨
  ∃ c ∈ checkedClasses input g, w ∈ (findingsOn engine (settingOf engine input g) c).warnings

/-- The dependencies that a run finds. -/
def graphOf (input : VerificationInput σ κ) (s : σ) : DependencyGraph κ :=
  ((DependencyGraph.build input.finder input.plugin).run s).1

/-- The run comes to a verdict, which has the problems and the warnings that there are. -/
def FindsExactly (engine : Engine) (input : VerificationInput σ κ) (s : σ) : Prop :=
  ∃ result, ((run engine input).run s).1.answer = .ok result ∧
    (∀ p, p ∈ result.verdict.problems?.getD [] ↔ IsProblem engine input (graphOf input s) p) ∧
    ∀ w, w ∈ result.verdict.warnings?.getD [] ↔ IsWarning engine input (graphOf input s) w

/-! ## The class path of a run -/

/-- The host and the JDK never fail. -/
structure Answers (input : VerificationInput σ κ) : Prop where
  host : ∀ n name, input.host.failing n name = none
  jdk : ∀ n name, input.jdk.failing n name = none

theorem reliable_classpathOf (h : Answers input) : (classpathOf input g).Reliable := by
  intro layer hlayer n name
  unfold classpathOf at hlayer
  rcases List.mem_append.mp hlayer with hown | houter
  · rcases List.mem_append.mp hown with hplugin | hdependency
    · rw [List.mem_singleton.mp hplugin]
      rfl
    · obtain ⟨r, -, rfl⟩ := List.mem_map.mp hdependency
      rfl
  · rcases List.mem_cons.mp houter with rfl | houter
    · exact h.host n name
    · rw [List.mem_singleton.mp houter]
      exact h.jdk n name

/-- The plugin is asked first. -/
theorem definition?_of_plugin {name : String} {c : ClassDefinition}
    (h : input.plugin.classes.get? name = some c) :
    (classpathOf input g).definition? name = some c := by
  have hlayer : (ClassSource.reliable input.plugin.classes).index.get? name = some c := h
  unfold classpathOf Classpath.definition?
  rw [List.cons_append, List.cons_append, List.findSome?_cons, hlayer]

/-! ## The classes checked -/

theorem mem_checkedClasses {c : ClassDefinition} :
    c ∈ checkedClasses input g ↔ input.plugin.classes.get? c.name = some c ∧
      c.name ∉ excludedClasses input.plugin g.directMissing := by
  unfold checkedClasses checkedNames
  rw [List.mem_filterMap]
  constructor
  · rintro ⟨name, hname, hget⟩
    have heq := ClassIndex.name_of_get? hget
    subst heq
    exact ⟨hget, by simpa using (List.mem_filter.mp hname).2⟩
  · rintro ⟨hget, hkept⟩
    refine ⟨c.name, List.mem_filter.mpr ⟨?_, by simpa using hkept⟩, hget⟩
    exact mem_sortedTexts.mpr (List.mem_map_of_mem (ClassIndex.mem_of_get? hget))

/-- The classes that a walk offers to the rules are those that are checked. -/
theorem offered_iff {d : ClassDefinition}
    (hd : (settingOf engine input g).classpath.definition? d.name = some d) :
    ((settingOf engine input g).isPluginClass d.name &&
      !(excludedClasses input.plugin g.directMissing).contains d.name) = true ↔
      d ∈ checkedClasses input g := by
  have hplugin : (settingOf engine input g).isPluginClass d.name = true ↔
      input.plugin.classes.get? d.name = some d := by
    show (input.plugin.classes.get? d.name).isSome = true ↔ _
    constructor
    · intro hsome
      obtain ⟨e, he⟩ := Option.isSome_iff_exists.mp hsome
      have hdefinition : (settingOf engine input g).classpath.definition? d.name = some e :=
        definition?_of_plugin he
      rw [he, ← hdefinition, hd]
    · intro hget
      rw [hget]
      rfl
  rw [mem_checkedClasses, Bool.and_eq_true, hplugin]
  simp

/-! ## The visitor of a run -/

theorem thorough_checkOffered (hrules : engine.rules.IsRegular) :
    Thorough env (checkOffered engine env excluded) := by
  refine ⟨regular_checkOffered hrules, ?_⟩
  intro c u s
  unfold checkOffered
  split
  · rfl
  · rfl

theorem foundIn_checkOffered (c : ClassDefinition) :
    foundIn env (checkOffered engine env excluded) c =
      if (env.isPluginClass c.name && !excluded.contains c.name) = true then findingsOn engine env c
      else Session.start env := by
  unfold foundIn checkOffered
  split
  · rfl
  · rfl

/-! ## Runs without trouble -/

/-- A caller that never wants to stop is never seen to. -/
theorem not_stop_stepsOfAll (hgoesOn : ∀ s, (input.shouldStop.run s).1 = false) (total done : Nat)
    (names : List String) (w : Walking) (s : σ) :
    RunStep.poll true ∉ ((stepsOfAll engine input env excluded total done names w).run s).1 := by
  induction names generalizing done w s with
  | nil =>
      show RunStep.poll true ∉ [RunStep.poll (input.shouldStop.run s).1]
      rw [hgoesOn]
      simp
  | cons name rest ih =>
      unfold stepsOfAll
      rw [StateT.run_bind]
      show RunStep.poll true ∉ (((if (input.shouldStop.run s).1 = true then _ else _ :
        StateM σ _).run (input.shouldStop.run s).2).1)
      rw [hgoesOn, if_neg Bool.false_ne_true]
      cases input.plugin.classes.get? name with
      | none => exact List.not_mem_cons_of_ne_of_not_mem (by simp) (ih _ _ _)
      | some c =>
          simp only
          split
          · exact List.not_mem_cons_of_ne_of_not_mem (by simp) (by simp)
          · exact List.not_mem_cons_of_ne_of_not_mem (by simp)
              (List.not_mem_cons_of_ne_of_not_mem (by simp) (ih _ _ _))

/-- One walk of a run. -/
theorem walked_walkFrom (hpath : env.classpath.Reliable) (hrules : engine.rules.IsRegular)
    {opening : Session} {roots : List ClassDefinition} {events : List WalkEvent} {w : Walking}
    (hw : Walked env (checkOffered engine env excluded) opening roots events w.walker w.session)
    (hsep : Separate env true roots) {c : ClassDefinition} (hroot : c ∈ roots) :
    Walked env (checkOffered engine env excluded) opening roots
        (events ++ w.walker.course env c true) (walkFrom engine env excluded w c).walker
        (walkFrom engine env excluded w c).session ∧
      c ∈ offeredIn (events ++ w.walker.course env c true) :=
  hw.walk hpath (thorough_checkOffered hrules) hsep hroot

/-- A run that nobody stops and whose class path never fails walks from all its classes. -/
theorem StepsOf.walked (hpath : env.classpath.Reliable) (hrules : engine.rules.IsRegular)
    {names : List String} {w : Walking} {steps : List RunStep}
    (h : StepsOf engine input env excluded names w steps) (hgoesOn : RunStep.poll true ∉ steps)
    {opening : Session} {roots : List ClassDefinition} {events : List WalkEvent}
    (hw : Walked env (checkOffered engine env excluded) opening roots events w.walker w.session)
    (hroots : ∀ name ∈ names, ∀ c, input.plugin.classes.get? name = some c → c ∈ roots)
    (hsep : Separate env true roots) :
    ∃ events' walker session, answerOf steps w.session = .ok session ∧
      Walked env (checkOffered engine env excluded) opening roots events' walker session ∧
      (∀ d ∈ offeredIn events, d ∈ offeredIn events') ∧
      ∀ name ∈ names, ∀ c, input.plugin.classes.get? name = some c → c ∈ offeredIn events' := by
  induction h generalizing events with
  | stop names w => simp at hgoesOn
  | done w => exact ⟨events, w.walker, w.session, rfl, hw, fun _ h => h, by simp⟩
  | @fail name rest w c failure hget hfailure =>
      have hroot : c ∈ roots := hroots name (List.mem_cons_self ..) c hget
      obtain ⟨hwalked, -⟩ := walked_walkFrom hpath hrules hw hsep hroot
      rw [hwalked.faithful.unfailed] at hfailure
      cases hfailure
  | @next name rest w c steps hget hfailure hrest ih =>
      have hroot : c ∈ roots := hroots name (List.mem_cons_self ..) c hget
      obtain ⟨hwalked₁, hmem⟩ := walked_walkFrom hpath hrules hw hsep hroot
      obtain ⟨events', walker, session, hanswer, hwalked, hkept, hcovered⟩ :=
        ih (fun hstop => hgoesOn (by simp [hstop])) hwalked₁
          fun n hn => hroots n (List.mem_cons_of_mem _ hn)
      refine ⟨events', walker, session, ?_, hwalked, fun d hd => hkept d ?_, ?_⟩
      · simp only [answerOf, hfailure]
        exact hanswer
      · rw [offeredIn_append]
        exact List.mem_append_left _ hd
      · intro n hn e he
        rcases List.mem_cons.mp hn with rfl | hn
        · rw [hget] at he
          injection he with he
          rw [← he]
          exact hkept c hmem
        · exact hcovered n hn e he

/-! ## The session before the walks -/

theorem foldl_addWarning (ws : List Warning) {s : Session} (h : Faithful env s) :
    Faithful env (ws.foldl Session.addWarning s) ∧
      (ws.foldl Session.addWarning s).problems = s.problems ∧
      ∀ w, w ∈ (ws.foldl Session.addWarning s).warnings ↔ w ∈ s.warnings ∨ w ∈ ws := by
  induction ws generalizing s with
  | nil => exact ⟨h, rfl, by simp⟩
  | cons v rest ih =>
      obtain ⟨hfaithful, hproblems, hwarnings⟩ := ih (h.of_eq rfl rfl : Faithful env (s.addWarning v))
      refine ⟨hfaithful, hproblems, ?_⟩
      intro w
      rw [List.foldl_cons, hwarnings, List.mem_cons, ← or_assoc]
      exact or_congr_left mem_insertNew

theorem mem_initialWarnings (messages : List String) (missing : List MissingDependency)
    (w : Warning) : w ∈ initialWarnings messages missing ↔
      (∃ message ∈ messages, w = .pluginStructure message) ∨
      ∃ m ∈ missing, m.dependency.optional = true ∧
        w = .optionalDependencyNotResolved m.dependency.id m.reason := by
  unfold initialWarnings
  rw [List.mem_append, List.mem_map, List.mem_map]
  refine or_congr ?_ ?_
  · simp only [eq_comm]
  · simp only [List.mem_filter, and_assoc, eq_comm (b := w)]

/-! ## Runs find what there is to find -/

/-- The class path of a run has the classes that are checked. -/
theorem definition?_of_checked {c : ClassDefinition} (hc : c ∈ checkedClasses input g) :
    (settingOf engine input g).classpath.definition? c.name = some c :=
  definition?_of_plugin (mem_checkedClasses.mp hc).1

/-- The steps of a run that nobody stops. -/
theorem answer_journal (hrules : engine.rules.IsRegular) (hanswers : Answers input)
    (hgoesOn : ∀ s, (input.shouldStop.run s).1 = false)
    (hsep : Separate (settingOf engine input g) true (checkedClasses input g)) (s : σ) :
    ∃ events walker session,
      answerOf ((journal engine input g).run s).1 (openingSession engine input g) = .ok session ∧
      Walked (settingOf engine input g)
        (checkOffered engine (settingOf engine input g)
          (excludedClasses input.plugin g.directMissing))
        (openingSession engine input g) (checkedClasses input g) events walker session ∧
      ∀ c ∈ checkedClasses input g, c ∈ offeredIn events := by
  have hsteps := stepsOf_checked engine input g (input.shouldStop.run s).2
  obtain ⟨hfaithful, -, -⟩ := foldl_addWarning
    (initialWarnings (engine.structureRules.validate input.plugin).warnings g.directMissing)
    (faithful_start (settingOf engine input g))
  obtain ⟨events, walker, session, hanswer, hwalked, -, hcovered⟩ :=
    hsteps.walked (reliable_classpathOf hanswers) hrules (not_stop_stepsOfAll hgoesOn _ _ _ _ _)
      (walked_fresh hfaithful (checkedClasses input g))
      (fun name hname c hget => List.mem_filterMap.mpr ⟨name, hname, hget⟩) hsep
  refine ⟨events, walker, session, ?_, hwalked, ?_⟩
  · unfold journal
    rw [StateT.run_bind]
    show answerOf (((if (input.shouldStop.run s).1 = true then _ else _ : StateM σ _).run
      (input.shouldStop.run s).2).1) _ = _
    rw [hgoesOn, if_neg Bool.false_ne_true]
    exact hanswer
  · intro c hc
    obtain ⟨name, hname, hget⟩ := List.mem_filterMap.mp hc
    exact hcovered name hname c hget

/-- What is found in the classes walked is what is found in those checked. -/
theorem found_iff {events : List WalkEvent}
    (hknown : ∀ d ∈ offeredIn events,
      (settingOf engine input g).classpath.definition? d.name = some d)
    (hroots : ∀ c ∈ checkedClasses input g, c ∈ offeredIn events) {P : Session → Prop}
    (hstart : ¬ P (Session.start (settingOf engine input g))) :
    (∃ d ∈ offeredIn events, P (foundIn (settingOf engine input g)
      (checkOffered engine (settingOf engine input g)
        (excludedClasses input.plugin g.directMissing)) d)) ↔
      ∃ c ∈ checkedClasses input g, P (findingsOn engine (settingOf engine input g) c) := by
  constructor
  · rintro ⟨d, hd, hfound⟩
    rw [foundIn_checkOffered] at hfound
    split at hfound
    · next hoffered => exact ⟨d, (offered_iff (hknown d hd)).mp hoffered, hfound⟩
    · exact absurd hfound hstart
  · rintro ⟨c, hc, hfound⟩
    have hdone := hroots c hc
    refine ⟨c, hdone, ?_⟩
    rw [foundIn_checkOffered, if_pos ((offered_iff (hknown c hdone)).mpr hc)]
    exact hfound

/-- A run on a valid package that nobody stops, and whose class path never fails, finds what there is
to find, if the classes on its way are not named as arrays are. -/
theorem findsExactly (hrules : engine.rules.IsRegular)
    (hvalid : (engine.structureRules.validate input.plugin).isValid = true)
    (hanswers : Answers input) (hgoesOn : ∀ s, (input.shouldStop.run s).1 = false) (s : σ)
    (hplain : NamedPlainly (settingOf engine input (graphOf input s))
      (checkedClasses input (graphOf input s))) :
    FindsExactly engine input s := by
  have hchecked : ∀ c ∈ checkedClasses input (graphOf input s),
      (settingOf engine input (graphOf input s)).classpath.definition? c.name = some c :=
    fun _ hc => definition?_of_checked hc
  have hsep := separate_of_namedPlainly hchecked hplain
  obtain ⟨events, walker, session, hanswer, hwalked, hroots⟩ :=
    answer_journal hrules hanswers hgoesOn hsep
      ((DependencyGraph.build input.finder input.plugin).run s).2
  have hknown : ∀ d ∈ offeredIn events,
      (settingOf engine input (graphOf input s)).classpath.definition? d.name = some d :=
    fun d hd => definition?_of_reached hchecked ((hwalked.mem_iff hsep hroots d).mp hd)
  obtain ⟨-, hproblems, hwarnings⟩ := foldl_addWarning
    (initialWarnings (engine.structureRules.validate input.plugin).warnings
      (graphOf input s).directMissing)
    (faithful_start (settingOf engine input (graphOf input s)))
  refine ⟨resultOn input (graphOf input s) session, ?_, ?_, ?_⟩
  · have hrun := answer_run engine input hvalid s
    exact hrun.trans (congrArg (Except.map _) hanswer)
  · intro p
    show p ∈ (Verdict.ofFindings [] _ session.problems session.warnings).problems?.getD [] ↔ _
    have hnone : p ∉ (openingSession engine input (graphOf input s)).problems := by
      unfold openingSession
      rw [hproblems]
      exact List.not_mem_nil
    rw [Verdict.problems_ofFindings, hwalked.finds.problems, or_iff_right hnone,
      hwalked.missed_iff hsep hroots]
    unfold IsProblem
    refine or_congr_right ?_
    exact found_iff hknown hroots (P := fun s => p ∈ s.problems) List.not_mem_nil
  · intro w
    show w ∈ (Verdict.ofFindings [] _ session.problems session.warnings).warnings?.getD [] ↔ _
    have hinitial : w ∈ (openingSession engine input (graphOf input s)).warnings ↔
        w ∈ initialWarnings (engine.structureRules.validate input.plugin).warnings
          (graphOf input s).directMissing := by
      unfold openingSession
      rw [hwarnings]
      exact or_iff_right List.not_mem_nil
    rw [Verdict.warnings_ofFindings, hwalked.finds.warnings, hinitial, mem_initialWarnings, or_assoc]
    unfold IsWarning
    refine or_congr_right (or_congr_right ?_)
    exact found_iff hknown hroots (P := fun s => w ∈ s.warnings) List.not_mem_nil

/-- A well-formed name is not that of an array. -/
theorem isArrayName_of_wellFormed {name : String}
    (h : StructureRule.isWellFormedName name = true) : Rules.isArrayName name = false := by
  unfold StructureRule.isWellFormedName at h
  unfold Rules.isArrayName
  cases hname : name.toList with
  | nil => rfl
  | cons c rest =>
      rw [hname] at h
      by_contra harray
      have hc : c = '[' := by simpa using harray
      rw [hc] at h
      simp at h

/-- A run with the rules that are there from the beginning, on a valid package, that nobody stops and
whose class path never fails, finds what there is to find, provided that no parent that is given as an
array has the very name of a class outside the plugin. -/
theorem run_finds_exactly (external : ExternalPackages) (input : VerificationInput σ κ) (s : σ)
    (hvalid : (StructureRules.default.validate input.plugin).isValid = true)
    (hanswers : Answers input) (hgoesOn : ∀ s, (input.shouldStop.run s).1 = false)
    (hplain : ∀ c d,
      Reached (settingOf { external := external } input (graphOf input s))
        (checkedClasses input (graphOf input s)) c →
      Reached (settingOf { external := external } input (graphOf input s))
        (checkedClasses input (graphOf input s)) d →
      input.plugin.classes.contains d.name = false → d.name ∈ c.parentNames →
        Rules.isArrayName d.name = false) :
    FindsExactly { external := external } input s := by
  refine findsExactly regular_default hvalid hanswers hgoesOn s ?_
  intro c d hc hd hparent
  refine isPlain_of_not_array ?_
  cases hcontains : input.plugin.classes.contains d.name with
  | false => exact hplain c d hc hd hcontains hparent
  | true =>
      obtain ⟨e, hget⟩ := Option.isSome_iff_exists.mp hcontains
      have hwell := StructureRules.isWellFormedName_of_valid hvalid (ClassIndex.mem_of_get? hget)
      rw [ClassIndex.name_of_get? hget] at hwell
      exact isArrayName_of_wellFormed hwell

/-- A plugin with one class, whose superclass is in the host. -/
def underHost (host : List ClassDefinition) : VerificationInput Unit Unit where
  plugin := ⟨⟨"p", "1.0", none⟩,
    ⟨"p", [⟨"p/A", ⟨1⟩, some "h/Base", [], [], [], [], [], false, 52⟩]⟩, [], Table.empty, [], [], [],
    []⟩
  target := ⟨"241.1", "17"⟩
  host := .reliable ⟨"host", host⟩
  jdk := .reliable ⟨"jdk", [⟨"java/lang/Object", ⟨1⟩, none, [], [], [], [], [], false, 52⟩]⟩
  finder := ⟨fun _ => return .notFound "none", 0⟩
  shouldStop := return false
  progress := fun _ => return ()

/-- A host whose class lacks its superclass. -/
def brokenHost : List ClassDefinition :=
  [⟨"h/Base", ⟨1⟩, some "h/Gone", [], [], [], [], [], false, 52⟩]

theorem run_brokenHost :
    (StructureRules.default.validate (underHost brokenHost).plugin).isValid = true ∧
      FindsExactly { external := ⟨[]⟩ } (underHost brokenHost) () ∧
        ((run {} (underHost brokenHost)).run ()).1.answer.toOption.map (·.verdict) =
          some (.problems [.classNotFound "h/Gone" (.inClass "h/Base")] []) := by
  have hvalid : (StructureRules.default.validate (underHost brokenHost).plugin).isValid = true := by
    decide +kernel
  have hnames : ∀ d ∈ checkedClasses (underHost brokenHost) (graphOf (underHost brokenHost) ()) ++
      (settingOf {} (underHost brokenHost) (graphOf (underHost brokenHost) ())).classpath.classes,
      Rules.isArrayName d.name = false := by
    decide +kernel
  refine ⟨hvalid, ?_, by decide +kernel⟩
  refine run_finds_exactly ⟨[]⟩ (underHost brokenHost) () hvalid ⟨fun _ _ => rfl, fun _ _ => rfl⟩
    (fun _ => rfl) ?_
  intro c d _ hd _ _
  exact hnames d (List.mem_append.mpr hd.mem)

/-- A host with a class that is named as an array is; its superclass is given as an array of it, and
it is also given as an array of another class. -/
def arrayHost : List ClassDefinition :=
  [⟨"h/Base", ⟨1⟩, some "[L[LY;;", ["[LY;"], [], [], [], [], false, 52⟩,
    ⟨"[LY;", ⟨1⟩, some "java/lang/Object", [], [], [], [], [], false, 52⟩]

/-- When the walker comes to the second parent, its name is that of a class visited before, so nobody
sees that its own class is missing. -/
theorem not_findsExactly_arrayHost :
    (StructureRules.default.validate (underHost arrayHost).plugin).isValid = true ∧
      Answers (underHost arrayHost) ∧ (∀ s, ((underHost arrayHost).shouldStop.run s).1 = false) ∧
        ¬ FindsExactly { external := ⟨[]⟩ } (underHost arrayHost) () := by
  refine ⟨by decide +kernel, ⟨fun _ _ => rfl, fun _ _ => rfl⟩, fun _ => rfl, ?_⟩
  rintro ⟨result, hanswer, hproblems, -⟩
  have hrun : ((run { external := ⟨[]⟩ } (underHost arrayHost)).run ()).1.answer.toOption.map
      (·.verdict) = some .ok := by
    decide +kernel
  have hmissed : IsProblem { external := ⟨[]⟩ } (underHost arrayHost)
      (graphOf (underHost arrayHost) ()) (.classNotFound "Y" (.inClass "h/Base")) := by
    refine Or.inl ⟨⟨"h/Base", ⟨1⟩, some "[L[LY;;", ["[LY;"], [], [], [], [], false, 52⟩, ?_,
      "[LY;", by decide +kernel, "Y", rfl, rfl, rfl, rfl⟩
    refine ⟨⟨"p/A", ⟨1⟩, some "h/Base", [], [], [], [], [], false, 52⟩, by decide +kernel, ?_⟩
    exact .single ⟨"h/Base", by decide +kernel, rfl⟩
  rw [hanswer] at hrun
  have hok : result.verdict = .ok := Option.some.inj hrun
  have hmem := (hproblems _).mpr hmissed
  rw [hok] at hmem
  cases hmem

end Verification

end Linkage

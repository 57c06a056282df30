import Linkage.Proofs.Verification.NotedWalks

/-!
# Which rules run on what

The classes that are offered in the course of a run include those of its dependencies and of the host. Rules are
invoked on those of the plugin only, and not on the ones that are excluded.

* **`run_notedRun`** — a run that nobody stops comes to the end of its checks;
* **`flatMap_notesOn`** — the notes on all classes that were offered are those on the classes that are
  checked;
* **`RunsRulesOnce`**, **`runs_rules_once`** — a run that nobody stops and whose class path never fails
  invokes each rule once on each class of the plugin that is checked and on each of its members, and on
  nothing else.
-/

namespace Linkage

namespace Verification

variable {σ κ : Type} {engine : Engine} {input : VerificationInput σ κ} {g : DependencyGraph κ}

/-- The checks of a run, with notes. -/
theorem notedCheckClasses_eq (g : DependencyGraph κ) :
    notedCheckClasses engine input (engine.structureRules.validate input.plugin).warnings g = do
      match ← notedWalkAll engine input (settingOf engine input g)
        (excludedClasses input.plugin g.directMissing) (max (checkedNames input g).length 1) 0
        (checkedNames input g) ⟨Walker.fresh true, openingSession engine input g⟩ [] with
      | (.error failure, notes) => return (.error failure, notes)
      | (.ok session, notes) => return (.ok (verdictOn g session), notes) := rfl

/-- The checks of a run that nobody stops. -/
theorem run_notedCheckClasses (hanswers : Answers input)
    (hgoesOn : ∀ s, (input.shouldStop.run s).1 = false)
    (hrules : engine.rules.IsTame (settingOf engine input g)) (s : σ) :
    ∃ (seen : List ClassDefinition) (verdict : Verdict) (s' : σ),
      (notedCheckClasses engine input (engine.structureRules.validate input.plugin).warnings g).run s =
        ((.ok verdict, seen.flatMap (notesOn engine (settingOf engine input g)
          (excludedClasses input.plugin g.directMissing))), s') ∧
      (seen.map (·.name)).Nodup ∧
      (∀ d ∈ seen, (settingOf engine input g).classpath.definition? d.name = some d) ∧
      ∀ c ∈ checkedClasses input g, c ∈ seen := by
  obtain ⟨hfaithful, -, -⟩ := foldl_addWarning
    (initialWarnings (engine.structureRules.validate input.plugin).warnings g.directMissing)
    (faithful_start (settingOf engine input g))
  have hopening : Seen engine (settingOf engine input g) (excludedClasses input.plugin g.directMissing)
      [] ⟨Walker.fresh true, openingSession engine input g⟩ [] :=
    ⟨hfaithful, rfl, List.nodup_nil, by simp, rfl⟩
  obtain ⟨seen, session, s', hrun, hdistinct, hknown, hall⟩ := hopening.walkAll
    (reliable_classpathOf hanswers) hrules hgoesOn
    (fun name c hget => definition?_of_plugin ((ClassIndex.name_of_get? hget).symm ▸ hget))
    (max (checkedNames input g).length 1) 0 (checkedNames input g) s
  rw [List.nil_append] at hrun hdistinct hknown hall
  refine ⟨seen, verdictOn g session, s', ?_, hdistinct, hknown, ?_⟩
  · rw [notedCheckClasses_eq, StateT.run_bind, hrun]
    rfl
  · intro c hc
    obtain ⟨name, hname, hget⟩ := List.mem_filterMap.mp hc
    exact hall name hname c hget

/-- A run that nobody stops comes to the end of its checks. -/
theorem run_notedRun (hvalid : (engine.structureRules.validate input.plugin).isValid = true)
    (hgoesOn : ∀ s, (input.shouldStop.run s).1 = false) (s : σ) {verdict : Verdict}
    {notes : List Invocation} {s' : σ}
    (hchecked : (notedCheckClasses engine input (engine.structureRules.validate input.plugin).warnings
      (graphOf input s)).run
        (input.shouldStop.run ((DependencyGraph.build input.finder input.plugin).run s).2).2 =
      ((.ok verdict, notes), s')) :
    ((notedRun engine input).run s).1.1.answer =
        .ok ⟨input.plugin.info, input.target, verdict, some (DynamicStatus.of input.plugin)⟩ ∧
      ((notedRun engine input).run s).1.2 = notes := by
  rw [run_notedRun_of_goesOn engine input hvalid (hgoesOn _), StateT.run_bind, hchecked]
  exact ⟨rfl, rfl⟩

/-- The notes on the classes that are checked are those on all that were offered. -/
theorem flatMap_notesOn {seen : List ClassDefinition}
    (hknown : ∀ d ∈ seen, (settingOf engine input g).classpath.definition? d.name = some d) :
    (seen.flatMap (notesOn engine (settingOf engine input g)
      (excludedClasses input.plugin g.directMissing))).Perm
        ((seen.filter (· ∈ checkedClasses input g)).flatMap engine.rules.invocationsOn) := by
  induction seen with
  | nil => exact .nil
  | cons d rest ih =>
      have hrest := ih fun e he => hknown e (List.mem_cons_of_mem _ he)
      have hoffered := offered_iff (hknown d List.mem_cons_self)
      rw [List.flatMap_cons]
      unfold notesOn
      by_cases hd : d ∈ checkedClasses input g
      · rw [if_pos (hoffered.mpr hd), List.filter_cons_of_pos (by simpa using hd), List.flatMap_cons]
        exact .append (List.flatMap_append_perm _ _ _) hrest
      · rw [if_neg fun h => hd (hoffered.mp h), List.filter_cons_of_neg (by simpa using hd),
          List.nil_append]
        exact hrest

/-- The run comes to a verdict, with notes as without, and has invoked each rule once on each class of
the plugin that is checked and on each member of it, and no rule on anything else. -/
structure RunsRulesOnce (engine : Engine) (input : VerificationInput σ κ) (s : σ) : Prop where
  same : Prod.fst <$> notedRun engine input = run engine input
  verdict : ∃ result, ((notedRun engine input).run s).1.1.answer = .ok result
  once : ∃ classes : List ClassDefinition, classes.Nodup ∧
    (∀ c, c ∈ classes ↔ input.plugin.classes.get? c.name = some c ∧
      c.name ∉ excludedClasses input.plugin (graphOf input s).directMissing) ∧
    ((notedRun engine input).run s).1.2.Perm (classes.flatMap engine.rules.invocationsOn)

/-- A run that nobody stops invokes the rules once, on a class path that never fails. -/
theorem runs_rules_once (engine : Engine) (input : VerificationInput σ κ) (s : σ)
    (hvalid : (engine.structureRules.validate input.plugin).isValid = true)
    (hanswers : Answers input) (hgoesOn : ∀ s, (input.shouldStop.run s).1 = false)
    (hrules : engine.rules.IsTame (settingOf engine input (graphOf input s))) :
    RunsRulesOnce engine input s := by
  obtain ⟨seen, verdict, s', hchecked, hdistinct, hknown, hall⟩ :=
    run_notedCheckClasses hanswers hgoesOn hrules
      (input.shouldStop.run ((DependencyGraph.build input.finder input.plugin).run s).2).2
  obtain ⟨hanswer, hnotes⟩ := run_notedRun hvalid hgoesOn s hchecked
  refine ⟨fst_notedRun engine input, ⟨_, hanswer⟩,
    seen.filter (· ∈ checkedClasses input (graphOf input s)), ?_, ?_, ?_⟩
  · exact (List.Nodup.of_map _ hdistinct).filter _
  · intro c
    rw [List.mem_filter, ← mem_checkedClasses, decide_eq_true_eq]
    exact ⟨And.right, fun hc => ⟨hall c hc, hc⟩⟩
  · rw [hnotes]
    exact flatMap_notesOn hknown

/-- A rule that says which class it is invoked on as long as no problem has been found. -/
def announce : Rule := .ofClass fun _ c s =>
  ((), if s.problems.isEmpty then s.addWarning (.pluginStructure c.name) else s)

theorem announce_isTame (env : Setting) : announce.IsTame env := by
  have hsame : ∀ (c : ClassDefinition) (s : Session),
      ((if s.problems.isEmpty then s.addWarning (.pluginStructure c.name) else s : Session).problems =
        s.problems) ∧
      (Faithful env s → Faithful env
        (if s.problems.isEmpty then s.addWarning (.pluginStructure c.name) else s)) := by
    intro c s
    split
    · exact ⟨rfl, fun h => h.of_eq rfl rfl⟩
    · exact ⟨rfl, fun h => h⟩
  intro c
  refine ⟨fun s => (hsame c s).2, ?_, ?_⟩
  · intro s _ p hp
    exact (hsame c s).1.symm ▸ hp
  · intro s hs
    exact (hsame c s).1.symm ▸ hs

/-- A library with a class, and nothing else. -/
def namesakeLibrary (id : String) : DependencyAnswer Unit :=
  if id = "lib" then
    .found ⟨⟨⟨"lib", "1.0", none⟩, ⟨"lib", [⟨"p/B", ⟨1⟩, none, [], [], [], [], [], false, 52⟩]⟩, [],
      Table.empty, [], [], [], []⟩, none⟩
  else .notFound "nowhere"

/-- A class of the plugin is met first as the superclass of another, and has the name of a class of a
library that the plugin depends on; its own superclass stands under a dependency that is missing. -/
def interwoven : VerificationInput Unit Unit where
  plugin := ⟨⟨"p", "1.0", none⟩,
    ⟨"p", [⟨"p/A", ⟨1⟩, some "p/B", [], [⟨"run", "()V", ⟨1⟩, false⟩], [], [], [], false, 52⟩,
      ⟨"p/B", ⟨1⟩, some "p/C", [], [], [⟨"count", "I", ⟨1⟩, false⟩], [], [], false, 52⟩,
      ⟨"p/C", ⟨1⟩, some "h/Base", [], [⟨"run", "()V", ⟨1⟩, false⟩], [], [], [], false, 52⟩]⟩,
    [⟨"lib", false⟩, ⟨"gone", true⟩], ⟨[("gone", ["p/C"])]⟩, [], [], [], []⟩
  target := ⟨"241.1", "17"⟩
  host := .reliable ⟨"host", [⟨"h/Base", ⟨1⟩, none, [], [⟨"run", "()V", ⟨1⟩, false⟩], [], [], [],
    false, 52⟩]⟩
  jdk := .reliable ⟨"jdk", [⟨"java/lang/Object", ⟨1⟩, none, [], [], [], [], [], false, 52⟩]⟩
  finder := ⟨fun d => return namesakeLibrary d.id, 1⟩
  shouldStop := return false
  progress := fun _ => return ()

/-- The rules that are there from the beginning, and one more. -/
def announcing : Engine := { rules := ⟨RuleRegistry.default.entries ++ [("announce", announce)]⟩ }

theorem runs_rules_once_interwoven :
    (announcing.structureRules.validate interwoven.plugin).isValid = true ∧ Answers interwoven ∧
      RunsRulesOnce announcing interwoven () ∧
      (((notedRun announcing interwoven).run ()).1.2.filterMap fun i =>
        match i with
        | .onClass rule c => if rule = "announce" then some c.name else none
        | _ => none) = ["p/A", "p/B"] := by
  have hvalid : (announcing.structureRules.validate interwoven.plugin).isValid = true := by
    decide +kernel
  have hanswers : Answers interwoven := ⟨fun _ _ => rfl, fun _ _ => rfl⟩
  have hrules : announcing.rules.IsTame (settingOf announcing interwoven (graphOf interwoven ())) := by
    intro rule hrule
    have hrule : rule ∈ RuleRegistry.default.values ++ [announce] := hrule
    rcases List.mem_append.mp hrule with hdefault | hown
    · exact regular_default.tame (reliable_classpathOf hanswers) rule hdefault
    · rw [List.mem_singleton.mp hown]
      exact announce_isTame _
  exact ⟨hvalid, hanswers, runs_rules_once announcing interwoven () hvalid hanswers (fun _ => rfl) hrules,
    by decide +kernel⟩

end Verification

end Linkage

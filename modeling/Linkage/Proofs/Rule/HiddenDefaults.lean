import Linkage.Proofs.Rule.MissingBodies

/-!
# Bodies that interfaces take back

An interface may take back the body that one of its own interfaces has, by declaring the method once more
without one. Then a class that gets the method from both inherits no body.

Along superclasses the rule about abstract methods goes by the nearest declaration. Of interfaces it only
asks whether any of them has a body, and so takes the body for inherited that was taken back.

* **`TakesBack`**, **`InheritsNoBody`** — no body of an interface comes down to a class;
* **`lack_reported_iff`** — this is reported exactly if no interface has had a body at all;
* **`lack_unreported`** — a class without a body of which nothing is reported.
-/

namespace Linkage

/-- The interface `j` declares a method without a body that its interface `i` has given one. -/
structure TakesBack (env : Setting) (σ : Signature) (j i : ClassDefinition) : Prop where
  isInterface : j.isInterface = true
  demands : j.Demands σ
  below : ∃ n, InterfaceName env j n ∧ env.resolved n = some i

/-- No body for a signature comes down to a concrete class: neither the class nor a superclass declares
the signature, and the body of an interface is always taken back by an interface below. -/
structure InheritsNoBody (env : Setting) (c : ClassDefinition) (σ : Signature) : Prop where
  concrete : c.isConcrete = true
  complete : (ancestryOf env c).complete = true
  undeclared : ∀ e ∈ c.chain (ancestryOf env c).classes, ∀ x ∈ e.methods, ¬ x.Answers σ
  hidden : ∀ i ∈ (ancestryOf env c).classes, i.isInterface = true → i.Supplies σ →
    ∃ j ∈ (ancestryOf env c).classes, TakesBack env σ j i

/-- It is reported that a class has no body for a signature. -/
def ReportsLack (c : ClassDefinition) (σ : Signature) (problems : List Problem) : Prop :=
  ∃ owner, .methodNotImplemented c.name ⟨owner, σ.name, σ.descriptor⟩ ∈ problems

section Defaults

variable {env : Setting} {c : ClassDefinition} {σ : Signature}

/-- A signature that superclasses do not declare lacks a body if an ancestor demands one and no interface
has one. -/
theorem exists_lacksBody_iff {ancestors : List ClassDefinition}
    (hchain : ∀ e ∈ c.chain ancestors, ∀ x ∈ e.methods, ¬ x.Answers σ) :
    (∃ d, LacksBody σ c ancestors d) ↔ (∃ a ∈ ancestors, a.Demands σ) ∧
      ∀ i ∈ ancestors, i.isInterface = true → ¬ i.Supplies σ := by
  constructor
  · rintro ⟨d, hlacks⟩
    cases hlacks with
    | hidden _ hnearest _ =>
        obtain ⟨hd, hm⟩ := hnearest.mem
        exact absurd hnearest.fits (hchain d hd _ hm)
    | absent _ hdefaults hfirst =>
        obtain ⟨hd, hm⟩ := hfirst.mem
        exact ⟨⟨d, hd, _, hm, hfirst.fits⟩, hdefaults⟩
  · rintro ⟨hdemanded, hdefaults⟩
    obtain ⟨d, m, hfirst⟩ := exists_firstDeclared (p := (·.Demands σ)) hdemanded
    exact ⟨d, .absent hchain hdefaults hfirst⟩

/-- What is reported of a signature by the rule is that it lacks a body. -/
theorem reportsLack_bodyReports_iff (hconcrete : c.isConcrete = true)
    (hcomplete : (ancestryOf env c).complete = true) :
    ReportsLack c σ (bodyReports env c) ↔ ∃ d, LacksBody σ c (ancestryOf env c).classes d := by
  constructor
  · rintro ⟨owner, hp⟩
    obtain ⟨σ', d, hd, heq⟩ := exists_lacksBody_of_mem hp
    obtain rfl : σ = σ' := Option.some.inj (congrArg Problem.bodiless? heq)
    exact ⟨d, hd⟩
  · rintro ⟨d, hd⟩
    have hmem : lackOf c d σ ∈ (bodyReports env c).filter fun p => p.bodiless? = some σ := by
      rw [hd.filter_bodyReports hconcrete hcomplete]
      exact List.mem_singleton_self _
    exact ⟨d.name, List.mem_of_mem_filter hmem⟩

theorem reportsLack_foldl_iff {before new : List Problem} :
    ReportsLack c σ (new.foldl insertNew before) ↔ ReportsLack c σ before ∨ ReportsLack c σ new := by
  unfold ReportsLack
  simp only [mem_foldl_insertNew, exists_or]

end Defaults

/-- Of a class that inherits no body for a signature this is reported exactly if an ancestor demands one and
no interface has ever had one. If an interface has had one, the signature is demanded where it was taken
back, and yet nothing is reported of it. -/
theorem lack_reported_iff {env : Setting} (hpath : env.classpath.Reliable) {c : ClassDefinition}
    {σ : Signature} (h : InheritsNoBody env c σ) :
    (∀ s, Faithful env s →
      (ReportsLack c σ (Rules.abstractMethodsImplemented env c s).2.problems ↔
        ReportsLack c σ s.problems ∨ (∃ a ∈ (ancestryOf env c).classes, a.Demands σ) ∧
          ∀ i ∈ (ancestryOf env c).classes, i.isInterface = true → ¬ i.Supplies σ)) ∧
    ((∃ i ∈ (ancestryOf env c).classes, i.isInterface = true ∧ i.Supplies σ) →
      (∃ a ∈ (ancestryOf env c).classes, a.Demands σ) ∧ ¬ ReportsLack c σ (missingBodies env c)) := by
  have hreported : ReportsLack c σ (bodyReports env c) ↔
      (∃ a ∈ (ancestryOf env c).classes, a.Demands σ) ∧
        ∀ i ∈ (ancestryOf env c).classes, i.isInterface = true → ¬ i.Supplies σ := by
    rw [reportsLack_bodyReports_iff h.concrete h.complete, exists_lacksBody_iff h.undeclared]
  refine ⟨?_, ?_⟩
  · intro s hs
    rw [(findings_abstractMethodsImplemented hpath c hs).1, reportsLack_foldl_iff, hreported]
  · rintro ⟨i, hi, hinterface, hsupplies⟩
    obtain ⟨j, hj, htakes⟩ := h.hidden i hi hinterface hsupplies
    refine ⟨⟨j, hj, htakes.demands⟩, ?_⟩
    rw [missingBodies_eq hpath, hreported]
    rintro ⟨-, hnone⟩
    exact hnone i hi hinterface hsupplies

/-- A class with an interface. -/
def worker : ClassDefinition := classUnder "p/Job" (some ClassName.root) ["h/Task"]

/-- The interface asks for a body, and extends another interface, which has this method. -/
def takenBack (m : Member) : List ClassDefinition :=
  [classUnder ClassName.root none [], interfaceWith "h/Task" ["h/Runnable"] [abstractMethod "run"],
    interfaceWith "h/Runnable" [] [m]]

theorem inheritsNoBody_worker (m : Member) :
    InheritsNoBody (settingOn (takenBack m)) worker ⟨"run", "()V"⟩ := by
  have hancestry : ancestryOf (settingOn (takenBack m)) worker = ⟨takenBack m, true⟩ := rfl
  refine ⟨rfl, by rw [hancestry], ?_, ?_⟩
  · rw [hancestry]
    have hchain : worker.chain (takenBack m) = [worker, classUnder ClassName.root none []] := by
      simp [ClassDefinition.chain, takenBack]
    rw [hchain]
    decide
  · rw [hancestry]
    simp only [takenBack, List.forall_mem_cons]
    refine ⟨?_, ?_, ?_, nofun⟩
    · exact fun _ hsupplies => absurd hsupplies (by decide)
    · exact fun _ hsupplies => absurd hsupplies (by decide)
    · exact fun _ _ => ⟨_, List.mem_cons_of_mem _ List.mem_cons_self, rfl, by decide, _,
        .own List.mem_cons_self, rfl⟩

/-- If neither interface has a body, this is reported. -/
theorem lack_reported_worker :
    ReportsLack worker ⟨"run", "()V"⟩
      (Rules.abstractMethodsImplemented (settingOn (takenBack (abstractMethod "run"))) worker
        (.start (settingOn (takenBack (abstractMethod "run"))))).2.problems := by
  have hreported := (lack_reported_iff (reliable_settingOn _)
    (inheritsNoBody_worker (abstractMethod "run"))).1 _ (faithful_start _)
  exact hreported.mpr (Or.inr ⟨by decide +kernel, by decide +kernel⟩)

/-- If the interface above has one, nothing is reported, although its body was taken back. -/
theorem lack_unreported :
    InheritsNoBody (settingOn (takenBack (plainMethod "run"))) worker ⟨"run", "()V"⟩ ∧
    (∃ a ∈ (ancestryOf (settingOn (takenBack (plainMethod "run"))) worker).classes,
      a.Demands ⟨"run", "()V"⟩) ∧
    (Rules.abstractMethodsImplemented (settingOn (takenBack (plainMethod "run"))) worker
      (.start (settingOn (takenBack (plainMethod "run"))))).2.problems = [] :=
  ⟨inheritsNoBody_worker _, by decide +kernel, by decide +kernel⟩

end Linkage

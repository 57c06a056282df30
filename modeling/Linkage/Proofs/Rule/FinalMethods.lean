import Linkage.Proofs.Rule.ChainAgreement
import Linkage.Proofs.Rule.MissingBodies

/-!
# Methods that override final ones

A method overrides the nearest method of its signature that a superclass declares and lets it see. The rule
about final methods finds that one, whatever else lies on the way to it, and reports it if it is final.

* **`DeclaresFirst`**, **`DeclaresAny`** — which methods count as those that a class declares: the first of
  a signature, or all;
* **`Overridable`** — a superclass declares a method that is seen;
* **`Overrides`** — the nearest one that is declared so;
* **`FinalMethodLaws`**, **`finalMethodLaws`** — what is reported is the final method that is overridden.
-/

namespace Linkage

/-! ## Methods that are overridden -/

/-- Which methods count as those that a class declares. -/
abbrev Declaring := ClassDefinition → Member → Prop

/-- The method is the first of its signature that the class declares. -/
def DeclaresFirst : Declaring := fun d f => d.findMethod f.name f.descriptor = some f

/-- The method is one that the class declares. -/
def DeclaresAny : Declaring := fun d f => f ∈ d.methods

/-- The class does not declare two methods of that signature. -/
def ClassDefinition.DeclaresOnce (d : ClassDefinition) (σ : Signature) : Prop :=
  ∀ f ∈ d.methods, ∀ g ∈ d.methods, f.signature = σ → g.signature = σ → f = g

instance (d : ClassDefinition) (σ : Signature) : Decidable (d.DeclaresOnce σ) :=
  inferInstanceAs (Decidable (∀ f ∈ d.methods, _))

/-- A method that may override others. -/
def Member.MayOverride (m : Member) : Prop :=
  m.isConstructor = false ∧ m.isStaticInitializer = false ∧ m.access.isStatic = false ∧
    m.access.isPrivate = false

instance (m : Member) : Decidable m.MayOverride := inferInstanceAs (Decidable (_ ∧ _))

/-- The class `d` declares an instance method of the signature of `m` that `c` sees. -/
structure Overridable (declares : Declaring) (c : ClassDefinition) (m : Member) (d : ClassDefinition)
    (f : Member) : Prop where
  declared : declares d f
  answers : f.Answers m.signature
  visible : f.access.isPublic = true ∨ f.access.isProtected = true ∨
    ClassName.package d.name = ClassName.package c.name

/-- The class `x` is above `c` by superclasses that are declared, and of the classes on the way it is the
first one to declare a method that `m` may override. -/
structure Overrides (env : Setting) (declares : Declaring) (c : ClassDefinition) (m : Member)
    (x : ClassDefinition) (f : Member) : Prop where
  overridable : Overridable declares c m x f
  nearest : ∃ nearer, Ascent env ClassDefinition.super c nearer x ∧
    ∀ d ∈ nearer, ∀ g, ¬ Overridable declares c m d g

variable {env : Setting} {declares : Declaring} {c d x : ClassDefinition} {m f : Member}

/-- What a class finds under a name and a descriptor goes by these. -/
theorem called_of_findMethod {name descriptor : String} (h : d.findMethod name descriptor = some f) :
    f.name = name ∧ f.descriptor = descriptor := by
  simpa [Member.isCalled] using List.find?_some h

theorem DeclaresFirst.mem (h : DeclaresFirst d f) : f ∈ d.methods := List.mem_of_find?_eq_some h

/-- Where a class declares a signature once, the method that it declares is the first. -/
theorem declaresFirst_iff (honce : d.DeclaresOnce f.signature) :
    DeclaresFirst d f ↔ DeclaresAny d f := by
  refine ⟨DeclaresFirst.mem, ?_⟩
  intro hf
  unfold DeclaresFirst
  cases hfound : d.findMethod f.name f.descriptor with
  | none =>
      have hcalled : f.isCalled f.name f.descriptor = true := by simp [Member.isCalled]
      exact absurd hcalled (List.find?_eq_none.mp hfound f hf)
  | some g =>
      obtain ⟨hname, hdescriptor⟩ := called_of_findMethod hfound
      have hsame : g.signature = f.signature := by
        unfold Member.signature
        rw [hname, hdescriptor]
      rw [honce g (List.mem_of_find?_eq_some hfound) f hf hsame rfl]

theorem overridable_iff (honce : d.DeclaresOnce m.signature) :
    Overridable DeclaresAny c m d f ↔ Overridable DeclaresFirst c m d f := by
  have hdeclares : f.signature = m.signature → (DeclaresFirst d f ↔ DeclaresAny d f) :=
    fun hsignature => declaresFirst_iff (hsignature ▸ honce)
  constructor
  · rintro ⟨hdeclared, hanswers, hvisible⟩
    exact ⟨(hdeclares hanswers.1).mpr hdeclared, hanswers, hvisible⟩
  · rintro ⟨hdeclared, hanswers, hvisible⟩
    exact ⟨(hdeclares hanswers.1).mp hdeclared, hanswers, hvisible⟩

theorem mayOverride_iff : m.MayOverride ↔
    (m.isConstructor || m.isStaticInitializer || m.access.isStatic || m.access.isPrivate) = false := by
  unfold Member.MayOverride
  simp only [Bool.or_eq_false_iff, and_assoc]

theorem seesOverridden_iff : Rules.seesOverridden c d f = true ↔
    f.access.isPrivate = false ∧ f.access.isStatic = false ∧
      (f.access.isPublic = true ∨ f.access.isProtected = true ∨
        ClassName.package d.name = ClassName.package c.name) := by
  unfold Rules.seesOverridden
  simp [and_assoc, or_assoc]

/-- What the search picks from a class. -/
theorem overriddenIn_eq_some_iff :
    overriddenIn c m d = some f ↔ Overridable DeclaresFirst c m d f := by
  unfold overriddenIn
  rw [Option.filter_eq_some_iff, seesOverridden_iff]
  constructor
  · rintro ⟨hfound, hprivate, hstatic, hvisible⟩
    obtain ⟨hname, hdescriptor⟩ := called_of_findMethod hfound
    refine ⟨?_, ⟨?_, hstatic, hprivate⟩, hvisible⟩
    · unfold DeclaresFirst
      rw [hname, hdescriptor, hfound]
    · unfold Member.signature
      rw [hname, hdescriptor]
  · rintro ⟨hdeclared, ⟨hsignature, hstatic, hprivate⟩, hvisible⟩
    obtain ⟨hname, hdescriptor⟩ := Signature.mk.inj hsignature
    refine ⟨?_, hprivate, hstatic, hvisible⟩
    rw [← hname, ← hdescriptor]
    exact hdeclared

theorem overriddenIn_eq_none_iff :
    overriddenIn c m d = none ↔ ∀ g, ¬ Overridable DeclaresFirst c m d g := by
  rw [Option.eq_none_iff_forall_ne_some]
  exact forall_congr' fun g => not_congr overriddenIn_eq_some_iff

/-! ## What is reported -/

/-- The final method that `m` overrides, as the rule reports it. -/
def ReportsFinal (env : Setting) (declares : Declaring) (c : ClassDefinition) (m : Member) (p : Problem) :
    Prop :=
  ∃ x f, Overrides env declares c m x f ∧ f.access.isFinal = true ∧
    p = .finalMethodOverridden (.ofMember x f) (.ofMember c m)

/-- What is found along the superclasses that are followed is found along the ways up. -/
theorem finalOverridden_iff {p : Problem} :
    FinalOverridden c m (supersFrom env (env.classpath.size + 2) [] c.super) p ↔
      ReportsFinal env DeclaresFirst c m p := by
  unfold FinalOverridden ReportsFinal
  simp only [declaredIn_eq_findSome?]
  constructor
  · rintro ⟨x, f, hdeclared, hfinal, hp⟩
    obtain ⟨nearer, y, rest, hsupers, hy, hnearer⟩ := List.findSome?_eq_some_iff.mp hdeclared
    obtain ⟨g, hg, heq⟩ := Option.map_eq_some_iff.mp hy
    obtain ⟨rfl, rfl⟩ := Prod.mk.inj heq
    refine ⟨y, g, ⟨overriddenIn_eq_some_iff.mp hg, nearer, ascent_of_supersFrom _ [] hsupers, ?_⟩,
      hfinal, hp⟩
    intro d hd
    exact overriddenIn_eq_none_iff.mp (Option.map_eq_none_iff.mp (hnearer d hd))
  · rintro ⟨x, f, ⟨hoverridable, nearer, hway, hnearest⟩, hfinal, hp⟩
    refine ⟨x, f, ?_, hfinal, hp⟩
    -- the search comes to no class twice, and to no other than those of the way
    obtain ⟨nearer', hway', honce, hsub⟩ := hway.exists_once
    obtain ⟨-, rest, hsupers⟩ := hway'.followed_eq (env.classpath.size + 2) [] honce nofun
      (Nat.lt_of_lt_of_le (hway'.length_lt_size honce) (Nat.le_add_right ..))
    rw [hsupers, List.findSome?_eq_some_iff]
    refine ⟨nearer', x, rest, rfl, ?_, ?_⟩
    · rw [overriddenIn_eq_some_iff.mpr hoverridable]
      rfl
    · intro d hd
      rw [overriddenIn_eq_none_iff.mpr (hnearest d (hsub hd))]
      rfl

/-- What the rule about final methods comes to: at most one problem. -/
def finalFor (env : Setting) (c : ClassDefinition) (m : Member) : Option Problem :=
  if m.isConstructor || m.isStaticInitializer || m.access.isStatic || m.access.isPrivate then none
  else finalFound c m (supersFrom env (env.classpath.size + 2) [] c.super)

theorem finalFor_eq_some_iff {p : Problem} :
    finalFor env c m = some p ↔ m.MayOverride ∧ ReportsFinal env DeclaresFirst c m p := by
  unfold finalFor
  rw [Option.ite_none_left_eq_some, Bool.not_eq_true, mayOverride_iff, finalFound_eq_some_iff,
    finalOverridden_iff]

/-- What holds of what the rule comes to, if `declares` tells what classes declare. -/
structure FinalMethodLaws (env : Setting) (declares : Declaring) (c : ClassDefinition) (m : Member)
    (found : Option Problem) : Prop where
  /-- This is added to what was found before, and nothing else. -/
  adds : ∀ s, Faithful env s →
    (Rules.noFinalOverridden env c m s).2.problems = found.elim s.problems (insertNew s.problems) ∧
      (Rules.noFinalOverridden env c m s).2.warnings = s.warnings
  /-- It is the final method that is overridden. -/
  reports : ∀ p, found = some p ↔ m.MayOverride ∧ ReportsFinal env declares c m p
  /-- Nothing comes of superclasses that declare no method which is seen, if they end, or lead to one that
  is missing or back to themselves. -/
  ended : ∀ passed : List ClassDefinition,
    (∀ d ∈ c :: passed, ∀ n e, d.super = some n → env.resolved n = some e → e ∈ passed) →
    (∀ d ∈ passed, ∀ g, ¬ Overridable declares c m d g) → found = none

/-- The rule adds what it comes to, and nothing else. -/
theorem adds_finalFor (hpath : env.classpath.Reliable) (c : ClassDefinition) (m : Member) {s : Session}
    (hs : Faithful env s) :
    (Rules.noFinalOverridden env c m s).2.problems =
        (finalFor env c m).elim s.problems (insertNew s.problems) ∧
      (Rules.noFinalOverridden env c m s).2.warnings = s.warnings := by
  unfold finalFor
  split
  · next hnot =>
      unfold Rules.noFinalOverridden
      rw [if_pos hnot]
      exact ⟨rfl, rfl⟩
  · next hm => exact run_noFinalOverridden hpath (Bool.eq_false_iff.mpr hm) hs

theorem finalMethodLaws_of_reports (hpath : env.classpath.Reliable)
    (hreports : ∀ p, ReportsFinal env declares c m p ↔ ReportsFinal env DeclaresFirst c m p) :
    FinalMethodLaws env declares c m (finalFor env c m) := by
  have hfound : ∀ p, finalFor env c m = some p ↔ m.MayOverride ∧ ReportsFinal env declares c m p :=
    fun p => finalFor_eq_some_iff.trans (and_congr_right fun _ => (hreports p).symm)
  refine ⟨fun s hs => adds_finalFor hpath c m hs, hfound, ?_⟩
  intro passed hclosed hnone
  rw [Option.eq_none_iff_forall_ne_some]
  intro p hp
  obtain ⟨-, x, f, ⟨hoverridable, nearer, hway, -⟩, -⟩ := (hfound p).mp hp
  exact hnone x (hway.mem_of_closed hclosed) f hoverridable

/-- Where no class above declares the signature twice, all methods may be looked at. -/
theorem reportsFinal_iff
    (honce : ∀ nearer x, Ascent env ClassDefinition.super c nearer x → x.DeclaresOnce m.signature)
    (p : Problem) :
    ReportsFinal env DeclaresAny c m p ↔ ReportsFinal env DeclaresFirst c m p := by
  have hnearer : ∀ {nearer x d g}, Ascent env ClassDefinition.super c nearer x → d ∈ nearer →
      (Overridable DeclaresAny c m d g ↔ Overridable DeclaresFirst c m d g) := by
    intro nearer x d g hway hd
    obtain ⟨front, back, rfl⟩ := List.append_of_mem hd
    exact overridable_iff (honce front d hway.upTo)
  unfold ReportsFinal
  refine exists_congr fun x => exists_congr fun f => and_congr_left fun _ => ?_
  constructor
  · rintro ⟨hoverridable, nearer, hway, hnearest⟩
    exact ⟨(overridable_iff (honce nearer x hway)).mp hoverridable, nearer, hway,
      fun d hd g hg => hnearest d hd g ((hnearer hway hd).mpr hg)⟩
  · rintro ⟨hoverridable, nearer, hway, hnearest⟩
    exact ⟨(overridable_iff (honce nearer x hway)).mpr hoverridable, nearer, hway,
      fun d hd g hg => hnearest d hd g ((hnearer hway hd).mp hg)⟩

/-- Of a method the rule reports at most one problem: the nearest method of its signature that superclasses
declare and let it see, if that is final. Of the methods of one signature that a class declares only the
first counts; where no class declares two, that is to say of all methods. -/
theorem finalMethodLaws (hpath : env.classpath.Reliable) (c : ClassDefinition) (m : Member) :
    (∃ found, FinalMethodLaws env DeclaresFirst c m found) ∧
    ((∀ nearer x, Ascent env ClassDefinition.super c nearer x → x.DeclaresOnce m.signature) →
      ∃ found, FinalMethodLaws env DeclaresAny c m found) :=
  ⟨⟨_, finalMethodLaws_of_reports hpath fun _ => Iff.rfl⟩,
    fun honce => ⟨_, finalMethodLaws_of_reports hpath (reportsFinal_iff honce)⟩⟩

/-! ## Methods that are passed over -/

/-- A class that declares a final method. The superclass of it is missing. -/
def sealedBase : ClassDefinition :=
  { classUnder "h/Base" (some "h/Gone") [] with methods := [⟨"run", "()V", ⟨20⟩, false⟩] }

/-- A class below it, with a method that heirs in other packages do not see. -/
def hidingMiddle : ClassDefinition :=
  { classUnder "h/Middle" (some "h/Base") [] with methods := [⟨"run", "()V", ⟨16⟩, false⟩] }

/-- A heir in another package. -/
def sealedHeir : ClassDefinition :=
  { classUnder "p/Heir" (some "h/Middle") [] with methods := [⟨"run", "()V", ⟨1⟩, false⟩] }

def sealedSetting : Setting := settingOn [sealedHeir, hidingMiddle, sealedBase]

/-- The search passes the method that is not seen, and comes to the one that is. -/
theorem finalMethodLaws_sealedHeir :
    sealedSetting.classpath.Reliable ∧
    (Rules.noFinalOverridden sealedSetting sealedHeir ⟨"run", "()V", ⟨1⟩, false⟩
      (.start sealedSetting)).2.problems =
        [.finalMethodOverridden ⟨"h/Base", "run", "()V"⟩ ⟨"p/Heir", "run", "()V"⟩] := by
  have hpath : sealedSetting.classpath.Reliable := reliable_settingOn _
  have honce : ∀ d ∈ sealedSetting.classpath.classes, d.DeclaresOnce ⟨"run", "()V"⟩ := by decide
  refine ⟨hpath, ?_⟩
  obtain ⟨found, hlaws⟩ :=
    (finalMethodLaws hpath sealedHeir ⟨"run", "()V", ⟨1⟩, false⟩).2 fun nearer x hway =>
      honce x (hway.mem_classes x (List.mem_append_right nearer (List.mem_singleton_self x)))
  have hway : Ascent sealedSetting ClassDefinition.super sealedHeir [hidingMiddle] sealedBase :=
    .next (n := "h/Middle") rfl (by decide) (.last (n := "h/Base") rfl (by decide))
  have hhidden : ∀ g,
      ¬ Overridable DeclaresAny sealedHeir ⟨"run", "()V", ⟨1⟩, false⟩ hidingMiddle g := by
    rintro g ⟨hg, -, hvisible⟩
    rw [List.mem_singleton.mp hg] at hvisible
    revert hvisible
    decide
  have hfound := (hlaws.reports (.finalMethodOverridden ⟨"h/Base", "run", "()V"⟩
    ⟨"p/Heir", "run", "()V"⟩)).mpr ⟨by decide, sealedBase, ⟨"run", "()V", ⟨20⟩, false⟩,
      ⟨⟨List.mem_cons_self, by decide, by decide⟩, _, hway, by
        intro d hd
        rw [List.mem_singleton.mp hd]
        exact hhidden⟩, by decide, rfl⟩
  rw [(hlaws.adds _ (faithful_start _)).1, hfound]
  rfl

/-! ## Signatures that are declared twice -/

/-- A class that declares a private method and a final one of the same signature. -/
def twofoldBase : ClassDefinition :=
  { classUnder "h/Base" none [] with
    methods := [⟨"run", "()V", ⟨2⟩, false⟩, ⟨"run", "()V", ⟨17⟩, false⟩] }

def twofoldHeir : ClassDefinition :=
  { classUnder "p/Heir" (some "h/Base") [] with methods := [⟨"run", "()V", ⟨1⟩, false⟩] }

def twofoldSetting : Setting := settingOn [twofoldHeir, twofoldBase]

/-- Of the methods that such a class declares the rule does not come to the second one, even if that is the
one which is overridden. -/
theorem not_finalMethodLaws_twofold :
    twofoldSetting.classpath.Reliable ∧ ⟨"run", "()V", ⟨1⟩, false⟩ ∈ twofoldHeir.methods ∧
    ReportsFinal twofoldSetting DeclaresAny twofoldHeir ⟨"run", "()V", ⟨1⟩, false⟩
      (.finalMethodOverridden ⟨"h/Base", "run", "()V"⟩ ⟨"p/Heir", "run", "()V"⟩) ∧
    (Rules.noFinalOverridden twofoldSetting twofoldHeir ⟨"run", "()V", ⟨1⟩, false⟩
      (.start twofoldSetting)).2.problems = [] ∧
    ¬ ∃ found, FinalMethodLaws twofoldSetting DeclaresAny twofoldHeir ⟨"run", "()V", ⟨1⟩, false⟩ found := by
  have hreports : ReportsFinal twofoldSetting DeclaresAny twofoldHeir ⟨"run", "()V", ⟨1⟩, false⟩
      (.finalMethodOverridden ⟨"h/Base", "run", "()V"⟩ ⟨"p/Heir", "run", "()V"⟩) :=
    ⟨twofoldBase, ⟨"run", "()V", ⟨17⟩, false⟩,
      ⟨⟨List.mem_cons_of_mem _ List.mem_cons_self, by decide, by decide⟩, [],
        .last (n := "h/Base") rfl (by decide), nofun⟩, by decide, rfl⟩
  have hnothing : (Rules.noFinalOverridden twofoldSetting twofoldHeir ⟨"run", "()V", ⟨1⟩, false⟩
      (.start twofoldSetting)).2.problems = [] := by decide +kernel
  refine ⟨reliable_settingOn _, List.mem_cons_self, hreports, hnothing, ?_⟩
  rintro ⟨found, hlaws⟩
  have hfound := (hlaws.reports _).mpr ⟨by decide, hreports⟩
  rw [(hlaws.adds _ (faithful_start _)).1, hfound] at hnothing
  exact List.cons_ne_nil _ _ hnothing

end Linkage

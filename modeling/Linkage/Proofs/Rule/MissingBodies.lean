import Linkage.Proofs.Hierarchy.Members
import Linkage.Proofs.Hierarchy.Walks
import Linkage.Rule.Implementation

/-!
# Methods without a body

A concrete class has to have a body for every signature that an ancestor demands. It is reported once of
each signature that has none, and the report names the declaration that is to blame.

* **`Member.Answers`**, **`Member.Demands`**, **`Member.Supplies`** — what a method is to a signature;
* **`FirstDeclared`** — the first declaration of a kind along a list of classes;
* **`LacksBody`** — a class lacks a body for a signature, with the class that is to blame;
* **`blamed_eq_some_iff`**, **`LacksBody.exists_find?`** — whom the rule blames for one signature;
* **`ImplementationLaws`**, **`implementationLaws`** — what is reported is what lacks a body, and once.
-/

namespace Linkage

/-! ## Signatures -/

/-- What a method is called by. -/
structure Signature where
  name : String
  descriptor : String
  deriving DecidableEq, Repr

namespace Member

def signature (m : Member) : Signature := ⟨m.name, m.descriptor⟩

/-- A call of the signature on an object may come to this method: it is neither static nor private. -/
def Answers (m : Member) (σ : Signature) : Prop :=
  m.signature = σ ∧ m.access.isStatic = false ∧ m.access.isPrivate = false

/-- The method asks for a body. -/
def Demands (m : Member) (σ : Signature) : Prop := m.Answers σ ∧ m.access.isAbstract = true

/-- The method has a body. -/
def Supplies (m : Member) (σ : Signature) : Prop := m.Answers σ ∧ m.access.isAbstract = false

instance (m : Member) (σ : Signature) : Decidable (m.Answers σ) := inferInstanceAs (Decidable (_ ∧ _))
instance (m : Member) (σ : Signature) : Decidable (m.Demands σ) := inferInstanceAs (Decidable (_ ∧ _))
instance (m : Member) (σ : Signature) : Decidable (m.Supplies σ) := inferInstanceAs (Decidable (_ ∧ _))

end Member

namespace ClassDefinition

/-- A method of the class asks for a body. -/
def Demands (c : ClassDefinition) (σ : Signature) : Prop := ∃ m ∈ c.methods, m.Demands σ

/-- A method of the class has a body. -/
def Supplies (c : ClassDefinition) (σ : Signature) : Prop := ∃ m ∈ c.methods, m.Supplies σ

instance (c : ClassDefinition) (σ : Signature) : Decidable (c.Demands σ) :=
  inferInstanceAs (Decidable (∃ m ∈ c.methods, _))
instance (c : ClassDefinition) (σ : Signature) : Decidable (c.Supplies σ) :=
  inferInstanceAs (Decidable (∃ m ∈ c.methods, _))

/-- A class and, of its ancestors, those that are no interfaces. -/
def chain (c : ClassDefinition) (ancestors : List ClassDefinition) : List ClassDefinition :=
  c :: ancestors.filter fun d => !d.isInterface

end ClassDefinition

namespace Rules

theorem sameSignature_iff {m other : Member} :
    sameSignature m other = true ↔ m.signature = other.signature := by
  unfold sameSignature Member.isCalled Member.signature
  simp

theorem isOverridable_iff {m : Member} : isOverridable m = true ↔ m.Answers m.signature := by
  unfold isOverridable Member.Answers
  simp

/-- What is looked for along the superclasses. -/
theorem answers_iff {m x : Member} :
    (isOverridable x && sameSignature x m) = true ↔ x.Answers m.signature := by
  unfold isOverridable Member.Answers
  simp only [Bool.and_eq_true, Bool.not_eq_true', sameSignature_iff]
  tauto

/-- What is looked for among the interfaces. -/
theorem supplies_iff {m x : Member} :
    (isOverridable x && !x.access.isAbstract && sameSignature x m) = true ↔
      x.Supplies m.signature := by
  unfold Member.Supplies
  rw [← answers_iff]
  simp only [Bool.and_eq_true, Bool.not_eq_true']
  tauto

end Rules

/-- Of the classes of a list that declare a method with a property, `d` is the first, and `m` is the
first such method of `d`. -/
structure FirstDeclared (p : Member → Prop) (classes : List ClassDefinition) (d : ClassDefinition)
    (m : Member) : Prop where
  fits : p m
  first : ∃ before after, d.methods = before ++ m :: after ∧ ∀ x ∈ before, ¬ p x
  nearest : ∃ before after, classes = before ++ d :: after ∧ ∀ e ∈ before, ∀ x ∈ e.methods, ¬ p x

section FirstDeclared

variable {p : Member → Prop} {classes : List ClassDefinition} {d : ClassDefinition} {m : Member}

theorem FirstDeclared.mem (h : FirstDeclared p classes d m) : d ∈ classes ∧ m ∈ d.methods := by
  obtain ⟨_, _, hmethods, -⟩ := h.first
  obtain ⟨_, _, hclasses, -⟩ := h.nearest
  rw [hmethods, hclasses]
  exact ⟨List.mem_append_cons_self, List.mem_append_cons_self⟩

section Pick

variable {pick : Member → Bool} (hpick : ∀ m, pick m = true ↔ p m)
include hpick

theorem find?_methods_eq_none {c : ClassDefinition} :
    c.methods.find? pick = none ↔ ∀ x ∈ c.methods, ¬ p x := by
  simp [List.find?_eq_none, hpick]

theorem declaredIn_methods_eq_none :
    declaredIn (fun c => c.methods.find? pick) classes = none ↔
      ∀ c ∈ classes, ∀ x ∈ c.methods, ¬ p x := by
  rw [declaredIn_eq_none]
  exact forall₂_congr fun c _ => find?_methods_eq_none hpick

theorem declaredIn_methods_eq_some :
    declaredIn (fun c => c.methods.find? pick) classes = some (d, m) ↔ FirstDeclared p classes d m := by
  have hfind : ∀ c : ClassDefinition, c.methods.find? pick = some m ↔
      p m ∧ ∃ before after, c.methods = before ++ m :: after ∧ ∀ x ∈ before, ¬ p x := by
    intro c
    simp [List.find?_eq_some_iff_append, ← hpick]
  rw [declaredIn_eq_findSome?, List.findSome?_eq_some_iff]
  simp only [Option.map_eq_none_iff, find?_methods_eq_none hpick, Option.map_eq_some_iff]
  constructor
  · rintro ⟨before, _, after, hsplit, ⟨_, hm, heq⟩, hbefore⟩
    cases heq
    obtain ⟨hfits, hfirst⟩ := (hfind d).mp hm
    exact ⟨hfits, hfirst, before, after, hsplit, hbefore⟩
  · rintro ⟨hfits, hfirst, before, after, hsplit, hbefore⟩
    exact ⟨before, d, after, hsplit, ⟨m, (hfind d).mpr ⟨hfits, hfirst⟩, rfl⟩, hbefore⟩

end Pick

/-- Of several such declarations there is a first one. -/
theorem exists_firstDeclared [DecidablePred p] (h : ∃ c ∈ classes, ∃ m ∈ c.methods, p m) :
    ∃ d m, FirstDeclared p classes d m := by
  have hpick : ∀ m, decide (p m) = true ↔ p m := fun m => decide_eq_true_iff
  cases hfirst : declaredIn (fun c => c.methods.find? fun m => p m) classes with
  | some found => exact ⟨found.1, found.2, (declaredIn_methods_eq_some hpick).mp hfirst⟩
  | none =>
      obtain ⟨c, hc, m, hm, hp⟩ := h
      exact absurd hp ((declaredIn_methods_eq_none hpick).mp hfirst c hc m hm)

end FirstDeclared

/-! ## Bodies that are lacking -/

/-- A class inherits a signature for which it has no body, and the class `d` is to blame. -/
inductive LacksBody (σ : Signature) (c : ClassDefinition) (ancestors : List ClassDefinition) :
    ClassDefinition → Prop where
  /-- Along the superclasses the nearest declaration is abstract. It hides the bodies further up. -/
  | hidden {d : ClassDefinition} {m : Member} (hdemanded : ∃ a ∈ ancestors, a.Demands σ)
      (hnearest : FirstDeclared (·.Answers σ) (c.chain ancestors) d m)
      (habstract : m.access.isAbstract = true) : LacksBody σ c ancestors d
  /-- The superclasses declare nothing, and no interface has a body. -/
  | absent {d : ClassDefinition} {m : Member}
      (hchain : ∀ e ∈ c.chain ancestors, ∀ x ∈ e.methods, ¬ x.Answers σ)
      (hdefaults : ∀ i ∈ ancestors, i.isInterface = true → ¬ i.Supplies σ)
      (hfirst : FirstDeclared (·.Demands σ) ancestors d m) : LacksBody σ c ancestors d

/-- The abstract methods that ancestors declare, in order. -/
def demanded (ancestors : List ClassDefinition) : List (ClassDefinition × Member) :=
  ancestors.flatMap fun a =>
    (a.methods.filter fun m => Rules.isOverridable m && m.access.isAbstract).map fun m => (a, m)

/-- The declaration to blame for one of them. -/
def blamed (c : ClassDefinition) (ancestors : List ClassDefinition) (d : ClassDefinition × Member) :
    Option (ClassDefinition × Member) :=
  Rules.lacking (c.chain ancestors) (ancestors.filter (·.isInterface)) d.1 d.2

section Blame

variable {c : ClassDefinition} {ancestors : List ClassDefinition} {σ : Signature}

theorem mem_demanded {d : ClassDefinition × Member} : d ∈ demanded ancestors ↔
    d.1 ∈ ancestors ∧ d.2 ∈ d.1.methods ∧ d.2.Demands d.2.signature := by
  obtain ⟨a, m⟩ := d
  unfold demanded Member.Demands
  simp [Rules.isOverridable_iff]

/-- The first declaration of a signature among them. -/
theorem find?_demanded (ancestors : List ClassDefinition) (σ : Signature) :
    (demanded ancestors).find? (fun d => d.2.signature = σ) =
      declaredIn (fun c => c.methods.find? fun m => m.Demands σ) ancestors := by
  have hpick : ∀ m : Member,
      (Rules.isOverridable m && m.access.isAbstract) = true ∧ m.signature = σ ↔ m.Demands σ := by
    intro m
    unfold Member.Demands Member.Answers Rules.isOverridable
    simp only [Bool.and_eq_true, Bool.not_eq_true']
    tauto
  induction ancestors with
  | nil => rfl
  | cons a rest ih =>
      unfold demanded at ih ⊢
      rw [List.flatMap_cons, List.find?_append, List.find?_map, List.find?_filter, ih, declaredIn]
      simp only [Function.comp_apply, decide_eq_true_iff, hpick]
      cases a.methods.find? fun m => m.Demands σ with
      | some m => rfl
      | none => rfl

/-- The declaration to blame is the nearest one of the superclasses, if it is abstract. If there is none,
nor a body of an interface, it is the abstract method itself. -/
theorem blamed_eq_some_iff {d b : ClassDefinition × Member} : blamed c ancestors d = some b ↔
    FirstDeclared (·.Answers d.2.signature) (c.chain ancestors) b.1 b.2 ∧ b.2.access.isAbstract = true ∨
    (∀ e ∈ c.chain ancestors, ∀ x ∈ e.methods, ¬ x.Answers d.2.signature) ∧
      (∀ i ∈ ancestors, i.isInterface = true → ¬ i.Supplies d.2.signature) ∧ b = d := by
  have hfirst : Rules.nearest (c.chain ancestors) d.2 = some (b.1, b.2) ↔
      FirstDeclared (·.Answers d.2.signature) (c.chain ancestors) b.1 b.2 :=
    declaredIn_methods_eq_some fun _ => Rules.answers_iff
  have hnone : Rules.nearest (c.chain ancestors) d.2 = none ↔
      ∀ e ∈ c.chain ancestors, ∀ x ∈ e.methods, ¬ x.Answers d.2.signature :=
    declaredIn_methods_eq_none fun _ => Rules.answers_iff
  have hdefault : (∀ i ∈ ancestors, i.isInterface = true → ¬ i.Supplies d.2.signature) ↔
      ¬ Rules.hasDefault (ancestors.filter (·.isInterface)) d.2 = true := by
    unfold Rules.hasDefault ClassDefinition.Supplies
    simp only [List.any_eq_true, List.mem_filter, Rules.supplies_iff, not_exists, not_and, and_imp]
  rw [← hfirst, ← hnone, hdefault]
  unfold blamed Rules.lacking
  cases Rules.nearest (c.chain ancestors) d.2 with
  | some found =>
      obtain ⟨e, x⟩ := found
      simp only [reduceCtorEq, false_and, or_false]
      split
      · next habstract =>
          refine ⟨fun h => ⟨h, ?_⟩, And.left⟩
          cases h
          exact habstract
      · next hbody =>
          refine iff_of_false nofun ?_
          rintro ⟨h, habstract⟩
          cases h
          exact hbody habstract
  | none =>
      simp only [reduceCtorEq, false_and, false_or, true_and]
      split
      · next hbody => exact iff_of_false nofun fun h => h.1 hbody
      · next hnobody =>
          rw [Option.some.injEq, eq_comm, and_iff_right hnobody]

/-- A declaration is blamed for a signature of its own. -/
theorem signature_of_blamed {d b : ClassDefinition × Member} (h : blamed c ancestors d = some b) :
    b.2.signature = d.2.signature := by
  rcases blamed_eq_some_iff.mp h with ⟨hfirst, -⟩ | ⟨-, -, rfl⟩
  · exact hfirst.fits.1
  · rfl

/-- Of each signature the first declaration that is blamed is kept. -/
theorem unimplemented_eq (c : ClassDefinition) (ancestors : List ClassDefinition) :
    Rules.unimplemented c ancestors =
      distinctBy (·.2.signature) ((demanded ancestors).filterMap (blamed c ancestors)) := by
  have hadd : Rules.addSignature = insertNewBy (·.2.signature) := by
    funext found d
    unfold Rules.addSignature insertNewBy
    simp only [List.any_eq_true, Rules.sameSignature_iff, List.mem_map]
  unfold Rules.unimplemented distinctBy
  rw [hadd]
  rfl

/-- Where everything that demands a signature has somebody blamed, the first such demand counts. -/
theorem find?_blamed (h : ∀ a, a.2.signature = σ → (blamed c ancestors a).isSome = true) :
    ((demanded ancestors).filterMap (blamed c ancestors)).find? (fun b => b.2.signature = σ) =
      ((demanded ancestors).find? fun a => a.2.signature = σ).bind (blamed c ancestors) := by
  have hany : ∀ a, (blamed c ancestors a).any (fun b => b.2.signature = σ) =
      decide (a.2.signature = σ) := by
    intro a
    cases hblamed : blamed c ancestors a with
    | none =>
        have hother : a.2.signature ≠ σ := fun hσ => by simpa [hblamed] using h a hσ
        simp [hother]
    | some b => simp [signature_of_blamed hblamed]
  rw [List.find?_filterMap]
  simp only [hany]

/-- For a signature without a body the class that is to blame is kept. -/
theorem LacksBody.exists_find? {d : ClassDefinition} (h : LacksBody σ c ancestors d) :
    ∃ m, m.signature = σ ∧ ((demanded ancestors).filterMap (blamed c ancestors)).find?
      (fun b => b.2.signature = σ) = some (d, m) := by
  cases h with
  | @hidden m hdemanded hnearest habstract =>
      -- whatever demands the signature, the nearest declaration is blamed
      have hblamed : ∀ a, a.2.signature = σ → blamed c ancestors a = some (d, m) := by
        rintro a rfl
        exact blamed_eq_some_iff.mpr (Or.inl ⟨hnearest, habstract⟩)
      obtain ⟨a, ha, x, hx, hdemands⟩ := hdemanded
      have hsome : ((demanded ancestors).find? fun a => a.2.signature = σ).isSome := by
        have hσ : x.signature = σ := hdemands.1.1
        refine List.find?_isSome.mpr ⟨(a, x), mem_demanded.mpr ⟨ha, hx, ?_⟩, by simpa using hσ⟩
        rw [hσ]
        exact hdemands
      obtain ⟨a, ha⟩ := Option.isSome_iff_exists.mp hsome
      refine ⟨m, hnearest.fits.1, ?_⟩
      rw [find?_blamed fun a hσ => by rw [hblamed a hσ]; rfl, ha]
      exact hblamed a (by simpa using List.find?_some ha)
  | @absent m hchain hdefaults hfirst =>
      -- whatever demands the signature is blamed itself
      have hblamed : ∀ a, a.2.signature = σ → blamed c ancestors a = some a := by
        rintro a rfl
        exact blamed_eq_some_iff.mpr (Or.inr ⟨hchain, hdefaults, rfl⟩)
      refine ⟨m, hfirst.fits.1.1, ?_⟩
      rw [find?_blamed fun a hσ => by rw [hblamed a hσ]; rfl, find?_demanded,
        (declaredIn_methods_eq_some fun _ => decide_eq_true_iff).mpr hfirst]
      exact hblamed (d, m) hfirst.fits.1.1

/-- Nothing is kept for a signature that has a body or that nobody demands. -/
theorem exists_lacksBody {b : ClassDefinition × Member}
    (h : b ∈ (demanded ancestors).filterMap (blamed c ancestors)) :
    ∃ d, LacksBody b.2.signature c ancestors d := by
  obtain ⟨a, ha, hblamed⟩ := List.mem_filterMap.mp h
  obtain ⟨hancestor, hmethod, hdemands⟩ := mem_demanded.mp ha
  rw [signature_of_blamed hblamed]
  rcases blamed_eq_some_iff.mp hblamed with ⟨hfirst, habstract⟩ | ⟨hchain, hdefaults, -⟩
  · exact ⟨b.1, .hidden ⟨a.1, hancestor, a.2, hmethod, hdemands⟩ hfirst habstract⟩
  · obtain ⟨d, m, hfirst⟩ := exists_firstDeclared (p := (·.Demands a.2.signature))
      ⟨a.1, hancestor, a.2, hmethod, hdemands⟩
    exact ⟨d, .absent hchain hdefaults hfirst⟩

end Blame

/-! ## Reports -/

/-- The signature that a problem says to have no body. -/
def Problem.bodiless? : Problem → Option Signature
  | .methodNotImplemented _ m => some ⟨m.name, m.descriptor⟩
  | _ => none

/-- The problem that a class has no body for a signature, for which `d` is to blame. -/
def lackOf (c d : ClassDefinition) (σ : Signature) : Problem :=
  .methodNotImplemented c.name ⟨d.name, σ.name, σ.descriptor⟩

/-- The ancestry of a class, as a fresh session comes to know it. -/
def ancestryOf (env : Setting) (c : ClassDefinition) : Ancestry := (ancestry env c (.start env)).1

/-- What is reported about the bodies of a class in a fresh session. -/
def missingBodies (env : Setting) (c : ClassDefinition) : List Problem :=
  (Rules.abstractMethodsImplemented env c (.start env)).2.problems

/-- What is registered about the bodies of a class, one thing after the other. -/
def bodyReports (env : Setting) (c : ClassDefinition) : List Problem :=
  if c.isConcrete && (ancestryOf env c).complete then
    (Rules.unimplemented c (ancestryOf env c).classes).map fun d =>
      .methodNotImplemented c.name (.ofMember d.1 d.2)
  else []

theorem each_problem {α : Type} (xs : List α) (f : α → Problem) (s : Session) :
    Check.each xs (fun x => Check.problem (f x)) s =
      ((), { s with problems := (xs.map f).foldl insertNew s.problems }) := by
  induction xs generalizing s with
  | nil => rfl
  | cons x rest ih => exact ih (s.addProblem (f x))

section Reports

variable {env : Setting} {c : ClassDefinition}

/-- The ancestry of a class can be had from the classes alone. -/
theorem ancestryOf_eq (hpath : env.classpath.Reliable) (c : ClassDefinition) :
    ancestryOf env c = ancestryWithin env (climbBound env c) c := by
  unfold ancestryOf
  rw [ancestry_eq]
  exact (yields_ancestryUpTo hpath (climbBound env c) c).value (faithful_start env)

theorem yields_ancestry (hpath : env.classpath.Reliable) (c : ClassDefinition) :
    Yields env (ancestry env c) (ancestryOf env c) := by
  rw [ancestryOf_eq hpath, ancestry_eq]
  exact yields_ancestryUpTo hpath (climbBound env c) c

/-- The rule registers its reports, and does nothing else. -/
theorem findings_abstractMethodsImplemented (hpath : env.classpath.Reliable) (c : ClassDefinition)
    {s : Session} (hs : Faithful env s) :
    (Rules.abstractMethodsImplemented env c s).2.problems =
        (bodyReports env c).foldl insertNew s.problems ∧
      (Rules.abstractMethodsImplemented env c s).2.warnings = s.warnings := by
  obtain ⟨s', -, hproblems, hwarnings, hbind⟩ := (yields_ancestry hpath c).exists_bind hs
  unfold Rules.abstractMethodsImplemented bodyReports
  cases c.isConcrete with
  | false => exact ⟨rfl, rfl⟩
  | true =>
      rw [if_pos rfl, hbind, Bool.true_and]
      cases (ancestryOf env c).complete with
      | false => exact ⟨hproblems, hwarnings⟩
      | true =>
          rw [if_pos rfl, if_pos rfl, each_problem, hproblems]
          exact ⟨rfl, hwarnings⟩

/-- Each signature is reported once. -/
theorem nodup_bodyReports (env : Setting) (c : ClassDefinition) :
    ((bodyReports env c).map Problem.bodiless?).Nodup := by
  unfold bodyReports
  split
  · have hnodup := nodup_map_distinctBy (fun d : ClassDefinition × Member => d.2.signature)
      ((demanded (ancestryOf env c).classes).filterMap (blamed c (ancestryOf env c).classes))
    rw [← unimplemented_eq] at hnodup
    have hsome := hnodup.map fun _ _ (h : some _ = some _) => Option.some.inj h
    rw [List.map_map] at hsome ⊢
    exact hsome
  · exact List.nodup_nil

/-- Everything that is registered is a problem of its own. -/
theorem missingBodies_eq (hpath : env.classpath.Reliable) (c : ClassDefinition) :
    missingBodies env c = bodyReports env c := by
  unfold missingBodies
  rw [(findings_abstractMethodsImplemented hpath c (faithful_start env)).1]
  exact distinct_of_nodup (nodup_bodyReports env c).of_map

/-- What is reported lacks a body, and who is to blame is named. -/
theorem exists_lacksBody_of_mem {p : Problem} (hp : p ∈ bodyReports env c) :
    ∃ σ d, LacksBody σ c (ancestryOf env c).classes d ∧ p = lackOf c d σ := by
  unfold bodyReports at hp
  split at hp
  · obtain ⟨b, hb, rfl⟩ := List.mem_map.mp hp
    rw [unimplemented_eq] at hb
    obtain ⟨d, hd⟩ := exists_lacksBody (mem_of_mem_distinctBy hb)
    -- what is kept of a signature is the first that is blamed for it
    obtain ⟨m, -, hfirst⟩ := hd.exists_find?
    rw [mem_distinctBy.mp hb, Option.some.injEq] at hfirst
    obtain rfl : b.1 = d := by rw [hfirst]
    exact ⟨b.2.signature, b.1, hd, rfl⟩
  · cases hp

/-- What lacks a body is reported once. -/
theorem LacksBody.filter_bodyReports {σ : Signature} {d : ClassDefinition}
    (h : LacksBody σ c (ancestryOf env c).classes d) (hconcrete : c.isConcrete = true)
    (hcomplete : (ancestryOf env c).complete = true) :
    (bodyReports env c).filter (fun p => p.bodiless? = some σ) = [lackOf c d σ] := by
  obtain ⟨m, rfl, hfirst⟩ := h.exists_find?
  have hkept := filter_distinctBy (fun b : ClassDefinition × Member => b.2.signature)
    ((demanded (ancestryOf env c).classes).filterMap (blamed c (ancestryOf env c).classes)) m.signature
  rw [hfirst, ← unimplemented_eq] at hkept
  unfold bodyReports
  rw [hconcrete, hcomplete, Bool.and_self, if_pos rfl, List.filter_map]
  have hsame : (fun p : Problem => decide (p.bodiless? = some m.signature)) ∘
      (fun d : ClassDefinition × Member => .methodNotImplemented c.name (.ofMember d.1 d.2)) =
      fun b => decide (b.2.signature = m.signature) := by
    funext b
    exact decide_eq_decide.mpr Option.some_inj
  rw [hsame, hkept]
  rfl

end Reports

/-- How the bodies of a class are reported. -/
structure ImplementationLaws (env : Setting) (c : ClassDefinition) : Prop where
  /-- The classes that are looked at are the ancestors of the class, -/
  ancestors : (AncestorName env c c.name → env.resolved c.name = some c) → ∀ d,
    (d ∈ (ancestryOf env c).classes → AncestorOf env c d) ∧
      (AncestorOf env c d → d = c ∨ d ∈ (ancestryOf env c).classes)
  /-- and no ancestor is missing if every name of one stands for a class. -/
  complete : (AncestorName env c c.name → env.resolved c.name = some c) →
    ((ancestryOf env c).complete = true ↔ ∀ n, AncestorName env c n → env.resolved n ≠ none)
  /-- Whatever was found before, the same is registered, and nothing else is done. -/
  each : ∀ s, Faithful env s →
    (Rules.abstractMethodsImplemented env c s).2.problems =
        (missingBodies env c).foldl insertNew s.problems ∧
      (Rules.abstractMethodsImplemented env c s).2.warnings = s.warnings
  /-- No registration repeats another one. -/
  apart : missingBodies env c = bodyReports env c
  /-- Of a signature without a body it is registered once, with the class that is to blame. -/
  once : c.isConcrete = true → (ancestryOf env c).complete = true →
    ∀ σ d, LacksBody σ c (ancestryOf env c).classes d →
      (missingBodies env c).filter (fun p => p.bodiless? = some σ) = [lackOf c d σ]
  /-- Nothing else is registered. -/
  only : ∀ p ∈ missingBodies env c,
    ∃ σ d, LacksBody σ c (ancestryOf env c).classes d ∧ p = lackOf c d σ
  /-- Nothing at all is registered of a class without objects of its own, or while an ancestor is
  missing. -/
  silent : c.isConcrete = false ∨ (ancestryOf env c).complete = false → missingBodies env c = []

/-- On a class path that never fails the laws hold of every class. -/
theorem implementationLaws (env : Setting) (hpath : env.classpath.Reliable) (c : ClassDefinition) :
    ImplementationLaws env c where
  ancestors hself d := by
    rw [ancestryOf_eq hpath]
    exact mem_ancestry hself (Nat.le_refl _) d
  complete hself := by
    rw [ancestryOf_eq hpath]
    exact complete_ancestry hself (Nat.le_refl _)
  each s hs := by
    rw [missingBodies_eq hpath]
    exact findings_abstractMethodsImplemented hpath c hs
  apart := missingBodies_eq hpath c
  once hconcrete hcomplete σ d h := by
    rw [missingBodies_eq hpath]
    exact h.filter_bodyReports hconcrete hcomplete
  only p hp := by
    rw [missingBodies_eq hpath] at hp
    exact exists_lacksBody_of_mem hp
  silent h := by
    rw [missingBodies_eq hpath]
    unfold bodyReports
    rcases h with hnot | hmissing
    · rw [hnot]
      rfl
    · rw [hmissing, Bool.and_false]
      rfl

/-- A public method without arguments or a result. -/
def plainMethod (name : String) : Member := ⟨name, "()V", ⟨0x1⟩, false⟩

/-- The same, but abstract. -/
def abstractMethod (name : String) : Member := ⟨name, "()V", ⟨0x401⟩, false⟩

/-- An interface with these methods. -/
def interfaceWith (name : String) (interfaces : List String) (methods : List Member) :
    ClassDefinition :=
  ⟨name, ⟨0x601⟩, some ClassName.root, interfaces, methods, [], [], [], false, 52⟩

@[simp] theorem isInterface_interfaceWith (name : String) (interfaces : List String)
    (methods : List Member) : (interfaceWith name interfaces methods).isInterface = true := by
  show (AccessFlags.mk 0x601).isInterface = true
  decide

@[simp] theorem isInterface_classUnder (name : String) (super : Option String)
    (interfaces : List String) : (classUnder name super interfaces).isInterface = false := by
  show (AccessFlags.mk 1).isInterface = false
  decide

/-- A class with a superclass and an interface of its own. -/
def job : ClassDefinition := classUnder "p/Job" (some "h/Base") ["h/Closeable"]

/-- The superclass takes the body back that its own superclass has. -/
def jobBase : ClassDefinition :=
  { classUnder "h/Base" (some "h/Worker") ["h/Task"] with methods := [abstractMethod "run"] }

def jobTask : ClassDefinition :=
  interfaceWith "h/Task" [] [abstractMethod "run", abstractMethod "close", abstractMethod "stop"]

def jobAncestors : List ClassDefinition :=
  [jobBase, { classUnder "h/Worker" (some ClassName.root) [] with methods := [plainMethod "run"] },
    classUnder ClassName.root none [], jobTask,
    interfaceWith "h/Closeable" [] [abstractMethod "close", plainMethod "stop"]]

/-- The body that was taken back is missing, and the one that there never was. The one that an interface
has is not. -/
theorem implementationLaws_job :
    (missingBodies (settingOn jobAncestors) job).filter (fun p => p.bodiless? = some ⟨"run", "()V"⟩) =
      [lackOf job jobBase ⟨"run", "()V"⟩] ∧
    (missingBodies (settingOn jobAncestors) job).filter
        (fun p => p.bodiless? = some ⟨"close", "()V"⟩) = [lackOf job jobTask ⟨"close", "()V"⟩] ∧
    ∀ d, ¬ LacksBody ⟨"stop", "()V"⟩ job jobAncestors d := by
  have hancestry : ancestryOf (settingOn jobAncestors) job = ⟨jobAncestors, true⟩ := by
    decide +kernel
  have honce := (implementationLaws (settingOn jobAncestors) (reliable_settingOn _) job).once rfl
  rw [hancestry] at honce
  refine ⟨?_, ?_, ?_⟩
  · refine honce rfl _ _ (.hidden (m := abstractMethod "run") (by decide) ?_ rfl)
    exact ⟨by decide, ⟨[], [], rfl, nofun⟩, [job], jobAncestors.tail.filter fun d => !d.isInterface,
      rfl, by decide⟩
  · refine honce rfl _ _ (.absent (m := abstractMethod "close") (by decide) (by decide) ?_)
    exact ⟨by decide, ⟨[abstractMethod "run"], [abstractMethod "stop"], rfl, by decide⟩,
      jobAncestors.take 3, jobAncestors.drop 4, rfl, by decide⟩
  · intro d hd
    have hnone : (missingBodies (settingOn jobAncestors) job).filter
        (fun p => p.bodiless? = some ⟨"stop", "()V"⟩) = [] := by decide +kernel
    rw [honce rfl _ d hd] at hnone
    cases hnone

end Linkage

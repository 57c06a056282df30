import Linkage.Proofs.Check.Conversation
import Linkage.Proofs.Check.Faithful
import Linkage.Proofs.ClassFile.Coverage

/-!
# Resolving the classes referred to

A session that has resolved the classes a decoded class refers to has come upon every class that its
header and its references to members can touch. What they name as arrays stands for the class of the
elements.

* **`Session.Extends`**, **`Regular.extends`** — a session forgets no answer, and a failure stays;
* **`knows_referencedClassesResolve`**, **`problems_referencedClassesResolve`** — what the rule leaves in a
  session;
* **`Covered`**, **`covered_of_read`** — the references of a decoded class are without repetition, and leave
  out nothing that the class touches.
-/

namespace Linkage

/-! ## What a session keeps -/

/-- The session has an answer to what the name stands for, unless that is no class. -/
def Session.Knows (s : Session) (name : String) : Prop :=
  ∀ plain, ClassName.element? name = some plain → ∃ answer, s.known.get? plain = some answer

/-- The later session has kept every answer, and the failure if there was one. -/
structure Session.Extends (s s' : Session) : Prop where
  known : ∀ name answer, s.known.get? name = some answer → s'.known.get? name = some answer
  unfailed : s'.failure = none → s.failure = none

namespace Session.Extends

variable {s s' s'' : Session}

theorem of_eq (hknown : s'.known = s.known) (hfailure : s'.failure = s.failure) : s.Extends s' := by
  refine ⟨?_, hfailure.symm.trans⟩
  intro name answer h
  rw [hknown]
  exact h

theorem trans (h : s.Extends s') (h' : s'.Extends s'') : s.Extends s'' :=
  ⟨fun name answer hold => h'.known name answer (h.known name answer hold),
    fun hnone => h.unfailed (h'.unfailed hnone)⟩

theorem knows (h : s.Extends s') {name : String} (hknows : s.Knows name) : s'.Knows name := by
  intro plain hplain
  obtain ⟨answer, hanswer⟩ := hknows plain hplain
  exact ⟨answer, h.known plain answer hanswer⟩

theorem lookup (env : Setting) (s : Session) (plain : String) : s.Extends (s.lookup env plain).2 := by
  have hlooked := looksUp_lookup env s plain
  generalize s.lookup env plain = answered at hlooked ⊢
  obtain ⟨found, s'⟩ := answered
  cases hlooked with
  | remembered hknown => exact .of_eq rfl rfl
  | givenUp hnew hfailure => exact .of_eq rfl rfl
  | answered hnew hfailure hfind =>
      refine ⟨?_, fun _ => hfailure⟩
      intro name answer hold
      rw [Table.get?_put, if_neg]
      · exact hold
      · rintro rfl
        rw [hnew] at hold
        cases hold
  | failed hnew hfailure hfind => exact ⟨fun _ _ hold => hold, fun _ => hfailure⟩

theorem missed (env : Setting) (location : Location) (plain : String) (s : Session) :
    s.Extends (missed env location plain s).2 := by
  rw [missed_eq]
  simp only
  split
  · exact .of_eq rfl rfl
  · exact .of_eq rfl rfl

end Session.Extends

section Checks

variable {env : Setting} {c : ClassDefinition} {s : Session}

theorem Regular.extends {α : Type} {m : Check α} (hm : Regular env m) : s.Extends (m s).2 := by
  induction hm generalizing s with
  | pure x => exact .of_eq rfl rfl
  | bind _ _ ihm ihf => exact ihm.trans (ihf _)
  | lookup name => exact .lookup env s name
  | missed location plain => exact .missed env location plain s
  | problem p => exact .of_eq rfl rfl
  | warning w => exact .of_eq rfl rfl

/-- Whatever has been looked up without a failure is known. -/
theorem knows_lookup (plain : String) (h : (s.lookup env plain).2.failure = none) :
    ∃ answer, (s.lookup env plain).2.known.get? plain = some answer := by
  have hlooked := looksUp_lookup env s plain
  generalize s.lookup env plain = answered at hlooked h ⊢
  obtain ⟨found, s'⟩ := answered
  cases hlooked with
  | remembered hknown => exact ⟨found, hknown⟩
  | givenUp hnew hfailure => exact nomatch hfailure.symm.trans h
  | answered hnew hfailure hfind => exact ⟨_, (Table.get?_put ..).trans (if_pos rfl)⟩
  | failed hnew hfailure hfind => cases h

theorem knows_resolveAt (location : Location) (name : String)
    (h : (resolveAt env location name s).2.failure = none) :
    (resolveAt env location name s).2.Knows name := by
  intro plain hplain
  rw [resolveAt_plain location hplain] at h ⊢
  cases hfound : (s.lookup env plain).1 with
  | some d =>
      rw [hfound] at h
      exact knows_lookup plain h
  | none =>
      rw [hfound] at h
      have hextends := Session.Extends.missed env location plain (s.lookup env plain).2
      obtain ⟨answer, hanswer⟩ := knows_lookup plain (hextends.unfailed h)
      exact ⟨answer, hextends.known plain answer hanswer⟩

/-- Unless the class path fails, all the classes that a class refers to are known afterwards. -/
theorem knows_referencedClassesResolve
    (h : (Rules.referencedClassesResolve env c s).2.failure = none) :
    ∀ name ∈ c.classRefs, (Rules.referencedClassesResolve env c s).2.Knows name := by
  unfold Rules.referencedClassesResolve at h ⊢
  generalize c.classRefs = names at h ⊢
  induction names generalizing s with
  | nil => exact nofun
  | cons first rest ih =>
      rintro name (_ | ⟨_, hname⟩)
      · -- the first name is known before the others are resolved
        have hrest : (resolveAt env (.inClass c.name) first s).2.Extends (Check.each rest (fun name =>
            discard (resolveAt env (.inClass c.name) name))
              (resolveAt env (.inClass c.name) first s).2).2 :=
          (Regular.each fun _ => .discard (.resolveAt _ _)).extends
        exact hrest.knows (knows_resolveAt _ _ (hrest.unfailed h))
      · exact ih (s := (resolveAt env (.inClass c.name) first s).2) h name hname

/-- It is reported which of the classes that a class refers to are missing. -/
theorem problems_referencedClassesResolve (hpath : env.classpath.Reliable) (hs : Faithful env s)
    (p : Problem) : p ∈ (Rules.referencedClassesResolve env c s).2.problems ↔
      p ∈ s.problems ∨ ∃ name ∈ c.classRefs, Misses env (.inClass c.name) name p := by
  have hmisses : ∀ name, p ∈ (discard (resolveAt env (.inClass c.name) name)
      (Session.start env)).2.problems ↔ Misses env (.inClass c.name) name p := by
    intro name
    obtain ⟨s', hrun, -, hproblems, -⟩ :=
      (faithful_start env).resolveAt hpath (.inClass c.name) name
    show p ∈ (resolveAt env (.inClass c.name) name (Session.start env)).2.problems ↔ _
    rw [hrun, hproblems]
    simp [Session.start]
  unfold Rules.referencedClassesResolve
  rw [(Regular.finds_each hpath (fun _ => .discard (.resolveAt _ _)) hs).1]
  simp only [hmisses]

end Checks

/-! ## Decoded classes -/

/-- The header of the class, or a reference of it to a member, names another class or an array of it. -/
def ClassDefinition.Touches (c : ClassDefinition) (plain : String) : Prop :=
  plain ≠ c.name ∧ ∃ name ∈ c.parentsAndOwners, ClassName.element? name = some plain

/-- The references of a class are in order: they come once each, they leave out nothing that the class
touches, and so the rule that resolves them comes upon all of it. The rule takes a reference as every
resolution takes a name, so that one which still reads as an array stands for its elements. -/
structure Covered (c : ClassDefinition) : Prop where
  distinct : c.classRefs.Nodup
  notOwn : c.name ∉ c.classRefs
  closed : ∀ name ∈ c.parentsAndOwners, ∀ plain, ClassName.element? name = some plain →
    plain = c.name ∨ plain ∈ c.classRefs
  distinctMembers : c.memberRefs.Nodup
  resolved : ∀ env s, (Rules.referencedClassesResolve env c s).2.failure = none →
    ∀ plain, c.Touches plain → (Rules.referencedClassesResolve env c s).2.Knows plain
  reported : ∀ env s, env.classpath.Reliable → Faithful env s → ∀ plain p, c.Touches plain →
    Misses env (.inClass c.name) plain p → p ∈ (Rules.referencedClassesResolve env c s).2.problems

/-- Whatever the bytes, what is read of them is covered. -/
theorem covered_of_read {bytes : List UInt8} {c : ClassDefinition}
    (h : ClassFile.read bytes = .ok c) : Covered c := by
  obtain ⟨pool, hfrom⟩ := ClassFile.exists_readFrom h
  have hgathered := ClassFile.gathered_references hfrom.references
  have hlisted : ∀ plain, c.Touches plain → plain ∈ c.classRefs := by
    rintro plain ⟨hother, name, hname, hplain⟩
    exact (hfrom.covers hname hplain).resolve_left hother
  exact {
    distinct := hgathered.distinct
    notOwn := hgathered.notOwn
    closed := fun name hname plain hplain => hfrom.covers hname hplain
    distinctMembers := hgathered.distinctMembers
    resolved := fun env s hnone plain htouches =>
      knows_referencedClassesResolve hnone plain (hlisted plain htouches)
    reported := fun env s hpath hs plain p htouches hmisses =>
      (problems_referencedClassesResolve hpath hs p).mpr
        (Or.inr ⟨plain, hlisted plain htouches, hmisses⟩) }

/-- A class file whose superclass and whose owner of a method are arrays, with constants that come twice
or are not used at all. -/
def crowdedFile : List UInt8 :=
  [0xCA, 0xFE, 0xBA, 0xBE, 0, 0, 0, 61,
   0, 14,
   1, 0, 3, 112, 47, 65,                      -- 1: p/A
   7, 0, 1,                                   -- 2: the class itself
   1, 0, 8, 91, 91, 91, 76, 112, 47, 66, 59,  -- 3: [[[Lp/B;
   7, 0, 3,                                   -- 4: an array of p/B
   1, 0, 3, 112, 47, 66,                      -- 5: p/B
   7, 0, 5,                                   -- 6: p/B, which nothing uses
   7, 0, 1,                                   -- 7: the class itself once more
   1, 0, 2, 91, 73,                           -- 8: [I
   7, 0, 8,                                   -- 9: an array of integers
   1, 0, 3, 40, 41, 86,                       -- 10: ()V
   12, 0, 5, 0, 10,                           -- 11: the method p/B
   10, 0, 9, 0, 11,                           -- 12: of an array of integers
   10, 0, 9, 0, 11,                           -- 13: and again
   0, 33, 0, 7, 0, 4, 0, 1, 0, 6,
   0, 0, 0, 0, 0, 0]

theorem covered_crowdedFile : ∃ c, ClassFile.read crowdedFile = .ok c ∧ c.super = some "[[[Lp/B;" ∧
    c.classRefs = ["p/B"] ∧ Covered c := by
  have hread : (ClassFile.read crowdedFile).toOption.map (fun c => (c.super, c.classRefs)) =
      some (some "[[[Lp/B;", ["p/B"]) := by decide +kernel
  cases h : ClassFile.read crowdedFile with
  | error d =>
      rw [h] at hread
      cases hread
  | ok c =>
      rw [h] at hread
      injection hread with hread
      injection hread with hsuper hrefs
      exact ⟨c, rfl, hsuper, hrefs, covered_of_read h⟩

end Linkage

import Linkage.Proofs.Hierarchy.Access
import Linkage.Proofs.Hierarchy.Walks
import Linkage.Rule.References

/-!
# What is found about references to members

Every reference of a class to a member is judged by itself. On a class path that never fails it is
reported that there is no such member exactly if this is certain: the owner and all its ancestors are
there, and none of them declares it.

* **`MemberRef.linked`**, **`MemberRef.linked_eq`** — the one check that all references go through;
* **`foundFor`** — what is found about a reference by itself, case by case;
* **`Absent`**, **`ReferenceLaws`**, **`referenceLaws`** — when a member is reported to be absent, and when
  nothing is said about it;
* **`constructor_reported_iff`** — constructors are searched for like any other method, so those of
  ancestors count.
-/

namespace Linkage

/-! ## References -/

/-- A class declares a member with the name and the descriptor of the reference. -/
def ClassDefinition.Declares (d : ClassDefinition) (r : MemberRef) : Prop :=
  ∃ m ∈ (if r.kind = .field then d.fields else d.methods), m.name = r.name ∧ m.descriptor = r.descriptor

namespace MemberRef

/-- Nobody asks whether the member exists. -/
def isExempt (r : MemberRef) : Bool :=
  match r.kind with
  | .field => Rules.isArrayName r.owner
  | .method | .interfaceMethod =>
    Rules.isArrayName r.owner || Rules.polymorphicOwners.contains r.owner

/-- The member of a class that the reference stands for. -/
def declaredBy (r : MemberRef) (d : ClassDefinition) : Option Member :=
  match r.kind with
  | .field => d.findField r.name r.descriptor
  | .method | .interfaceMethod => d.findMethod r.name r.descriptor

/-- The problem that there is no such member. -/
def absence (r : MemberRef) (c : ClassDefinition) : Problem :=
  match r.kind with
  | .field => .fieldNotFound (.ofRef r) (.inClass c.name)
  | .method | .interfaceMethod => .methodNotFound (.ofRef r) (.inClass c.name)

/-- The problem that the member is not accessible. -/
def illegalUse (r : MemberRef) (c declaring : ClassDefinition) (m : Member) : Problem :=
  match r.kind with
  | .field => .illegalFieldAccess (.ofMember declaring m) m.access.level (.inClass c.name)
  | .method | .interfaceMethod =>
    .illegalMethodAccess (.ofMember declaring m) m.access.level (.inClass c.name)

/-- What is done with the outcome of a search. -/
def judged (env : Setting) (c : ClassDefinition) (r : MemberRef) : MemberSearch → Check Unit
  | .found declaring m => do
    if ← isAccessible env c declaring m.access then pure ()
    else Check.problem (r.illegalUse c declaring m)
  | .missing => Check.problem (r.absence c)
  | .unknown => pure ()

/-- What is done with the owner. -/
def soughtIn (env : Setting) (c : ClassDefinition) (r : MemberRef) : Option ClassDefinition → Check Unit
  | none => pure ()
  | some owner => do
    let search ← searchMember env owner r.declaredBy
    r.judged env c search

/-- The check of a reference. -/
def linked (env : Setting) (c : ClassDefinition) (r : MemberRef) : Check Unit :=
  if r.isExempt then pure ()
  else do
    let owner ← resolveAt env (.inClass c.name) r.owner
    r.soughtIn env c owner

/-- Fields and methods go through the same check. -/
theorem linked_eq (env : Setting) (c : ClassDefinition) (r : MemberRef) : r.linked env c =
    match r.kind with
    | .field => Rules.fieldRefLinks env c r
    | .method | .interfaceMethod => Rules.methodRefLinks env c r := by
  obtain ⟨kind, owner, name, descriptor⟩ := r
  cases kind with
  | field => rfl
  | method => rfl
  | interfaceMethod => rfl

theorem regular_linked (env : Setting) (c : ClassDefinition) (r : MemberRef) :
    Regular env (r.linked env c) := by
  rw [linked_eq]
  split
  · exact Regular.fieldRefLinks c r
  · exact Regular.methodRefLinks c r
  · exact Regular.methodRefLinks c r

theorem not_isArrayName {r : MemberRef} (h : r.isExempt = false) :
    Rules.isArrayName r.owner = false := by
  unfold isExempt at h
  split at h
  · exact h
  · exact (Bool.or_eq_false_iff.mp h).1
  · exact (Bool.or_eq_false_iff.mp h).1

section Methods

variable {r : MemberRef} (hkind : r.kind ≠ .field)
include hkind

theorem declaredBy_of_method (d : ClassDefinition) :
    r.declaredBy d = d.findMethod r.name r.descriptor := by
  unfold declaredBy
  split
  · next hfield => exact absurd hfield hkind
  · rfl
  · rfl

theorem absence_of_method (c : ClassDefinition) :
    r.absence c = .methodNotFound (.ofRef r) (.inClass c.name) := by
  unfold absence
  split
  · next hfield => exact absurd hfield hkind
  · rfl
  · rfl

theorem illegalUse_of_method (c d : ClassDefinition) (m : Member) :
    r.illegalUse c d m = .illegalMethodAccess (.ofMember d m) m.access.level (.inClass c.name) := by
  unfold illegalUse
  split
  · next hfield => exact absurd hfield hkind
  · rfl
  · rfl

end Methods

theorem declaredBy_eq_none {r : MemberRef} {d : ClassDefinition} :
    r.declaredBy d = none ↔ ¬ d.Declares r := by
  have hnone : ∀ ms : List Member, ms.find? (·.isCalled r.name r.descriptor) = none ↔
      ¬ ∃ m ∈ ms, m.name = r.name ∧ m.descriptor = r.descriptor := by
    intro ms
    rw [List.find?_eq_none]
    simp [Member.isCalled]
  unfold declaredBy ClassDefinition.Declares
  cases hkind : r.kind with
  | field => exact hnone d.fields
  | method => exact hnone d.methods
  | interfaceMethod => exact hnone d.methods

end MemberRef

/-- What is found about a reference by itself. -/
def foundFor (env : Setting) (c : ClassDefinition) (r : MemberRef) : List Problem :=
  (r.linked env c (Session.start env)).2.problems

/-- It is certain that there is no such member: the owner and all its ancestors are there, and none of
them declares it. -/
def Absent (env : Setting) (r : MemberRef) : Prop :=
  r.isExempt = false ∧ ∃ owner, env.resolved r.owner = some owner ∧
    (∀ n, AncestorName env owner n → env.resolved n ≠ none) ∧
    ∀ d, d = owner ∨ AncestorOf env owner d → ¬ d.Declares r

/-! ## A reference by itself -/

section Found

variable {env : Setting} {c owner : ClassDefinition} {r : MemberRef}

theorem foundFor_exempt (h : r.isExempt = true) : foundFor env c r = [] := by
  unfold foundFor MemberRef.linked
  rw [if_pos h]
  rfl

/-- The owner has the name by which it is referred to. -/
theorem resolved_name_of_owner (hexempt : r.isExempt = false)
    (howner : env.resolved r.owner = some owner) : env.resolved owner.name = some owner := by
  have hplain : env.resolved r.owner = env.classpath.definition? r.owner :=
    resolved_of_plain (isPlain_of_not_array (MemberRef.not_isArrayName hexempt))
  rw [Classpath.name_of_definition? (hplain.symm.trans howner), howner]

variable (hpath : env.classpath.Reliable) (hexempt : r.isExempt = false)
include hpath hexempt

/-- After the search for the owner it is reported at most that the owner is missing. -/
theorem exists_foundFor_eq : ∃ s, Faithful env s ∧
    (∀ p, p ∈ s.problems ↔ Misses env (.inClass c.name) r.owner p) ∧
    foundFor env c r = (r.soughtIn env c (env.resolved r.owner) s).2.problems := by
  obtain ⟨s, hrun, hfaithful, hproblems, -⟩ :=
    (faithful_start env).resolveAt hpath (.inClass c.name) r.owner
  refine ⟨s, hfaithful, ?_, ?_⟩
  · intro p
    rw [hproblems]
    simp [Session.start]
  · unfold foundFor MemberRef.linked
    rw [hexempt, if_neg Bool.false_ne_true]
    show (r.soughtIn env c (resolveAt env _ r.owner _).1 (resolveAt env _ r.owner _).2).2.problems = _
    rw [hrun]

/-- Of an owner that is missing, no more is said than that. -/
theorem mem_foundFor_ownerless (howner : env.resolved r.owner = none) (p : Problem) :
    p ∈ foundFor env c r ↔ Misses env (.inClass c.name) r.owner p := by
  obtain ⟨s, -, hproblems, hfound⟩ := exists_foundFor_eq (c := c) hpath hexempt
  rw [hfound, howner]
  exact hproblems p

variable (howner : env.resolved r.owner = some owner)
include howner

/-- If the owner is there, the search decides. -/
theorem exists_foundFor_judged : ∃ s, Faithful env s ∧ s.problems = [] ∧
    foundFor env c r = (r.judged env c (searched env owner r.declaredBy) s).2.problems := by
  obtain ⟨s, hfaithful, hproblems, hfound⟩ := exists_foundFor_eq (c := c) hpath hexempt
  obtain ⟨s', hrun, hfaithful', hproblems', -⟩ :=
    yields_searchMember hpath owner r.declaredBy s hfaithful
  refine ⟨s', hfaithful', ?_, ?_⟩
  · rw [hproblems', List.eq_nil_iff_forall_not_mem]
    intro p hp
    exact not_misses_of_resolved howner ((hproblems p).mp hp)
  · rw [hfound, howner]
    show (r.judged env c (searchMember env owner r.declaredBy s).1
      (searchMember env owner r.declaredBy s).2).2.problems = _
    rw [hrun]

theorem foundFor_missing (h : searched env owner r.declaredBy = .missing) :
    foundFor env c r = [r.absence c] := by
  obtain ⟨s, -, hproblems, hfound⟩ := exists_foundFor_judged (c := c) hpath hexempt howner
  rw [hfound, h]
  show insertNew s.problems (r.absence c) = _
  rw [hproblems]
  rfl

theorem foundFor_unknown (h : searched env owner r.declaredBy = .unknown) : foundFor env c r = [] := by
  obtain ⟨s, -, hproblems, hfound⟩ := exists_foundFor_judged (c := c) hpath hexempt howner
  rw [hfound, h]
  exact hproblems

/-- Of a member that is found it is reported whether it is not accessible. -/
theorem foundFor_found_eq {d : ClassDefinition} {m : Member}
    (h : searched env owner r.declaredBy = .found d m) :
    foundFor env c r = if accessible env c d m.access then [] else [r.illegalUse c d m] := by
  obtain ⟨s, hfaithful, hproblems, hfound⟩ := exists_foundFor_judged (c := c) hpath hexempt howner
  obtain ⟨s', hrun, -, hproblems', -⟩ := yields_isAccessible hpath c d m.access s hfaithful
  have hjudged : foundFor env c r = ((if accessible env c d m.access then (pure () : Check Unit)
      else Check.problem (r.illegalUse c d m)) s').2.problems := by
    rw [hfound, h]
    show ((if (isAccessible env c d m.access s).1 then (pure () : Check Unit)
      else Check.problem (r.illegalUse c d m)) (isAccessible env c d m.access s).2).2.problems = _
    rw [hrun]
  rw [hjudged]
  cases accessible env c d m.access with
  | true => exact hproblems'.trans hproblems
  | false =>
      show insertNew s'.problems _ = _
      rw [hproblems', hproblems]
      rfl

/-- A member that is found may not be accessible. -/
theorem foundFor_found {d : ClassDefinition} {m : Member}
    (h : searched env owner r.declaredBy = .found d m) :
    foundFor env c r = [] ∨ foundFor env c r = [r.illegalUse c d m] := by
  rw [foundFor_found_eq hpath hexempt howner h]
  split
  · exact Or.inl rfl
  · exact Or.inr rfl

omit hpath in
/-- That there is no such member is certain exactly if the search is sure of it. -/
theorem absent_iff_searched :
    Absent env r ↔ searched env owner r.declaredBy = .missing := by
  have hself : AncestorName env owner owner.name → env.resolved owner.name = some owner :=
    fun _ => resolved_name_of_owner hexempt howner
  have hnone : NoneDeclares env owner r.declaredBy ↔
      ∀ d, d = owner ∨ AncestorOf env owner d → ¬ d.Declares r := by
    unfold NoneDeclares
    simp only [MemberRef.declaredBy_eq_none]
  rw [searched_missing_iff hself, hnone]
  constructor
  · rintro ⟨-, owner', howner', hancestors, hundeclared⟩
    obtain rfl := Option.some.inj (howner.symm.trans howner')
    exact ⟨hundeclared, hancestors⟩
  · rintro ⟨hundeclared, hancestors⟩
    exact ⟨hexempt, owner, howner, hancestors, hundeclared⟩

/-- Nothing is found if a declaration might be in an ancestor that is missing. -/
theorem foundFor_uncertain (hmissing : ∃ n, AncestorName env owner n ∧ env.resolved n = none)
    (hundeclared : ∀ d, d = owner ∨ AncestorOf env owner d → ¬ d.Declares r) :
    foundFor env c r = [] := by
  refine foundFor_unknown hpath hexempt howner ?_
  refine (searched_unknown_iff fun _ => resolved_name_of_owner hexempt howner).mpr ⟨?_, hmissing⟩
  intro d hd
  exact MemberRef.declaredBy_eq_none.mpr (hundeclared d hd)

end Found

/-! ## All references -/

section All

variable {env : Setting} {c : ClassDefinition} {r r' : MemberRef}

theorem absence_ne_classNotFound (name : String) (location : Location) :
    r.absence c ≠ .classNotFound name location := by
  unfold MemberRef.absence
  split <;> exact nofun

theorem absence_ne_illegalUse (d : ClassDefinition) (m : Member) :
    r.absence c ≠ r'.illegalUse c d m := by
  unfold MemberRef.absence MemberRef.illegalUse
  split <;> split <;> exact nofun

/-- References of which the same is reported mean the same members. -/
theorem absent_congr (h : r'.absence c = r.absence c) : Absent env r' ↔ Absent env r := by
  obtain ⟨kind, owner, name, descriptor⟩ := r
  obtain ⟨kind', owner', name', descriptor'⟩ := r'
  -- a field is never the same as a method, and the kinds of methods make no difference
  cases kind <;> cases kind' <;> cases h <;> exact Iff.rfl

variable (hpath : env.classpath.Reliable)
include hpath

/-- A reference by itself is the reason of a report exactly if it is certain that there is no such
member. -/
theorem absence_mem_foundFor_iff :
    r.absence c ∈ foundFor env c r' ↔ r'.absence c = r.absence c ∧ Absent env r' := by
  cases hexempt : r'.isExempt with
  | true =>
      rw [foundFor_exempt hexempt]
      unfold Absent
      simp [hexempt]
  | false =>
      cases howner : env.resolved r'.owner with
      | none =>
          rw [mem_foundFor_ownerless hpath hexempt howner]
          constructor
          · rintro ⟨plain, -, -, -, hproblem⟩
            exact absurd hproblem (absence_ne_classNotFound _ _)
          · rintro ⟨-, -, owner, howner', -⟩
            rw [howner] at howner'
            cases howner'
      | some owner =>
          rw [absent_iff_searched hexempt howner]
          cases hsearch : searched env owner r'.declaredBy with
          | found d m =>
              have hnot : r.absence c ∉ foundFor env c r' := by
                intro hmem
                rcases foundFor_found (c := c) hpath hexempt howner hsearch with hnone | hillegal
                · rw [hnone] at hmem
                  cases hmem
                · rw [hillegal] at hmem
                  exact absence_ne_illegalUse d m (List.mem_singleton.mp hmem)
              exact iff_of_false hnot nofun
          | missing =>
              rw [foundFor_missing hpath hexempt howner hsearch, List.mem_singleton, eq_comm]
              simp
          | unknown =>
              rw [foundFor_unknown hpath hexempt howner hsearch]
              simp

/-- What is found about the references of a class is what is found about each by itself. -/
theorem problems_memberRefsLink {s : Session} (hs : Faithful env s) (p : Problem) :
    p ∈ (Rules.memberRefsLink env c s).2.problems ↔
      p ∈ s.problems ∨ ∃ r ∈ c.memberRefs, p ∈ foundFor env c r := by
  have hrule : Rules.memberRefsLink env c = Check.each c.memberRefs (MemberRef.linked env c) :=
    congrArg (Check.each c.memberRefs) (funext fun r => (MemberRef.linked_eq env c r).symm)
  rw [hrule]
  exact (Regular.finds_each hpath (MemberRef.regular_linked env c) hs).1 p

/-- The members that are reported to be absent are those of which that is certain. -/
theorem absence_mem_memberRefsLink_iff {s : Session} (hs : Faithful env s) (hr : r ∈ c.memberRefs) :
    r.absence c ∈ (Rules.memberRefsLink env c s).2.problems ↔
      r.absence c ∈ s.problems ∨ Absent env r := by
  rw [problems_memberRefsLink hpath hs]
  refine or_congr_right ?_
  constructor
  · rintro ⟨r', -, hfound⟩
    obtain ⟨hsame, habsent⟩ := (absence_mem_foundFor_iff hpath).mp hfound
    exact (absent_congr hsame).mp habsent
  · intro habsent
    exact ⟨r, hr, (absence_mem_foundFor_iff hpath).mpr ⟨rfl, habsent⟩⟩

end All

/-- What the rule about member references says on a class path. -/
structure ReferenceLaws (env : Setting) : Prop where
  /-- Each reference is judged by itself. -/
  each : ∀ (c : ClassDefinition) (s : Session), Faithful env s → ∀ p,
    p ∈ (Rules.memberRefsLink env c s).2.problems ↔
      p ∈ s.problems ∨ ∃ r ∈ c.memberRefs, p ∈ foundFor env c r
  /-- A member is reported to be absent if and only if that is certain. -/
  absent : ∀ (c : ClassDefinition) (r : MemberRef) (s : Session), Faithful env s →
    r ∈ c.memberRefs →
    (r.absence c ∈ (Rules.memberRefsLink env c s).2.problems ↔
      r.absence c ∈ s.problems ∨ Absent env r)
  /-- Nothing is reported for a reference if no class that is there declares the member but an
  ancestor is missing. -/
  uncertain : ∀ (c owner : ClassDefinition) (r : MemberRef), env.resolved r.owner = some owner →
    (∃ n, AncestorName env owner n ∧ env.resolved n = none) →
    (∀ d, d = owner ∨ AncestorOf env owner d → ¬ d.Declares r) → foundFor env c r = []
  /-- The search for ancestors ends by itself: it would not go on if it were allowed more steps. -/
  ends : ∀ (owner : ClassDefinition) (bound : Nat) (s : Session), climbBound env owner ≤ bound →
    Faithful env s → (ancestryUpTo env bound owner s).1 = (ancestry env owner s).1

/-- On a class path that never fails the laws of references hold. -/
theorem referenceLaws (env : Setting) (hpath : env.classpath.Reliable) : ReferenceLaws env where
  each _ _ hs := problems_memberRefsLink hpath hs
  absent _ _ _ hs hr := absence_mem_memberRefsLink_iff hpath hs hr
  uncertain c owner r howner hmissing hundeclared := by
    cases hexempt : r.isExempt with
    | true => exact foundFor_exempt hexempt
    | false => exact foundFor_uncertain hpath hexempt howner hmissing hundeclared
  ends owner bound s hbound hs := by
    rw [ancestry_eq, (yields_ancestryUpTo hpath bound owner).value hs,
      (yields_ancestryUpTo hpath (climbBound env owner) owner).value hs,
      ancestryWithin_enough hbound]

/-- A class that is its own ancestor, with interfaces two of which extend a third one that extends one
of them in turn. -/
def tangled : List ClassDefinition :=
  [classUnder "t/Owner" (some "t/Base") ["t/Left", "t/Right"], classUnder "t/Base" (some "t/Owner") [],
    classUnder "t/Left" none ["t/Top"], classUnder "t/Right" none ["t/Top", "t/Deep"],
    { classUnder "t/Top" none ["t/Left"] with methods := [⟨"start", "()V", ⟨1⟩, false⟩] },
    classUnder "t/Deep" none []]

/-- A class that uses a method that there is, and a method and a field that there are not. -/
def tangledUser : ClassDefinition :=
  { classUnder "p/User" none [] with
    memberRefs := [⟨.method, "t/Owner", "start", "()V"⟩, ⟨.interfaceMethod, "t/Owner", "stop", "()V"⟩,
      ⟨.field, "t/Owner", "state", "I"⟩] }

/-- What is missing is certain there. Without the class at the end nothing is. -/
theorem referenceLaws_tangled :
    (¬ Absent (settingOn tangled) ⟨.method, "t/Owner", "start", "()V"⟩ ∧
      Absent (settingOn tangled) ⟨.interfaceMethod, "t/Owner", "stop", "()V"⟩ ∧
      Absent (settingOn tangled) ⟨.field, "t/Owner", "state", "I"⟩) ∧
    ∀ r ∈ tangledUser.memberRefs, ¬ Absent (settingOn (tangled.take 5)) r := by
  have hlaws := fun r => (referenceLaws (settingOn tangled) (reliable_settingOn _)).absent tangledUser r
    _ (faithful_start _)
  have hcut := fun r => (referenceLaws (settingOn (tangled.take 5)) (reliable_settingOn _)).absent
    tangledUser r _ (faithful_start _)
  have hfound : (Rules.memberRefsLink (settingOn tangled) tangledUser
      (.start (settingOn tangled))).2.problems =
      [.methodNotFound ⟨"t/Owner", "stop", "()V"⟩ (.inClass "p/User"),
        .fieldNotFound ⟨"t/Owner", "state", "I"⟩ (.inClass "p/User")] := by decide +kernel
  have hnone : (Rules.memberRefsLink (settingOn (tangled.take 5)) tangledUser
      (.start (settingOn (tangled.take 5)))).2.problems = [] := by decide +kernel
  rw [hfound] at hlaws
  rw [hnone] at hcut
  refine ⟨⟨?_, ?_, ?_⟩, ?_⟩
  · intro habsent
    exact absurd ((hlaws _ (by decide)).mpr (Or.inr habsent)) (by decide)
  · exact ((hlaws _ (by decide)).mp (by decide)).resolve_left nofun
  · exact ((hlaws _ (by decide)).mp (by decide)).resolve_left nofun
  · intro r hr habsent
    exact absurd ((hcut r hr).mpr (Or.inr habsent)) List.not_mem_nil

/-! ## Constructors -/

/-- A class uses a constructor that its owner does not declare, with all ancestors of the owner there. -/
structure LacksConstructor (env : Setting) (c : ClassDefinition) (r : MemberRef)
    (owner : ClassDefinition) : Prop where
  used : r ∈ c.memberRefs
  kind : r.kind ≠ .field
  name : r.name = "<init>"
  exempt : r.isExempt = false
  resolved : env.resolved r.owner = some owner
  ancestors : ∀ n, AncestorName env owner n → env.resolved n ≠ none
  undeclared : owner.findMethod "<init>" r.descriptor = none

namespace LacksConstructor

variable {env : Setting} {c owner : ClassDefinition} {r : MemberRef}

theorem declaredBy_eq (h : LacksConstructor env c r owner) (d : ClassDefinition) :
    r.declaredBy d = d.findMethod "<init>" r.descriptor := by
  rw [MemberRef.declaredBy_of_method h.kind, h.name]

/-- The search is sure exactly if no ancestor has such a constructor. -/
theorem searched_missing_iff (h : LacksConstructor env c r owner) :
    searched env owner r.declaredBy = .missing ↔
      ∀ d, AncestorOf env owner d → d.findMethod "<init>" r.descriptor = none := by
  rw [Linkage.searched_missing_iff fun _ => resolved_name_of_owner h.exempt h.resolved,
    and_iff_left h.ancestors]
  unfold NoneDeclares
  simp only [h.declaredBy_eq]
  constructor
  · intro hnone d hd
    exact hnone d (Or.inr hd)
  · rintro hnone d (rfl | hd)
    · exact h.undeclared
    · exact hnone d hd

end LacksConstructor

/-- A constructor that the owner does not declare is reported to be absent exactly if no ancestor has one
of that descriptor. If one does, the reference is taken for one to the constructor of the ancestor, which
may not be accessible. -/
theorem constructor_reported_iff {env : Setting} (hpath : env.classpath.Reliable)
    {c owner : ClassDefinition} {r : MemberRef} (h : LacksConstructor env c r owner) :
    (∀ s, Faithful env s →
      (.methodNotFound (.ofRef r) (.inClass c.name) ∈ (Rules.memberRefsLink env c s).2.problems ↔
        .methodNotFound (.ofRef r) (.inClass c.name) ∈ s.problems ∨
          ∀ d, AncestorOf env owner d → d.findMethod "<init>" r.descriptor = none)) ∧
    ((∃ d, AncestorOf env owner d ∧ d.findMethod "<init>" r.descriptor ≠ none) →
      foundFor env c r = [] ∨ ∃ d m, AncestorOf env owner d ∧
        d.findMethod "<init>" r.descriptor = some m ∧
        foundFor env c r = [.illegalMethodAccess (.ofMember d m) m.access.level (.inClass c.name)]) := by
  have hself : AncestorName env owner owner.name → env.resolved owner.name = some owner :=
    fun _ => resolved_name_of_owner h.exempt h.resolved
  refine ⟨?_, ?_⟩
  · intro s hs
    rw [← MemberRef.absence_of_method h.kind, absence_mem_memberRefsLink_iff hpath hs h.used,
      absent_iff_searched h.exempt h.resolved, h.searched_missing_iff]
  · rintro ⟨d, hd, hdeclares⟩
    cases hsearch : searched env owner r.declaredBy with
    | found d' m =>
        have hfound := foundFor_found (c := c) hpath h.exempt h.resolved hsearch
        obtain ⟨hd', hm⟩ := declares_of_searched hself hsearch
        rw [h.declaredBy_eq] at hm
        rw [MemberRef.illegalUse_of_method h.kind] at hfound
        rcases hd' with rfl | hd'
        · rw [h.undeclared] at hm
          cases hm
        · exact hfound.imp id fun hfound => ⟨d', m, hd', hm, hfound⟩
    | missing => exact absurd (h.searched_missing_iff.mp hsearch d hd) hdeclares
    | unknown =>
        obtain ⟨-, n, hn, hnone⟩ := (searched_unknown_iff hself).mp hsearch
        exact absurd hnone (h.ancestors n hn)

/-- A class without a constructor. -/
def constructorless : ClassDefinition := classUnder "h/Service" (some ClassName.root) []

/-- This class, and the root of the hierarchy with some methods. -/
def serviceSetting (methods : List Member) : Setting :=
  settingOn [constructorless, { classUnder ClassName.root none [] with methods := methods }]

/-- A class that calls the constructor that is not there. -/
def serviceUser : ClassDefinition :=
  { classUnder "p/User" (some ClassName.root) [] with
    memberRefs := [⟨.method, "h/Service", "<init>", "()V"⟩] }

theorem lacksConstructor_service (methods : List Member) :
    LacksConstructor (serviceSetting methods) serviceUser ⟨.method, "h/Service", "<init>", "()V"⟩
      constructorless where
  used := List.mem_cons_self
  kind := nofun
  name := rfl
  exempt := rfl
  resolved := rfl
  ancestors := (complete_ancestry (fun _ => rfl) (Nat.le_refl _)).mp rfl
  undeclared := rfl

/-- If the root declares nothing, the constructor is reported to be absent. -/
theorem constructor_reported_service :
    .methodNotFound ⟨"h/Service", "<init>", "()V"⟩ (.inClass "p/User") ∈
      (Rules.memberRefsLink (serviceSetting []) serviceUser (.start (serviceSetting []))).2.problems := by
  have hreported := (constructor_reported_iff (reliable_settingOn _) (lacksConstructor_service [])).1
    _ (faithful_start _)
  refine hreported.mpr (Or.inr ?_)
  intro d hd
  obtain ⟨n, hn, hresolved⟩ := hd
  have hmem := Classpath.mem_classes_of_definition? (definition?_of_resolved hresolved)
  have hnone : ∀ d ∈ (serviceSetting []).classpath.classes, d.findMethod "<init>" "()V" = none := by
    decide
  exact hnone d hmem

/-- A constructor that everybody may call. -/
def publicConstructor : Member := ⟨"<init>", "()V", ⟨1⟩, false⟩

/-- If the root declares one, which is not one of the class, nothing is reported. -/
theorem constructor_unreported :
    LacksConstructor (serviceSetting [publicConstructor]) serviceUser
      ⟨.method, "h/Service", "<init>", "()V"⟩ constructorless ∧
    (Rules.memberRefsLink (serviceSetting [publicConstructor]) serviceUser
      (.start (serviceSetting [publicConstructor]))).2.problems = [] :=
  ⟨lacksConstructor_service _, by decide +kernel⟩

end Linkage

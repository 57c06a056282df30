import Linkage.Proofs.Hierarchy.Reflagging
import Linkage.Proofs.Rule.MemberReferences
import Mathlib.Data.List.DropRight
import Mathlib.Logic.Relation

/-!
# Members that become more visible

A member becomes more visible when it is made public or protected, or when it is private no longer. This
does not take it away from any class that could use it. Classes of one top-level class are in one package,
so what was private may be used there by all who could use it before.

* **`AccessFlags.Widened`** — flags after any number of such changes;
* **`package_of_outermost`** — the top-level class tells the package;
* **`accessible_of_widened`** — who could use a member can still use it;
* **`Eased`**, **`eased_memberRefsLink`** — if members of a class path become more visible, no use of
  them becomes illegal, and the same members and classes are missing.
-/

namespace Linkage

/-! ## Flags -/

namespace AccessFlags

/-- The flags with the bits of `flag` cleared. -/
def removing (a : AccessFlags) (flag : UInt16) : AccessFlags := ⟨a.bits &&& ~~~flag⟩

/-- One change of flags that makes a member more visible. -/
inductive WidensTo (a : AccessFlags) : AccessFlags → Prop where
  | makePublic : WidensTo a (a.adding publicBit)
  | dropPrivate : WidensTo a (a.removing privateBit)
  | makeProtected : WidensTo a (a.adding protectedBit)

/-- The flags after any number of these changes. -/
def Widened : AccessFlags → AccessFlags → Prop := Relation.ReflTransGen WidensTo

variable {a : AccessFlags} {flag other : UInt16}

theorem contains_adding_self : (a.adding flag).contains flag = true := by
  have habsorb : (a.bits ||| flag) &&& flag = flag := by
    apply UInt16.toBitVec_inj.mp
    ext i
    simpa using Or.inr
  exact beq_iff_eq.mpr habsorb

/-- Other bits than those that are set stay. -/
theorem contains_adding_other (h : flag &&& other = 0) :
    (a.adding flag).contains other = a.contains other := by
  have hsame : (a.bits ||| flag) &&& other = a.bits &&& other := by
    have hdistributes : (a.bits ||| flag) &&& other = (a.bits &&& other) ||| (flag &&& other) :=
      UInt16.toBitVec_inj.mp BitVec.and_or_distrib_right
    rw [hdistributes, h, UInt16.or_zero]
  exact congrArg (· == other) hsame

theorem contains_removing_self (h : flag ≠ 0) : (a.removing flag).contains flag = false := by
  have hgone : (a.bits &&& ~~~flag) &&& flag = 0 := by
    rw [UInt16.and_assoc, UInt16.not_and_self, UInt16.and_zero]
  refine beq_eq_false_iff_ne.mpr ?_
  show (a.bits &&& ~~~flag) &&& flag ≠ flag
  rw [hgone]
  exact h.symm

/-- Other bits than those that are cleared stay. -/
theorem contains_removing_other (h : flag &&& other = 0) :
    (a.removing flag).contains other = a.contains other := by
  have hkept : ~~~flag &&& other = other := by
    have hdistributes : (~~~flag ||| flag) &&& other = (~~~flag &&& other) ||| (flag &&& other) :=
      UInt16.toBitVec_inj.mp BitVec.and_or_distrib_right
    rw [h, UInt16.or_zero, UInt16.not_or_self, UInt16.neg_one_and] at hdistributes
    exact hdistributes.symm
  have hsame : (a.bits &&& ~~~flag) &&& other = a.bits &&& other := by
    rw [UInt16.and_assoc, hkept]
  exact congrArg (· == other) hsame

end AccessFlags

/-! ## Packages -/

/-- The package of a class is that of its top-level class. -/
theorem package_outermost (name : String) :
    ClassName.package (ClassName.outermost name) = ClassName.package name := by
  unfold ClassName.package ClassName.outermost
  rw [String.toList_ofList, List.reverse_append, List.reverse_reverse]
  -- the part of the simple name that is left has no slash
  have hsimple : ∀ x ∈ (((name.toList.reverse.takeWhile (· ≠ '/')).reverse.takeWhile (· ≠ '$')).reverse),
      decide (x ≠ '/') = true := by
    intro x hx
    have hmem := (List.takeWhile_sublist _).subset (List.mem_reverse.mp hx)
    exact List.mem_takeWhile_imp (p := fun x => decide (x ≠ '/')) (List.mem_reverse.mp hmem)
  rw [List.dropWhile_append_of_pos hsimple, List.dropWhile_idempotent]

theorem package_of_outermost {a b : String} (h : ClassName.outermost a = ClassName.outermost b) :
    ClassName.package a = ClassName.package b := by
  rw [← package_outermost a, h, package_outermost b]

/-! ## Who may use a member -/

section Access

variable {env env' : Setting} {c d d' : ClassDefinition} {a a' : AccessFlags}

theorem accessible_of_widensTo (h : a.WidensTo a') (hbefore : accessible env c d a = true) :
    accessible env c d a' = true := by
  have hnest : ClassName.outermost c.name = ClassName.outermost d.name →
      ClassName.package c.name = ClassName.package d.name := package_of_outermost
  unfold accessible at hbefore ⊢
  cases h with
  | makePublic =>
      have hpublic : (a.adding AccessFlags.publicBit).isPublic = true := AccessFlags.contains_adding_self
      simp [hpublic]
  | dropPrivate =>
      have hpublic : (a.removing AccessFlags.privateBit).isPublic = a.isPublic :=
        AccessFlags.contains_removing_other (by decide)
      have hprotected : (a.removing AccessFlags.privateBit).isProtected = a.isProtected :=
        AccessFlags.contains_removing_other (by decide)
      have hprivate : (a.removing AccessFlags.privateBit).isPrivate = false :=
        AccessFlags.contains_removing_self (by decide)
      rw [hpublic, hprotected, hprivate]
      split
      · rfl
      · next hclosed =>
          rw [if_neg hclosed] at hbefore
          by_cases hwas : a.isPrivate = true
          · -- whoever could use it is in the package
            rw [if_pos hwas] at hbefore
            have hpackage := hnest (beq_iff_eq.mp hbefore)
            simp [hpackage]
          · rw [if_neg hwas] at hbefore
            exact hbefore
  | makeProtected =>
      have hpublic : (a.adding AccessFlags.protectedBit).isPublic = a.isPublic :=
        AccessFlags.contains_adding_other (by decide)
      have hprivate : (a.adding AccessFlags.protectedBit).isPrivate = a.isPrivate :=
        AccessFlags.contains_adding_other (by decide)
      have hprotected : (a.adding AccessFlags.protectedBit).isProtected = true :=
        AccessFlags.contains_adding_self
      rw [hpublic, hprivate, hprotected]
      split
      · rfl
      · next hclosed =>
          rw [if_neg hclosed] at hbefore
          split
          · next hwas =>
              rw [if_pos hwas] at hbefore
              exact hbefore
          · next hwas =>
              rw [if_neg hwas] at hbefore
              simp only [if_true]
              split at hbefore
              · exact hbefore
              · exact Bool.or_eq_true_iff.mpr (Or.inl hbefore)

/-- Who could use a member can still use it when it has become more visible. -/
theorem accessible_of_widened (h : a.Widened a') (hbefore : accessible env c d a = true) :
    accessible env c d a' = true := by
  induction h with
  | refl => exact hbefore
  | tail _ hstep ih => exact accessible_of_widensTo hstep ih

/-- Whether a member may be used goes by its own flags alone. -/
theorem Setting.Reflagged.accessible_eq {R : AccessFlags → AccessFlags → Prop} (h : env.Reflagged R env')
    (hd : d.Reflagged R d') (c : ClassDefinition) (a : AccessFlags) :
    accessible env' c d' a = accessible env c d a := by
  unfold accessible
  simp only [hd.name, h.isBelow_iff]

end Access

/-! ## References to members -/

section References

variable {env env' : Setting}

theorem MemberRef.picks {R : AccessFlags → AccessFlags → Prop} (r : MemberRef) :
    Picks R r.declaredBy := by
  intro d d' hd
  unfold MemberRef.declaredBy
  cases r.kind with
  | field => exact hd.findField r.name r.descriptor
  | method => exact hd.findMethod r.name r.descriptor
  | interfaceMethod => exact hd.findMethod r.name r.descriptor

/-- It says that a use of a member is illegal. -/
def Problem.isIllegalAccess : Problem → Bool
  | .illegalMethodAccess .. | .illegalFieldAccess .. => true
  | _ => false

theorem MemberRef.not_mem_illegalUse {p : Problem} (hp : p.isIllegalAccess = false) (r : MemberRef)
    (c d : ClassDefinition) (m : Member) : p ∉ [r.illegalUse c d m] := by
  intro hmem
  rw [List.mem_singleton.mp hmem] at hp
  unfold MemberRef.illegalUse at hp
  split at hp <;> cases hp

/-- Of what is reported of members and classes, it is only illegal uses that have become fewer. The level
of access of a member may be another one. -/
structure Eased (before after : List Problem) : Prop where
  methods : ∀ place level location, .illegalMethodAccess place level location ∈ after →
    ∃ level', .illegalMethodAccess place level' location ∈ before
  fields : ∀ place level location, .illegalFieldAccess place level location ∈ after →
    ∃ level', .illegalFieldAccess place level' location ∈ before
  /-- Whatever is missing is missing as before. -/
  others : ∀ p, p.isIllegalAccess = false → (p ∈ after ↔ p ∈ before)

namespace Eased

theorem of_mem_iff {before after : List Problem} (h : ∀ p, p ∈ after ↔ p ∈ before) :
    Eased before after :=
  ⟨fun _ level _ hp => ⟨level, (h _).mp hp⟩, fun _ level _ hp => ⟨level, (h _).mp hp⟩, fun p _ => h p⟩

theorem refl (problems : List Problem) : Eased problems problems := of_mem_iff fun _ => Iff.rfl

/-- The use is legal now. -/
theorem cleared (r : MemberRef) (c d : ClassDefinition) (m : Member) : Eased [r.illegalUse c d m] [] :=
  ⟨nofun, nofun, fun _ hp => iff_of_false nofun (r.not_mem_illegalUse hp c d m)⟩

/-- The use is as illegal as it was. -/
theorem kept (r : MemberRef) (c : ClassDefinition) {d d' : ClassDefinition} {m m' : Member}
    (hplace : MemberPlace.ofMember d' m' = MemberPlace.ofMember d m) :
    Eased [r.illegalUse c d m] [r.illegalUse c d' m'] := by
  refine ⟨?_, ?_, fun p hp => iff_of_false (r.not_mem_illegalUse hp c d' m')
    (r.not_mem_illegalUse hp c d m)⟩
  · intro place level location hp
    have hp := List.mem_singleton.mp hp
    refine ⟨m.access.level, List.mem_singleton.mpr ?_⟩
    unfold MemberRef.illegalUse at hp ⊢
    cases hkind : r.kind with
    | field => rw [hkind] at hp; cases hp
    | method | interfaceMethod => rw [hkind] at hp; cases hp; rw [hplace]
  · intro place level location hp
    have hp := List.mem_singleton.mp hp
    refine ⟨m.access.level, List.mem_singleton.mpr ?_⟩
    unfold MemberRef.illegalUse at hp ⊢
    cases hkind : r.kind with
    | field => rw [hkind] at hp; cases hp; rw [hplace]
    | method | interfaceMethod => rw [hkind] at hp; cases hp

/-- What is reported one after the other has become fewer if each of it has. -/
theorem gathered {α : Type} {xs : List α} {before after problems problems' : List Problem}
    {found found' : α → List Problem} (h : ∀ x, Eased (found x) (found' x)) (hstart : problems' = problems)
    (hbefore : ∀ p, p ∈ before ↔ p ∈ problems ∨ ∃ x ∈ xs, p ∈ found x)
    (hafter : ∀ p, p ∈ after ↔ p ∈ problems' ∨ ∃ x ∈ xs, p ∈ found' x) : Eased before after := by
  subst hstart
  refine ⟨?_, ?_, ?_⟩
  · intro place level location hp
    rcases (hafter _).mp hp with hold | ⟨x, hx, hnew⟩
    · exact ⟨level, (hbefore _).mpr (Or.inl hold)⟩
    · obtain ⟨level', hwas⟩ := (h x).methods place level location hnew
      exact ⟨level', (hbefore _).mpr (Or.inr ⟨x, hx, hwas⟩)⟩
  · intro place level location hp
    rcases (hafter _).mp hp with hold | ⟨x, hx, hnew⟩
    · exact ⟨level, (hbefore _).mpr (Or.inl hold)⟩
    · obtain ⟨level', hwas⟩ := (h x).fields place level location hnew
      exact ⟨level', (hbefore _).mpr (Or.inr ⟨x, hx, hwas⟩)⟩
  · intro p hp
    rw [hafter, hbefore]
    exact or_congr_right (exists_congr fun x => and_congr_right fun _ => (h x).others p hp)

end Eased

variable (hpath : env.classpath.Reliable) (h : env.Reflagged AccessFlags.Widened env')
include hpath h

/-- What is found about a reference by itself. -/
theorem eased_foundFor (c : ClassDefinition) (r : MemberRef) :
    Eased (foundFor env c r) (foundFor env' c r) := by
  have hpath' := h.reliable hpath
  cases hexempt : r.isExempt with
  | true =>
      rw [foundFor_exempt hexempt, foundFor_exempt hexempt]
      exact .refl []
  | false =>
      have howner := h.resolved r.owner
      cases hbefore : env.resolved r.owner <;> cases hafter : env'.resolved r.owner <;>
        rw [hbefore, hafter] at howner
      case none.none =>
        refine .of_mem_iff fun p => ?_
        rw [mem_foundFor_ownerless hpath' hexempt hafter, mem_foundFor_ownerless hpath hexempt hbefore,
          h.misses_iff]
      case none.some => cases howner
      case some.none => cases howner
      case some.some owner owner' =>
        obtain ⟨howner⟩ := howner
        have hsearch := h.searched r.picks howner
        generalize hfound : searched env owner r.declaredBy = found at hsearch
        generalize hfound' : searched env' owner' r.declaredBy = found' at hsearch
        cases hsearch with
        | missing =>
            rw [foundFor_missing hpath hexempt hbefore hfound, foundFor_missing hpath' hexempt hafter hfound']
            exact .refl _
        | unknown =>
            rw [foundFor_unknown hpath hexempt hbefore hfound, foundFor_unknown hpath' hexempt hafter hfound']
            exact .refl []
        | @found d d' m m' hd hm =>
            rw [foundFor_found_eq hpath hexempt hbefore hfound,
              foundFor_found_eq hpath' hexempt hafter hfound', h.accessible_eq hd]
            have hplace : MemberPlace.ofMember d' m' = MemberPlace.ofMember d m := by
              unfold MemberPlace.ofMember
              rw [hd.name, hm.name, hm.descriptor]
            cases husable : accessible env c d m.access with
            | true =>
                rw [accessible_of_widened hm.access husable]
                exact .refl []
            | false =>
                cases accessible env c d m'.access with
                | true => exact .cleared r c d m
                | false => exact .kept r c hplace

/-- If members of a class path become more visible, then of what is reported of the references of a class
only illegal uses may go, and none comes. The same members and classes are missing. -/
theorem eased_memberRefsLink (c : ClassDefinition) {s s' : Session} (hs : Faithful env s)
    (hs' : Faithful env' s') (hsame : s'.problems = s.problems) :
    Eased (Rules.memberRefsLink env c s).2.problems (Rules.memberRefsLink env' c s').2.problems :=
  .gathered (eased_foundFor hpath h c) hsame (problems_memberRefsLink hpath hs)
    (problems_memberRefsLink (h.reliable hpath) hs')

end References

/-! ## A class path with more visible members -/

/-- A class with three methods, of which the flags are given. -/
def guarded (first second third : UInt16) : ClassDefinition :=
  { classUnder "h/Safe" (some ClassName.root) [] with
    methods := [⟨"open", "()V", ⟨first⟩, false⟩, ⟨"lock", "()V", ⟨second⟩, false⟩,
      ⟨"hide", "()V", ⟨third⟩, false⟩] }

def guardedSetting (first second third : UInt16) : Setting :=
  settingOn [guarded first second third, classUnder ClassName.root none []]

/-- A class that uses all of them, and one that there is not. -/
def safeUser : ClassDefinition :=
  { classUnder "p/User" (some ClassName.root) [] with
    memberRefs := [⟨.method, "h/Safe", "open", "()V"⟩, ⟨.method, "h/Safe", "lock", "()V"⟩,
      ⟨.method, "h/Safe", "hide", "()V"⟩, ⟨.method, "h/Safe", "gone", "()V"⟩] }

/-- The private methods become public, private and public at once, and protected. -/
theorem reflagged_guarded :
    (guardedSetting 2 2 2).Reflagged AccessFlags.Widened (guardedSetting 1 0 4) := by
  have hpublic : AccessFlags.Widened ⟨2⟩ ⟨1⟩ := .tail (.single .makePublic) .dropPrivate
  have hpackage : AccessFlags.Widened ⟨2⟩ ⟨0⟩ := .single .dropPrivate
  have hprotected : AccessFlags.Widened ⟨2⟩ ⟨4⟩ := .tail (.single .makeProtected) .dropPrivate
  have hsafe : (guarded 2 2 2).Reflagged AccessFlags.Widened (guarded 1 0 4) :=
    ⟨rfl, .cons ⟨rfl, rfl, rfl, hpublic⟩ (.cons ⟨rfl, rfl, rfl, hpackage⟩
      (.cons ⟨rfl, rfl, rfl, hprotected⟩ .nil)), .nil⟩
  have hroot : (classUnder ClassName.root none []).Reflagged AccessFlags.Widened
      (classUnder ClassName.root none []) := ⟨rfl, .nil, .nil⟩
  exact ⟨.cons ⟨rfl, rfl, rfl, .cons hsafe (.cons hroot .nil)⟩ .nil, rfl⟩

/-- What is protected now may still not be used, and could not be before; what is not there is missing. -/
theorem eased_safeUser :
    (∃ level, .illegalMethodAccess ⟨"h/Safe", "hide", "()V"⟩ level (.inClass "p/User") ∈
      (Rules.memberRefsLink (guardedSetting 2 2 2) safeUser (.start (guardedSetting 2 2 2))).2.problems) ∧
    .methodNotFound ⟨"h/Safe", "gone", "()V"⟩ (.inClass "p/User") ∈
      (Rules.memberRefsLink (guardedSetting 2 2 2) safeUser (.start (guardedSetting 2 2 2))).2.problems := by
  have heased := eased_memberRefsLink (reliable_settingOn _) reflagged_guarded safeUser
    (faithful_start _) (faithful_start _) rfl
  exact ⟨heased.methods _ .subclasses _ (by decide +kernel), (heased.others _ rfl).mp (by decide +kernel)⟩

end Linkage

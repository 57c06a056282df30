import Linkage.Proofs.Hierarchy.DeclaredSupers
import Linkage.Proofs.Rule.MemberReferences
import Linkage.Rule.Members

/-!
# What the root is to classes that declare no superclass

A class that declares no superclass has the root for one, and the search for ancestors and walks follow
that. The search that tells subclasses and the rule about final methods follow declarations alone, and end
at such a class. So what lies above it counts for the one and not for the other.

* **`run_noFinalOverridden`**, **`mem_noFinalOverridden_iff`** — what the rule about final methods finds;
* **`Way`** — the way to a class on the chain of superclasses, past those that are nearer;
* **`ChainLaws`**, **`chainLaws`** — the class at the end of a way counts as a superclass, and the rule comes
  to it, exactly if every class on the way declares its superclass;
* **`bare_unrelated`** — a class that declares none is no subclass of the root.
-/

namespace Linkage

variable {env : Setting} {c x : ClassDefinition} {nearer : List ClassDefinition} {m f : Member}

/-! ## Final methods -/

/-- The method of an ancestor that is overridden by `m`, if the class sees it. -/
def overriddenIn (c : ClassDefinition) (m : Member) (ancestor : ClassDefinition) : Option Member :=
  (ancestor.findMethod m.name m.descriptor).filter (Rules.seesOverridden c ancestor)

/-- The nearest declaration that is overridden counts, and must not be final. -/
def FinalOverridden (c : ClassDefinition) (m : Member) (supers : List ClassDefinition) (p : Problem) :
    Prop :=
  ∃ x f, declaredIn (overriddenIn c m) supers = some (x, f) ∧ f.access.isFinal = true ∧
    p = .finalMethodOverridden (.ofMember x f) (.ofMember c m)

/-- What the rule comes to along a list of superclasses. -/
def finalFound (c : ClassDefinition) (m : Member) (supers : List ClassDefinition) : Option Problem :=
  (declaredIn (overriddenIn c m) supers).bind fun (x, f) =>
    if f.access.isFinal then some (.finalMethodOverridden (.ofMember x f) (.ofMember c m)) else none

theorem finalFound_eq_some_iff {supers : List ClassDefinition} {p : Problem} :
    finalFound c m supers = some p ↔ FinalOverridden c m supers p := by
  unfold finalFound FinalOverridden
  rw [Option.bind_eq_some_iff]
  constructor
  · rintro ⟨⟨x, f⟩, hdeclared, hfinal⟩
    obtain ⟨hfinal, hp⟩ := Option.ite_none_right_eq_some.mp hfinal
    exact ⟨x, f, hdeclared, hfinal, (Option.some.inj hp).symm⟩
  · rintro ⟨x, f, hdeclared, hfinal, rfl⟩
    exact ⟨(x, f), hdeclared, if_pos hfinal⟩

/-- The search passes ancestors that declare nothing that is seen, and ends at the first one that does. -/
theorem finalFound_cons {supers : List ClassDefinition} :
    finalFound c m (x :: supers) =
      match overriddenIn c m x with
      | some f =>
        if f.access.isFinal then some (.finalMethodOverridden (.ofMember x f) (.ofMember c m)) else none
      | none => finalFound c m supers := by
  unfold finalFound
  rw [declaredIn]
  cases overriddenIn c m x <;> rfl

section Problems

variable (hpath : env.classpath.Reliable)
include hpath

/-- The search adds what it comes to, and nothing else. -/
theorem run_overriddenIsOpen (c : ClassDefinition) (m : Member) (bound : Nat) (seen : List String)
    (next : Option String) {s : Session} (hs : Faithful env s) :
    (Rules.overriddenIsOpen env c m bound seen next s).2.problems =
        (finalFound c m (supersFrom env bound seen next)).elim s.problems (insertNew s.problems) ∧
      (Rules.overriddenIsOpen env c m bound seen next s).2.warnings = s.warnings := by
  induction bound generalizing seen next s with
  | zero => exact ⟨rfl, rfl⟩
  | succ bound ih =>
      cases next with
      | none => exact ⟨rfl, rfl⟩
      | some name =>
          unfold Rules.overriddenIsOpen supersFrom
          split
          · next hseen =>
              unfold followed
              rw [if_pos hseen]
              exact ⟨rfl, rfl⟩
          · next hseen =>
              rw [followed_new fun hmem => hseen (List.contains_iff_mem.mpr hmem)]
              obtain ⟨s', hs', hproblems, hwarnings, hrun⟩ :=
                (Yields.resolve hpath name).exists_bind hs
              rw [hrun, ← hproblems, ← hwarnings, List.filterMap_cons]
              cases hx : env.resolved name with
              | none =>
                  rw [Option.bind_none, followed_none]
                  exact ⟨rfl, rfl⟩
              | some x =>
                  have hrest := ih (name :: seen) x.super hs'
                  simp only [Option.bind_some]
                  rw [finalFound_cons]
                  unfold overriddenIn
                  -- what is declared and seen ends the search
                  cases x.findMethod m.name m.descriptor with
                  | none => exact hrest
                  | some f =>
                      simp only [Option.filter_some]
                      cases Rules.seesOverridden c x f with
                      | false => exact hrest
                      | true =>
                          simp only [if_true]
                          cases f.access.isFinal <;> exact ⟨rfl, rfl⟩

/-- Of a method that may override others the rule reports the nearest declaration above that it
overrides, if that is final. -/
theorem run_noFinalOverridden
    (hm : (m.isConstructor || m.isStaticInitializer || m.access.isStatic || m.access.isPrivate) = false)
    {s : Session} (hs : Faithful env s) :
    (Rules.noFinalOverridden env c m s).2.problems =
        (finalFound c m (supersFrom env (env.classpath.size + 2) [] c.super)).elim s.problems
          (insertNew s.problems) ∧
      (Rules.noFinalOverridden env c m s).2.warnings = s.warnings := by
  unfold Rules.noFinalOverridden
  rw [hm]
  exact run_overriddenIsOpen hpath c m _ [] c.super hs

theorem mem_noFinalOverridden_iff
    (hm : (m.isConstructor || m.isStaticInitializer || m.access.isStatic || m.access.isPrivate) = false)
    {s : Session} (hs : Faithful env s) (p : Problem) :
    p ∈ (Rules.noFinalOverridden env c m s).2.problems ↔
      p ∈ s.problems ∨ FinalOverridden c m (supersFrom env (env.classpath.size + 2) [] c.super) p := by
  rw [(run_noFinalOverridden hpath hm hs).1, ← finalFound_eq_some_iff]
  cases finalFound c m (supersFrom env (env.classpath.size + 2) [] c.super) with
  | none => simp
  | some q =>
      show p ∈ insertNew s.problems q ↔ _
      rw [mem_insertNew, Option.some.injEq, eq_comm]

end Problems

/-! ## Ways along the chain -/

/-- The way from a class to one on its chain of superclasses, past the classes `nearer`. It comes to no
class twice. -/
structure Way (env : Setting) (c : ClassDefinition) (nearer : List ClassDefinition)
    (x : ClassDefinition) : Prop where
  ascent : Ascent env ClassDefinition.parent? c nearer x
  once : (nearer ++ [x]).Nodup

theorem exists_way_iff : (∃ nearer, Way env c nearer x) ↔ IsAbove env c x := by
  constructor
  · rintro ⟨nearer, h⟩
    exact ⟨nearer, h.ascent⟩
  · rintro ⟨nearer, h⟩
    obtain ⟨nearer', hway, honce, -⟩ := h.exists_once
    exact ⟨nearer', hway, honce⟩

/-- Every class on the way declares its superclass. -/
def DeclaredWay (c : ClassDefinition) (nearer : List ClassDefinition) : Prop :=
  ∀ d ∈ c :: nearer, d.super ≠ none

/-- No class on the way has a superclass that is named as an array. -/
def PlainWay (c : ClassDefinition) (nearer : List ClassDefinition) : Prop :=
  ∀ d ∈ c :: nearer, ∀ n, d.parent? = some n → IsPlain n

section Ways

theorem exists_of_not_declaredWay (h : ¬ DeclaredWay c nearer) : ∃ d ∈ c :: nearer, d.super = none := by
  unfold DeclaredWay at h
  push Not at h
  exact h

variable (h : Way env c nearer x)
include h

/-- The class at the end of a plain way goes by its own name. -/
theorem Way.last_named (hplain : PlainWay c nearer) :
    ∃ d ∈ c :: nearer, d.parent? = some x.name ∧ env.resolved x.name = some x := by
  obtain ⟨d, hd, n, hn, hx⟩ := h.ascent.exists_last
  rw [resolved_of_plain (hplain d hd n hn)] at hx
  obtain rfl : x.name = n := Classpath.name_of_definition? hx
  exact ⟨d, hd, hn, (resolved_of_plain (hplain d hd _ hn)).trans hx⟩

/-- A way that is declared all along is followed to its end. -/
theorem Way.followed_eq (hdeclared : DeclaredWay c nearer) :
    (∀ d ∈ c :: nearer, ∀ n, d.super = some n → n ∈ supersNamed env c.super) ∧
      ∃ rest, supersFrom env (env.classpath.size + 2) [] c.super = nearer ++ x :: rest :=
  (h.ascent.declared hdeclared).followed_eq _ _ h.once nofun
    (Nat.lt_of_lt_of_le (h.ascent.length_lt_size h.once) (Nat.le_add_right ..))

/-- Of a plain way the end is named among the superclasses exactly if the way is declared all along. -/
theorem Way.mem_supersNamed_iff (hplain : PlainWay c nearer) :
    x.name ∈ supersNamed env c.super ↔ DeclaredWay c nearer := by
  obtain ⟨d, hd, hlast, hx⟩ := h.last_named hplain
  constructor
  · intro hmem
    by_contra hnot
    -- then the end of the way would be one of the classes before it
    have hcut := h.ascent.followed_cut (env.classpath.size + 2) []
      (exists_of_not_declaredWay hnot)
    have hx : x ∈ nearer := hcut.subset (List.mem_filterMap.mpr ⟨x.name, hmem, hx⟩)
    exact (List.nodup_append.mp h.once).2.2 x hx x (List.mem_singleton_self x) rfl
  · intro hdeclared
    exact (h.followed_eq hdeclared).1 d hd x.name (super_of_parent? hlast (hdeclared d hd))

theorem Way.isBelow_iff (hplain : PlainWay c nearer) :
    IsBelow env c x.name ↔ DeclaredWay c nearer ∨ x.name ∈ supersNamed env (aroundSuper env c) :=
  or_congr_left (h.mem_supersNamed_iff hplain)

end Ways

/-! ## What counts as a superclass -/

/-- An instance method of a class repeats a final method that its ancestor lets it inherit, and no nearer
superclass declares one that is seen. -/
structure RepeatsFinal (c : ClassDefinition) (nearer : List ClassDefinition) (x : ClassDefinition)
    (m f : Member) : Prop where
  overrides :
    (m.isConstructor || m.isStaticInitializer || m.access.isStatic || m.access.isPrivate) = false
  declared : x.findMethod m.name m.descriptor = some f
  final : f.access.isFinal = true
  visible : f.access.isPublic = true ∨ f.access.isProtected = true
  inherited : f.access.isPrivate = false ∧ f.access.isStatic = false
  nearest : ∀ d ∈ nearer, ∀ g, d.findMethod m.name m.descriptor = some g →
    Rules.seesOverridden c d g = false

theorem RepeatsFinal.overriddenIn_eq (h : RepeatsFinal c nearer x m f) : overriddenIn c m x = some f := by
  have hsees : Rules.seesOverridden c x f = true := by
    unfold Rules.seesOverridden
    rw [h.inherited.1, h.inherited.2]
    rcases h.visible with hvisible | hvisible <;> simp [hvisible]
  unfold overriddenIn
  rw [h.declared, Option.filter_some, hsees]
  rfl

theorem RepeatsFinal.overriddenIn_nearer (h : RepeatsFinal c nearer x m f) {d : ClassDefinition}
    (hd : d ∈ nearer) : overriddenIn c m d = none := by
  unfold overriddenIn
  cases hfound : d.findMethod m.name m.descriptor with
  | none => rfl
  | some g =>
      rw [Option.filter_some, h.nearest d hd g hfound]
      rfl

/-- What holds of the class at the end of a way. -/
structure ChainLaws (env : Setting) (c : ClassDefinition) (nearer : List ClassDefinition)
    (x : ClassDefinition) : Prop where
  /-- The class is a subclass if the way is declared all along. Else it may be one like the class around
  it. -/
  subclass : PlainWay c nearer → ∀ s, Faithful env s → ((isSubclassOf env c x.name s).1 = true ↔
    DeclaredWay c nearer ∨ x.name ∈ supersNamed env (aroundSuper env c))
  /-- So it may use protected members then, or for one of the reasons that need no subclass. -/
  usable : PlainWay c nearer → ∀ access : AccessFlags, access.isProtected = true →
    access.isPrivate = false → ∀ s, Faithful env s → ((isAccessible env c x access s).1 = true ↔
      (access.isPublic = true ∨ c.name = x.name ∨
        ClassName.package c.name = ClassName.package x.name) ∨
      DeclaredWay c nearer ∨ x.name ∈ supersNamed env (aroundSuper env c))
  /-- A final method is examined if the way is declared all along. -/
  examined : ∀ m f, RepeatsFinal c nearer x m f → ∀ s, Faithful env s →
    (.finalMethodOverridden (.ofMember x f) (.ofMember c m) ∈
      (Rules.noFinalOverridden env c m s).2.problems ↔
        .finalMethodOverridden (.ofMember x f) (.ofMember c m) ∈ s.problems ∨ DeclaredWay c nearer)

/-- On the way to a final method that is repeated there is nothing else to report. -/
theorem Way.finalOverridden_iff (h : Way env c nearer x) (hrepeats : RepeatsFinal c nearer x m f) :
    FinalOverridden c m (supersFrom env (env.classpath.size + 2) [] c.super)
      (.finalMethodOverridden (.ofMember x f) (.ofMember c m)) ↔ DeclaredWay c nearer := by
  constructor
  · rintro ⟨y, g, hdeclared, -⟩
    by_contra hnot
    have hcut := h.ascent.followed_cut (env.classpath.size + 2) []
      (exists_of_not_declaredWay hnot)
    obtain ⟨hy, hg⟩ := declaredIn_eq_some hdeclared
    rw [hrepeats.overriddenIn_nearer (hcut.subset hy)] at hg
    cases hg
  · intro hdeclared
    obtain ⟨-, rest, hsupers⟩ := h.followed_eq hdeclared
    refine ⟨x, f, ?_, hrepeats.final, rfl⟩
    have hnearer : nearer.findSome? (fun d => (overriddenIn c m d).map fun g => (d, g)) = none := by
      rw [List.findSome?_eq_none_iff]
      intro d hd
      rw [hrepeats.overriddenIn_nearer hd]
      rfl
    rw [hsupers, declaredIn_eq_findSome?, List.findSome?_append, hnearer, Option.none_or,
      List.findSome?_cons, hrepeats.overriddenIn_eq]
    rfl

/-- The classes on the chain that ancestries and walks follow are those to which there is a way. Each of
them counts as a superclass, and has its final methods examined, exactly if every class on the way
declares its superclass. -/
theorem chainLaws (hpath : env.classpath.Reliable) (c : ClassDefinition) :
    (∀ x, Relation.TransGen (ParentOf env false) c x ↔ ∃ nearer, Way env c nearer x) ∧
    (∀ x bound, x ∈ (Climb.chained env bound c.parent? (Climb.start c)).found →
      ∃ nearer, Way env c nearer x) ∧
    ∀ nearer x, Way env c nearer x → ChainLaws env c nearer x := by
  refine ⟨fun x => isAbove_iff_walk.symm.trans exists_way_iff.symm,
    fun x bound hx => exists_way_iff.mpr (isAbove_of_chained hx), ?_⟩
  intro nearer x h
  refine ⟨?_, ?_, ?_⟩
  · intro hplain s hs
    rw [(yields_isSubclassOf hpath c x.name).value hs, decide_eq_true_iff]
    exact h.isBelow_iff hplain
  · intro hplain access hprotected hprivate s hs
    rw [(yields_isAccessible hpath c x access).value hs, ← h.isBelow_iff hplain]
    unfold accessible
    rw [hprotected, hprivate]
    by_cases hopen : access.isPublic = true ∨ c.name = x.name
    · rcases hopen with hopen | hopen <;> simp [hopen]
    · obtain ⟨hpublic, hname⟩ := not_or.mp hopen
      simp [hpublic, hname]
  · intro m f hrepeats s hs
    rw [mem_noFinalOverridden_iff hpath hrepeats.overrides hs, h.finalOverridden_iff hrepeats]

/-! ## Classes that declare no superclass -/

/-- The root of the hierarchy, with a method that subclasses may use and one that nobody may override. -/
def objectClass : ClassDefinition :=
  { classUnder ClassName.root none [] with
    methods := [⟨"clone", "()V", ⟨4⟩, false⟩, ⟨"wait", "()V", ⟨17⟩, false⟩] }

/-- A class that declares no superclass. -/
def bareBase : ClassDefinition :=
  { classUnder "h/Base" none [] with methods := [⟨"close", "()V", ⟨20⟩, false⟩] }

/-- A class that extends it. It uses a method of the root, and overrides two final ones. -/
def bareHeir : ClassDefinition :=
  { classUnder "p/Heir" (some "h/Base") [] with
    methods := [⟨"close", "()V", ⟨1⟩, false⟩, ⟨"wait", "()V", ⟨1⟩, false⟩]
    memberRefs := [⟨.method, ClassName.root, "clone", "()V"⟩] }

def bareSetting : Setting := settingOn [bareHeir, bareBase, objectClass]

theorem way_bareBase : Way bareSetting bareHeir [] bareBase :=
  ⟨.last (n := "h/Base") rfl (by decide), List.nodup_singleton _⟩

theorem way_objectClass : Way bareSetting bareHeir [bareBase] objectClass :=
  ⟨.next (n := "h/Base") rfl (by decide) (.last (n := ClassName.root) rfl (by decide)), by decide⟩

/-- The class is a subclass of the one that it declares, but not of the root above that. -/
theorem chainLaws_bareHeir :
    bareSetting.classpath.Reliable ∧
    (isSubclassOf bareSetting bareHeir "h/Base" (.start bareSetting)).1 = true ∧
    (.finalMethodOverridden ⟨"h/Base", "close", "()V"⟩ ⟨"p/Heir", "close", "()V"⟩ ∈
      (Rules.noFinalOverridden bareSetting bareHeir ⟨"close", "()V", ⟨1⟩, false⟩
        (.start bareSetting)).2.problems) ∧
    (isSubclassOf bareSetting bareHeir ClassName.root (.start bareSetting)).1 ≠ true := by
  have hpath : bareSetting.classpath.Reliable := reliable_settingOn _
  have hlaws := (chainLaws hpath bareHeir).2.2
  have hplain : ∀ nearer, (∀ d ∈ bareHeir :: nearer, d.parent?.all fun n => ClassName.element? n = some n) →
      PlainWay bareHeir nearer := by
    intro nearer hall d hd n hn
    have hd := hall d hd
    rw [hn] at hd
    exact (decide_eq_true_iff (p := ClassName.element? n = some n)).mp hd
  refine ⟨hpath, ?_, ?_, ?_⟩
  · refine ((hlaws [] bareBase way_bareBase).subclass (hplain _ (by decide)) _
      (faithful_start _)).mpr (Or.inl ?_)
    unfold DeclaredWay
    decide
  · refine ((hlaws [] bareBase way_bareBase).examined ⟨"close", "()V", ⟨1⟩, false⟩
      ⟨"close", "()V", ⟨20⟩, false⟩ ?_ _ (faithful_start _)).mpr (Or.inr ?_)
    · exact ⟨by decide, by decide, by decide, by decide, by decide, nofun⟩
    · unfold DeclaredWay
      decide
  · have hsubclass := (hlaws [bareBase] objectClass way_objectClass).subclass (hplain _ (by decide)) _
      (faithful_start _)
    refine hsubclass.not.mpr ?_
    unfold DeclaredWay
    decide +kernel

/-- The root is above a class that declares no superclass, and yet the class is none of its subclasses: it
may not use what subclasses may, and may override what nobody may. -/
theorem bare_unrelated :
    IsAbove bareSetting bareBase objectClass ∧
    (isSubclassOf bareSetting bareBase ClassName.root (.start bareSetting)).1 = false ∧
    (isAccessible bareSetting bareBase objectClass ⟨4⟩ (.start bareSetting)).1 = false ∧
    (Rules.memberRefsLink bareSetting bareHeir (.start bareSetting)).2.problems =
      [.illegalMethodAccess ⟨ClassName.root, "clone", "()V"⟩ .subclasses (.inClass "p/Heir")] ∧
    (Rules.noFinalOverridden bareSetting bareHeir ⟨"wait", "()V", ⟨1⟩, false⟩
      (.start bareSetting)).2.problems = [] := by
  have habove : IsAbove bareSetting bareBase objectClass :=
    ⟨[], .last (n := ClassName.root) rfl (by decide)⟩
  exact ⟨habove, by decide +kernel⟩

end Linkage

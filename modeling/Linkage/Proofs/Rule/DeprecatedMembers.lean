import Linkage.Proofs.Hierarchy.Members
import Linkage.Proofs.Hierarchy.Walks
import Linkage.Proofs.Rule.MemberReferences
import Linkage.Rule.Deprecation

/-!
# Uses of deprecated members

A member may be deprecated itself or through the class that declares it. That class need not be the owner by
which the member is referred to: a reference to a class of the plugin may find a member of the host, and one
to an array of a plugin class, or to a host class below one, may find a member of the plugin.

Whose member it is is a matter of the class that declares it. The rule goes by the name of the owner.

* **`DeprecatedUse`**, **`mem_deprecatedUsages_iff`** — what is warned of;
* **`GoesByDeclaring`** — warnings go by the classes that declare the members;
* **`OwnersTell`**, **`goesByDeclaring_iff`** — they do so exactly if the owners come to the same;
* **`not_goesByDeclaring_indirect`** — a member that is inherited from the host, and one of an array.
-/

namespace Linkage

/-- The text by which a warning names a member. -/
def MemberKind.api (kind : MemberKind) (place : MemberPlace) : String :=
  match kind with
  | .field => "field " ++ place.asField
  | .method | .interfaceMethod => "method " ++ place.asMethod

/-- The warning that a class uses something deprecated. -/
def usage (c : ClassDefinition) (api : String) : Warning := .deprecatedApiUsage api (.inClass c.name)

namespace MemberRef

/-- The search for the member of an owner. -/
def search (env : Setting) (r : MemberRef) (owner : ClassDefinition) : Check MemberSearch :=
  match r.kind with
  | .field => findField env owner r.name r.descriptor
  | .method | .interfaceMethod => findMethod env owner r.name r.descriptor

/-- The reference finds the member `m` of the class `d`. -/
def Finds (env : Setting) (r : MemberRef) (d : ClassDefinition) (m : Member) : Prop :=
  ∃ owner, env.resolved r.owner = some owner ∧ (r.search env owner (.start env)).1 = .found d m

/-- What is done with the outcome of a search. -/
def noticed (c : ClassDefinition) (r : MemberRef) : MemberSearch → Check Unit
  | .found d m =>
    if m.deprecated || d.deprecated then Check.warning (usage c (r.kind.api (.ofMember d m)))
    else pure ()
  | _ => pure ()

/-- Fields and methods go through the same check. -/
theorem deprecatedMember_eq (env : Setting) (c : ClassDefinition) (r : MemberRef) :
    Rules.deprecatedMember env c r =
      if env.isPluginClass r.owner then pure ()
      else resolve env r.owner >>= fun
        | none => pure ()
        | some owner => r.search env owner >>= r.noticed c := by
  obtain ⟨kind, owner, name, descriptor⟩ := r
  unfold Rules.deprecatedMember
  congr 1
  congr 1
  funext found
  cases found with
  | none => rfl
  | some owner =>
      -- the search and what is said of its outcome go by the kind
      cases kind
      all_goals
        refine congrArg (Bind.bind _) (funext ?_)
        rintro (⟨d, m⟩ | _ | _)
        · rfl
        · rfl
        · rfl

theorem search_eq (env : Setting) (r : MemberRef) (owner : ClassDefinition) :
    r.search env owner = searchMember env owner r.declaredBy := by
  obtain ⟨kind, name, owner, descriptor⟩ := r
  cases kind with
  | field => rfl
  | method => rfl
  | interfaceMethod => rfl

end MemberRef

/-- A class refers to a member that is deprecated itself or through the class that declares it. -/
structure DeprecatedUse (env : Setting) (c : ClassDefinition) (r : MemberRef) (d : ClassDefinition)
    (m : Member) : Prop where
  used : r ∈ c.memberRefs
  finds : r.Finds env d m
  deprecated : m.deprecated = true ∨ d.deprecated = true

/-- What a reference is warned of depends on what it finds. -/
theorem mem_noticed_iff {c : ClassDefinition} {r : MemberRef} {w : Warning} {s : Session}
    (hs : s.warnings = []) (search : MemberSearch) :
    w ∈ (r.noticed c search s).2.warnings ↔ ∃ d m, search = .found d m ∧
      (m.deprecated = true ∨ d.deprecated = true) ∧ w = usage c (r.kind.api (.ofMember d m)) := by
  have hsilent : w ∈ s.warnings ↔ False := by simp [hs]
  cases search with
  | found d m =>
      show w ∈ ((if (m.deprecated || d.deprecated) = true then _ else _ : Check Unit) s).2.warnings ↔ _
      split
      · next hdeprecated =>
          rw [Bool.or_eq_true] at hdeprecated
          show w ∈ insertNew s.warnings _ ↔ _
          rw [mem_insertNew, hsilent, false_or]
          constructor
          · exact fun hw => ⟨d, m, rfl, hdeprecated, hw⟩
          · rintro ⟨_, _, heq, -, hw⟩
            cases heq
            exact hw
      · next hcurrent =>
          rw [Bool.or_eq_true] at hcurrent
          refine iff_of_false hsilent.mp ?_
          rintro ⟨_, _, heq, hdeprecated, -⟩
          cases heq
          exact hcurrent hdeprecated
  | missing =>
      refine iff_of_false hsilent.mp ?_
      rintro ⟨d, m, heq, -⟩
      cases heq
  | unknown =>
      refine iff_of_false hsilent.mp ?_
      rintro ⟨d, m, heq, -⟩
      cases heq

section Warnings

variable {env : Setting} (hpath : env.classpath.Reliable)
include hpath

theorem yields_search (r : MemberRef) (owner : ClassDefinition) :
    Yields env (r.search env owner) (r.search env owner (.start env)).1 := by
  have hyields := yields_searchMember hpath owner r.declaredBy
  rw [← MemberRef.search_eq] at hyields
  rw [hyields.value (faithful_start env)]
  exact hyields

/-- What a reference is warned of by itself. -/
theorem mem_deprecatedMember_iff (c : ClassDefinition) (r : MemberRef) (w : Warning) :
    w ∈ (Rules.deprecatedMember env c r (.start env)).2.warnings ↔
      env.isPluginClass r.owner = false ∧ ∃ d m, r.Finds env d m ∧
        (m.deprecated = true ∨ d.deprecated = true) ∧ w = usage c (r.kind.api (.ofMember d m)) := by
  rw [MemberRef.deprecatedMember_eq]
  cases env.isPluginClass r.owner with
  | true => exact iff_of_false List.not_mem_nil fun h => nomatch h.1
  | false =>
      obtain ⟨s, hs, -, hwarnings, hbind⟩ :=
        (Yields.resolve hpath r.owner).exists_bind (faithful_start env)
      rw [if_neg Bool.false_ne_true, and_iff_right rfl, hbind]
      cases howner : env.resolved r.owner with
      | none =>
          show w ∈ s.warnings ↔ _
          rw [hwarnings]
          refine iff_of_false List.not_mem_nil ?_
          rintro ⟨d, m, ⟨owner, hresolved, -⟩, -⟩
          rw [howner] at hresolved
          cases hresolved
      | some owner =>
          obtain ⟨s', -, -, hwarnings', hbind'⟩ := (yields_search hpath r owner).exists_bind hs
          have hfinds : ∀ d m, r.Finds env d m ↔
              (r.search env owner (.start env)).1 = .found d m := by
            intro d m
            unfold MemberRef.Finds
            simp [howner]
          show w ∈ ((r.search env owner >>= r.noticed c) s).2.warnings ↔ _
          rw [hbind']
          simp only [hfinds]
          exact mem_noticed_iff (hwarnings'.trans hwarnings) _

/-- What a parent is warned of by itself. -/
theorem mem_deprecatedParent_iff (c : ClassDefinition) (parent : String) (w : Warning) :
    w ∈ (Rules.deprecatedParent env c parent (.start env)).2.warnings ↔
      env.isPluginClass parent = false ∧ ∃ d, env.resolved parent = some d ∧ d.deprecated = true ∧
        w = usage c ("class " ++ ClassName.dotted parent) := by
  unfold Rules.deprecatedParent
  cases env.isPluginClass parent with
  | true => exact iff_of_false List.not_mem_nil fun h => nomatch h.1
  | false =>
      obtain ⟨s, -, -, hwarnings, hbind⟩ :=
        (Yields.resolve hpath parent).exists_bind (faithful_start env)
      rw [if_neg Bool.false_ne_true, and_iff_right rfl, hbind]
      have hsilent : w ∈ s.warnings ↔ False := by simp [hwarnings, Session.start]
      cases env.resolved parent with
      | none =>
          refine iff_of_false hsilent.mp ?_
          rintro ⟨d, hresolved, -⟩
          cases hresolved
      | some d =>
          simp only [Option.some.injEq, exists_eq_left']
          split
          · next hdeprecated =>
              show w ∈ insertNew s.warnings _ ↔ _
              rw [mem_insertNew, hsilent, false_or, and_iff_right hdeprecated]
              rfl
          · next hcurrent => exact iff_of_false hsilent.mp fun h => hcurrent h.1

/-- The rule warns of parents, and of members by the names of their owners. -/
theorem mem_deprecatedUsages_iff (c : ClassDefinition) {s : Session} (hs : Faithful env s)
    (w : Warning) : w ∈ (Rules.deprecatedUsages env c s).2.warnings ↔ w ∈ s.warnings ∨
      (∃ parent ∈ c.super.toList ++ c.interfaces, env.isPluginClass parent = false ∧
        ∃ d, env.resolved parent = some d ∧ d.deprecated = true ∧
          w = usage c ("class " ++ ClassName.dotted parent)) ∨
      ∃ r d m, DeprecatedUse env c r d m ∧ env.isPluginClass r.owner = false ∧
        w = usage c (r.kind.api (.ofMember d m)) := by
  have hregular : Regular env
      (Check.each (c.super.toList ++ c.interfaces) (Rules.deprecatedParent env c)) :=
    .each (Regular.deprecatedParent c)
  obtain ⟨-, hfaithful, -⟩ := hregular.faithful hpath hs
  obtain ⟨-, hparents⟩ := Regular.finds_each hpath (Regular.deprecatedParent c) hs
  obtain ⟨-, hmembers⟩ := Regular.finds_each hpath (Regular.deprecatedMember c) hfaithful
  show w ∈ (Check.each c.memberRefs (Rules.deprecatedMember env c)
    (Check.each (c.super.toList ++ c.interfaces) (Rules.deprecatedParent env c) s).2).2.warnings ↔ _
  rw [hmembers, hparents, or_assoc]
  simp only [mem_deprecatedParent_iff hpath, mem_deprecatedMember_iff hpath]
  refine or_congr_right (or_congr_right ?_)
  constructor
  · rintro ⟨r, hr, hown, d, m, hfinds, hdeprecated, hw⟩
    exact ⟨r, d, m, ⟨hr, hfinds, hdeprecated⟩, hown, hw⟩
  · rintro ⟨r, d, m, huse, hown, hw⟩
    exact ⟨r, huse.used, hown, d, m, huse.finds, huse.deprecated, hw⟩

end Warnings

/-- A member is never named like a class. -/
theorem api_ne_class (kind : MemberKind) (place : MemberPlace) (name : String) :
    kind.api place ≠ "class " ++ name := by
  intro h
  have hhead := congrArg (fun text => text.toList.head?) h
  cases kind with
  | field => simp [MemberKind.api] at hhead
  | method => simp [MemberKind.api] at hhead
  | interfaceMethod => simp [MemberKind.api] at hhead

/-- A deprecated member of that name is used through an owner that is not of the plugin. -/
def ThroughOthers (env : Setting) (c : ClassDefinition) (api : String) : Prop :=
  ∃ r d m, DeprecatedUse env c r d m ∧ env.isPluginClass r.owner = false ∧
    r.kind.api (.ofMember d m) = api

/-- A deprecated member of that name is used that is not declared by a class of the plugin. -/
def OfOthers (env : Setting) (c : ClassDefinition) (api : String) : Prop :=
  ∃ r d m, DeprecatedUse env c r d m ∧ env.isPluginClass d.name = false ∧
    r.kind.api (.ofMember d m) = api

/-- Of members a class is warned by the names of their owners. -/
theorem usage_mem_deprecatedUsages_iff {env : Setting} (hpath : env.classpath.Reliable)
    (c : ClassDefinition) {s : Session} (hs : Faithful env s) (kind : MemberKind) (place : MemberPlace) :
    usage c (kind.api place) ∈ (Rules.deprecatedUsages env c s).2.warnings ↔
      usage c (kind.api place) ∈ s.warnings ∨ ThroughOthers env c (kind.api place) := by
  have hsame : ∀ api, usage c (kind.api place) = usage c api ↔ api = kind.api place := by
    intro api
    unfold usage
    simp [eq_comm]
  have hparent : ∀ name, ¬ "class " ++ name = kind.api place :=
    fun name h => api_ne_class kind place name h.symm
  rw [mem_deprecatedUsages_iff hpath c hs]
  simp only [hsame, hparent, and_false, exists_false, false_or]
  exact Iff.rfl

/-- A class is warned of a member exactly if it uses it, and it is deprecated and not declared by a class of
the plugin. -/
def GoesByDeclaring (env : Setting) (c : ClassDefinition) : Prop :=
  ∀ s, Faithful env s → ∀ (kind : MemberKind) (place : MemberPlace),
    (usage c (kind.api place) ∈ (Rules.deprecatedUsages env c s).2.warnings ↔
      usage c (kind.api place) ∈ s.warnings ∨ OfOthers env c (kind.api place))

/-- The names of the owners tell whether the deprecated members that are used are of the plugin. -/
structure OwnersTell (env : Setting) (c : ClassDefinition) : Prop where
  /-- What is not of the plugin is used through an owner that is not of the plugin either. -/
  others : ∀ r d m, DeprecatedUse env c r d m → env.isPluginClass d.name = false →
    ThroughOthers env c (r.kind.api (.ofMember d m))
  /-- What is used through such an owner is not of the plugin. -/
  own : ∀ r d m, DeprecatedUse env c r d m → env.isPluginClass r.owner = false →
    OfOthers env c (r.kind.api (.ofMember d m))

/-- The names of the owners tell it if each owner and the class that declares the member belong to the same
side. -/
theorem ownersTell_of_same {env : Setting} {c : ClassDefinition}
    (h : ∀ r d m, DeprecatedUse env c r d m → env.isPluginClass r.owner = env.isPluginClass d.name) :
    OwnersTell env c where
  others r d m huse hd := ⟨r, d, m, huse, (h r d m huse).trans hd, rfl⟩
  own r d m huse hr := ⟨r, d, m, huse, (h r d m huse).symm.trans hr, rfl⟩

/-- A class is warned of the deprecated members that it uses through owners that are not of the plugin.
These are those that are not of the plugin exactly if the names of the owners tell. -/
theorem goesByDeclaring_iff {env : Setting} (hpath : env.classpath.Reliable) (c : ClassDefinition) :
    (∀ s, Faithful env s → ∀ (kind : MemberKind) (place : MemberPlace),
      (usage c (kind.api place) ∈ (Rules.deprecatedUsages env c s).2.warnings ↔
        usage c (kind.api place) ∈ s.warnings ∨ ThroughOthers env c (kind.api place))) ∧
    (GoesByDeclaring env c ↔ OwnersTell env c) := by
  refine ⟨fun s hs => usage_mem_deprecatedUsages_iff hpath c hs, ?_, ?_⟩
  · intro h
    -- in a fresh session there is nothing but what either way of telling brings
    have hfresh : ∀ (kind : MemberKind) (place : MemberPlace),
        ThroughOthers env c (kind.api place) ↔ OfOthers env c (kind.api place) := by
      intro kind place
      have hthrough := usage_mem_deprecatedUsages_iff hpath c (faithful_start env) kind place
      have hof := h _ (faithful_start env) kind place
      have hnone : usage c (kind.api place) ∉ (Session.start env).warnings := List.not_mem_nil
      rwa [hthrough, or_iff_right hnone, or_iff_right hnone] at hof
    refine ⟨?_, ?_⟩
    · exact fun r d m huse hd => (hfresh _ _).mpr ⟨r, d, m, huse, hd, rfl⟩
    · exact fun r d m huse hr => (hfresh _ _).mp ⟨r, d, m, huse, hr, rfl⟩
  · intro h s hs kind place
    rw [usage_mem_deprecatedUsages_iff hpath c hs]
    refine or_congr_right ⟨?_, ?_⟩
    · rintro ⟨r, d, m, huse, hr, hapi⟩
      exact hapi ▸ h.own r d m huse hr
    · rintro ⟨r, d, m, huse, hd, hapi⟩
      exact hapi ▸ h.others r d m huse hd

/-- A plugin of these classes beside other classes. -/
def besidePlugin (own others : List ClassDefinition) : Setting :=
  { settingOn (own ++ others) with pluginClasses := some ⟨"plugin", own⟩ }

/-- A class with a deprecated method. -/
def agedBase : ClassDefinition :=
  { classUnder "h/Base" (some ClassName.root) [] with methods := [⟨"old", "()V", ⟨1⟩, true⟩] }

/-- A class of a plugin below it. -/
def agedSub : ClassDefinition := classUnder "p/Sub" (some "h/Base") []

/-- A deprecated class of the plugin. -/
def agedOwn : ClassDefinition :=
  { classUnder "p/Old" (some ClassName.root) [] with
    methods := [⟨"clone", "()Ljava/lang/Object;", ⟨1⟩, false⟩]
    deprecated := true }

/-- The plugin beside the class of the host. -/
def aged : Setting := besidePlugin [agedSub, agedOwn] [agedBase, classUnder ClassName.root none []]

/-- A class that uses two deprecated methods, each through the class that declares it. -/
def directUser : ClassDefinition :=
  { classUnder "p/User" (some ClassName.root) [] with
    memberRefs := [⟨.method, "h/Base", "old", "()V"⟩,
      ⟨.method, "p/Old", "clone", "()Ljava/lang/Object;"⟩] }

/-- It is warned of the one of the host. -/
theorem goesByDeclaring_direct : GoesByDeclaring aged directUser := by
  have hpath : aged.classpath.Reliable := reliable_settingOn _
  refine (goesByDeclaring_iff hpath directUser).2.mpr (ownersTell_of_same ?_)
  rintro r d m ⟨hused, ⟨owner, howner, hsearch⟩, -⟩
  rcases List.mem_cons.mp hused with rfl | hused
  · have hbase : aged.resolved "h/Base" = some agedBase := rfl
    obtain rfl := Option.some.inj (hbase.symm.trans howner)
    cases hsearch
    rfl
  · obtain rfl := List.mem_singleton.mp hused
    have hown : aged.resolved "p/Old" = some agedOwn := rfl
    obtain rfl := Option.some.inj (hown.symm.trans howner)
    cases hsearch
    rfl

/-- A class that uses the same methods through a class of the plugin and through an array. -/
def indirectUser : ClassDefinition :=
  { classUnder "p/User" (some ClassName.root) [] with
    memberRefs := [⟨.method, "p/Sub", "old", "()V"⟩,
      ⟨.method, "[Lp/Old;", "clone", "()Ljava/lang/Object;"⟩] }

/-- It is not warned of the one of the host, but of the one of the plugin. -/
theorem not_goesByDeclaring_indirect :
    (Rules.deprecatedUsages aged indirectUser (.start aged)).2.warnings =
      [usage indirectUser "method p.Old.clone()Ljava/lang/Object;"] ∧
    ¬ GoesByDeclaring aged indirectUser := by
  have hwarnings : (Rules.deprecatedUsages aged indirectUser (.start aged)).2.warnings =
      [usage indirectUser "method p.Old.clone()Ljava/lang/Object;"] := by decide +kernel
  refine ⟨hwarnings, ?_⟩
  intro h
  have hbase := (h _ (faithful_start _) .method ⟨"h/Base", "old", "()V"⟩).mpr (Or.inr
    ⟨⟨.method, "p/Sub", "old", "()V"⟩, agedBase, _, ⟨List.mem_cons_self, ⟨agedSub, rfl, rfl⟩, Or.inl rfl⟩,
      rfl, rfl⟩)
  rw [hwarnings] at hbase
  exact absurd hbase (by decide)

end Linkage

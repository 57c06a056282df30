import Linkage.Proofs.Hierarchy.Closure
import Mathlib.Data.List.Basic

/-!
# What thorough visitors find

Walks with a visitor that never wants them to end, from some of the classes of a class path, find what
the visitor finds in each class that is reached by itself, and the parents that are missing. It does
not matter that the walks share what they have visited.

* **`IsParent`**, **`Reached`** — the classes that can be reached from others;
* **`separate_of_namedPlainly`** — when names tell them apart;
* **`Thorough`**, **`Plays.finds`** — what is found in a sequence of events;
* **`Walked`**, **`Walked.walk`** — what has come of walks, which every further walk extends.

Names that a walker has visited are compared with the names of parents before these are resolved. So
a parent that is given as an array must not have the very name of a class that is reached.
-/

namespace Linkage

/-! ## Parents -/

/-- The names of the parents of a class. -/
def ClassDefinition.parentNames (c : ClassDefinition) : List String :=
  c.parent?.toList ++ c.interfaces

/-- A class is a parent of another one: a name of a parent stands for it. -/
def IsParent (env : Setting) (c d : ClassDefinition) : Prop :=
  ∃ name ∈ c.parentNames, env.resolved name = some d

/-- A class that can be reached from one of the classes `roots`. -/
def Reached (env : Setting) (roots : List ClassDefinition) (d : ClassDefinition) : Prop :=
  ∃ root ∈ roots, Relation.ReflTransGen (IsParent env) root d

/-- A name that is not that of an array. -/
def IsPlain (name : String) : Prop := ClassName.element? name = some name

theorem resolved_of_plain {env : Setting} {name : String} (h : IsPlain name) :
    env.resolved name = env.classpath.definition? name := by
  unfold Setting.resolved
  rw [h, Option.bind_some]

/-- A name that does not begin as that of an array is plain. -/
theorem isPlain_of_not_array {name : String} (h : Rules.isArrayName name = false) :
    IsPlain name := by
  unfold IsPlain ClassName.element?
  unfold Rules.isArrayName at h
  split
  · next rest heq =>
      rw [heq] at h
      cases h
  · rfl

/-- A class that is reached is where the way begins, or a class of the class path. -/
theorem Reached.mem {env : Setting} {roots : List ClassDefinition} {d : ClassDefinition}
    (h : Reached env roots d) : d ∈ roots ∨ d ∈ env.classpath.classes := by
  obtain ⟨root, hroot, hway⟩ := h
  rcases Relation.ReflTransGen.cases_tail hway with rfl | ⟨c, -, name, -, hresolved⟩
  · exact Or.inl hroot
  · exact Or.inr (Classpath.mem_classes_of_definition? (definition?_of_resolved hresolved))

/-- No parent that is given as an array has the very name of a class that is reached. -/
def NamedPlainly (env : Setting) (roots : List ClassDefinition) : Prop :=
  ∀ c d, Reached env roots c → Reached env roots d → d.name ∈ c.parentNames → IsPlain d.name

/-- The class path has each of these classes, and those that are reached from them, under its name. -/
theorem definition?_of_reached {env : Setting} {roots : List ClassDefinition}
    (hknown : ∀ c ∈ roots, env.classpath.definition? c.name = some c) {d : ClassDefinition}
    (h : Reached env roots d) : env.classpath.definition? d.name = some d := by
  obtain ⟨root, hroot, hway⟩ := h
  rcases Relation.ReflTransGen.cases_tail hway with rfl | ⟨c, -, name, -, hresolved⟩
  · exact hknown _ hroot
  · exact definition?_of_resolved hresolved

/-- Names tell the classes apart that are reached from classes of the class path. -/
theorem separate_of_namedPlainly {env : Setting} {roots : List ClassDefinition}
    (hknown : ∀ c ∈ roots, env.classpath.definition? c.name = some c)
    (hplain : NamedPlainly env roots) : Separate env true roots := by
  refine ⟨?_, ?_⟩
  · intro c d hc hd hname
    have hsame := definition?_of_reached hknown hc
    rw [hname, definition?_of_reached hknown hd] at hsame
    exact (Option.some.inj hsame).symm
  · intro c d hc hd hparent
    rw [resolved_of_plain (hplain c d hc hd hparent)]
    exact definition?_of_reached hknown hd

/-! ## Thorough visitors -/

section Walks

variable {env : Setting} {visit : Visitor Unit}

/-- A visitor that is regular and never wants a walk to end. -/
structure Thorough (env : Setting) (visit : Visitor Unit) : Prop where
  regular : ∀ c u, Regular env (visit c u)
  goesOn : ∀ c u s, (visit c u s).1 = (true, ())

/-- What a visitor finds in a class by itself. -/
def foundIn (env : Setting) (visit : Visitor Unit) (c : ClassDefinition) : Session :=
  (visit c () (Session.start env)).2

theorem Thorough.tame (hv : Thorough env visit) (hpath : env.classpath.Reliable) : Tame env visit :=
  tame_of_regular hpath hv.regular

/-- What a thorough visitor has found in these events, and what was missed. -/
structure Finds (env : Setting) (visit : Visitor Unit) (events : List WalkEvent) (s s' : Session) :
    Prop where
  problems : ∀ p, p ∈ s'.problems ↔ p ∈ s.problems ∨
    (∃ c name, .miss c name ∈ events ∧ Misses env (.inClass c.name) name p) ∨
      ∃ d ∈ offeredIn events, p ∈ (foundIn env visit d).problems
  warnings : ∀ w, w ∈ s'.warnings ↔ w ∈ s.warnings ∨
    ∃ d ∈ offeredIn events, w ∈ (foundIn env visit d).warnings

theorem Finds.refl (s : Session) : Finds env visit [] s s :=
  ⟨by simp [offeredIn], by simp [offeredIn]⟩

theorem Finds.trans {events events' : List WalkEvent} {s s₁ s' : Session}
    (h : Finds env visit events s s₁) (h' : Finds env visit events' s₁ s') :
    Finds env visit (events ++ events') s s' := by
  refine ⟨?_, ?_⟩
  · intro p
    rw [h'.problems, h.problems, offeredIn_append]
    simp only [List.mem_append, or_and_right, exists_or]
    refine iff_of_eq ?_
    ac_rfl
  · intro w
    rw [h'.warnings, h.warnings, offeredIn_append]
    simp only [List.mem_append, or_and_right, exists_or, or_assoc]

/-- A name that was asked for is missed, or nothing is found. -/
theorem Asks.finds (visit : Visitor Unit) {c : ClassDefinition} {name : String} {s s' : Session}
    (h : Asks env c name s s') :
    Finds env visit (if (env.resolved name).isSome then [] else [.miss c name]) s s' := by
  refine ⟨?_, ?_⟩
  · intro p
    rw [h.follows.problems, h.follows.offered.symm]
    simp
  · intro w
    rw [h.warnings, h.follows.offered.symm]
    simp

/-- A visit adds what the visitor finds in the class by itself. -/
theorem Thorough.finds (hpath : env.classpath.Reliable) (hv : Thorough env visit)
    (d : ClassDefinition) {s : Session} (hs : Faithful env s) :
    Finds env visit [.offer d] s (visit d () s).2 := by
  obtain ⟨-, -, hboth⟩ := (hv.regular d ()).faithful hpath hs
  refine ⟨?_, ?_⟩
  · intro p
    rw [hboth.problems]
    simp [offeredIn, WalkEvent.offered?, foundIn]
  · intro w
    rw [hboth.warnings]
    simp [offeredIn, WalkEvent.offered?, foundIn]

/-- What is found in the end does not depend on what was found before. -/
theorem Plays.finds (hpath : env.classpath.Reliable) (hv : Thorough env visit)
    {events : List WalkEvent} {x x' : Unit} {s s' : Session} {new : List Offer}
    (h : Plays env visit events x s new x' s') (hs : Faithful env s) : Finds env visit events s s' := by
  induction h with
  | none x s => exact .refl s
  | known hresolved hasks _ ih =>
      have hasked := hasks.finds visit
      rw [hresolved] at hasked
      exact hasked.trans (ih hasks.faithful)
  | miss hresolved hasks _ ih =>
      have hasked := hasks.finds visit
      rw [hresolved] at hasked
      exact hasked.trans (ih hasks.faithful)
  | @offer _ x _ _ s _ _ _ d hvisit _ ih =>
      have hfinds := hv.finds hpath d hs
      have hfaithful := (hv.tame hpath).faithful d x s hs
      rw [hvisit] at hfinds hfaithful
      exact hfinds.trans (ih hfaithful)

/-! ## Walks -/

/-- What has come of walks with a thorough visitor from some of the `roots`. -/
structure Walked (env : Setting) (visit : Visitor Unit) (opening : Session)
    (roots : List ClassDefinition) (events : List WalkEvent) (w : Walker) (s : Session) : Prop where
  faithful : Faithful env s
  interfaces : w.interfaces = true
  surveyed : Surveyed env roots events w
  finds : Finds env visit events opening s

/-- Before any walk nothing has been offered. -/
theorem walked_fresh {opening : Session} (h : Faithful env opening) (roots : List ClassDefinition) :
    Walked env visit opening roots [] (Walker.fresh true) opening :=
  ⟨h, rfl, surveyed_fresh true, .refl opening⟩

/-- A walk from one class more. -/
theorem Walked.walk (hpath : env.classpath.Reliable) (hv : Thorough env visit) {opening : Session}
    {roots : List ClassDefinition} {events : List WalkEvent} {w : Walker} {s : Session}
    (h : Walked env visit opening roots events w s) (hsep : Separate env true roots)
    {c : ClassDefinition} (hroot : c ∈ roots) :
    Walked env visit opening roots (events ++ w.course env c true) (w.walk env visit c true () s).1.1.2
        (w.walk env visit c true () s).2 ∧
      c ∈ offeredIn (events ++ w.course env c true) := by
  have htame := hv.tame hpath
  have hgoesOn : ∀ d x s, (visit d x s).1.1 = true :=
    fun d x s => congrArg Prod.fst (hv.goesOn d x s)
  obtain ⟨new, -, hmarks, hplays⟩ := walk_completed hpath htame h.faithful []
    (completed_of_goesOn hpath htame hgoesOn w c true () h.faithful)
  obtain ⟨hsurveyed, hmem⟩ := h.surveyed.course (h.interfaces ▸ hsep) hroot
  refine ⟨⟨hplays.faithful htame h.faithful, ?_, ?_, ?_⟩, hmem⟩
  · rw [hmarks]
    exact h.interfaces
  · rw [hmarks]
    exact hsurveyed
  · exact h.finds.trans (hplays.finds hpath hv h.faithful)

variable {opening : Session} {roots : List ClassDefinition} {events : List WalkEvent} {w : Walker}
  {s : Session}

/-- When walks have been made from all roots, the classes that can be reached have been offered, and no
others. -/
theorem Walked.mem_iff (h : Walked env visit opening roots events w s)
    (hsep : Separate env true roots) (hroots : ∀ c ∈ roots, c ∈ offeredIn events)
    (d : ClassDefinition) : d ∈ offeredIn events ↔ Reached env roots d := by
  rw [h.surveyed.mem_iff (h.interfaces ▸ hsep) hroots, h.interfaces]
  exact Iff.rfl

/-- The parents that are missing then are those of the classes that can be reached. -/
theorem Walked.missed_iff (h : Walked env visit opening roots events w s)
    (hsep : Separate env true roots) (hroots : ∀ c ∈ roots, c ∈ offeredIn events) (p : Problem) :
    (∃ c name, .miss c name ∈ events ∧ Misses env (.inClass c.name) name p) ↔
      ∃ c, Reached env roots c ∧ ∃ name ∈ c.parentNames, Misses env (.inClass c.name) name p := by
  rw [h.surveyed.missed_iff (h.interfaces ▸ hsep) hroots, h.interfaces]
  refine exists_congr fun c => ?_
  have hparents : w.parents c = c.parentNames := by
    unfold Walker.parents
    rw [h.interfaces]
    rfl
  rw [hparents]
  simp only [← exists_and_left]
  exact Iff.rfl

end Walks

end Linkage

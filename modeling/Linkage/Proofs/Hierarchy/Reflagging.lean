import Linkage.Proofs.Hierarchy.Access
import Mathlib.Data.List.Forall2

/-!
# Class paths that differ in flags of members

Two class paths may be the same but for the access flags of members. Then names stand for the same classes
on both, and every search goes the same way and comes to the same, up to these flags: none looks at them.

* **`ClassDefinition.Reflagged`**, **`Setting.Reflagged`** — the same but for the flags of members, which
  are related by `R`;
* **`Setting.Reflagged.resolved`** — names stand for the same classes;
* **`Setting.Reflagged.searched`** — a search for a member comes to the same;
* **`Setting.Reflagged.isBelow_iff`** — the same classes are subclasses.
-/

namespace Linkage

variable {R : AccessFlags → AccessFlags → Prop}

/-! ## The same but for flags -/

/-- The member is the same but for its flags. -/
structure Member.Reflagged (R : AccessFlags → AccessFlags → Prop) (m m' : Member) : Prop where
  name : m'.name = m.name
  descriptor : m'.descriptor = m.descriptor
  deprecated : m'.deprecated = m.deprecated
  access : R m.access m'.access

/-- The class is the same but for the flags of its members. -/
structure ClassDefinition.Reflagged (R : AccessFlags → AccessFlags → Prop) (c c' : ClassDefinition) :
    Prop where
  same : c' = { c with methods := c'.methods, fields := c'.fields }
  methods : List.Forall₂ (Member.Reflagged R) c.methods c'.methods
  fields : List.Forall₂ (Member.Reflagged R) c.fields c'.fields

/-- The layer is the same but for the flags of members. -/
structure Layer.Reflagged (R : AccessFlags → AccessFlags → Prop) (l l' : Layer) : Prop where
  origin : l'.origin = l.origin
  name : l'.source.index.name = l.source.index.name
  failing : l'.source.failing = l.source.failing
  classes : List.Forall₂ (ClassDefinition.Reflagged R) l.source.index.classes l'.source.index.classes

/-- The class path is the same but for the flags of members, and the same classes are external. -/
structure Setting.Reflagged (R : AccessFlags → AccessFlags → Prop) (env env' : Setting) : Prop where
  layers : List.Forall₂ (Layer.Reflagged R) env.classpath env'.classpath
  external : env'.external = env.external

namespace ClassDefinition.Reflagged

variable {c c' : ClassDefinition} (h : c.Reflagged R c')
include h

theorem name : c'.name = c.name := by rw [h.same]

theorem super : c'.super = c.super := by rw [h.same]

theorem interfaces : c'.interfaces = c.interfaces := by rw [h.same]

theorem parent? : c'.parent? = c.parent? := by
  unfold ClassDefinition.parent?
  rw [h.super, h.name]

end ClassDefinition.Reflagged

/-! ## Finding the first one -/

section Find

variable {α β γ δ : Type} {S : α → β → Prop} {T : γ → δ → Prop}

/-- Of related lists the first elements with related values are related. -/
theorem rel_findSome? {xs : List α} {ys : List β} {f : α → Option γ} {g : β → Option δ}
    (h : List.Forall₂ S xs ys) (hfg : ∀ x y, S x y → Option.Rel T (f x) (g y)) :
    Option.Rel T (xs.findSome? f) (ys.findSome? g) := by
  induction h with
  | nil => exact .none
  | @cons x y xs ys hxy _ ih =>
      have hfirst := hfg x y hxy
      rw [List.findSome?_cons, List.findSome?_cons]
      generalize f x = u at hfirst ⊢
      generalize g y = v at hfirst ⊢
      cases hfirst with
      | some huv => exact .some huv
      | none => exact ih

theorem rel_find? {xs : List α} {ys : List β} {p : α → Bool} {q : β → Bool}
    (h : List.Forall₂ S xs ys) (hpq : ∀ x y, S x y → p x = q y) :
    Option.Rel S (xs.find? p) (ys.find? q) := by
  induction h with
  | nil => exact .none
  | @cons x y xs ys hxy _ ih =>
      rw [List.find?_cons, List.find?_cons, ← hpq x y hxy]
      cases p x with
      | true => exact .some hxy
      | false => exact ih

end Find

theorem Member.Reflagged.isCalled {m m' : Member} (h : m.Reflagged R m') (name descriptor : String) :
    m.isCalled name descriptor = m'.isCalled name descriptor := by
  unfold Member.isCalled
  rw [h.name, h.descriptor]

theorem ClassDefinition.Reflagged.findMethod {c c' : ClassDefinition} (h : c.Reflagged R c')
    (name descriptor : String) :
    Option.Rel (Member.Reflagged R) (c.findMethod name descriptor) (c'.findMethod name descriptor) :=
  rel_find? h.methods fun _ _ hm => hm.isCalled name descriptor

theorem ClassDefinition.Reflagged.findField {c c' : ClassDefinition} (h : c.Reflagged R c')
    (name descriptor : String) :
    Option.Rel (Member.Reflagged R) (c.findField name descriptor) (c'.findField name descriptor) :=
  rel_find? h.fields fun _ _ hm => hm.isCalled name descriptor

/-! ## Class paths -/

namespace Setting.Reflagged

variable {env env' : Setting} (h : env.Reflagged R env')
include h

/-- A class path that never fails does not fail with other flags. -/
theorem reliable (hpath : env.classpath.Reliable) : env'.classpath.Reliable := by
  have hlayers := h.layers
  unfold Classpath.Reliable at hpath ⊢
  generalize env.classpath = path at hpath hlayers
  generalize env'.classpath = path' at hlayers ⊢
  induction hlayers with
  | nil => exact nofun
  | cons hl _ ih =>
      obtain ⟨hfirst, hrest⟩ := List.forall_mem_cons.mp hpath
      refine List.forall_mem_cons.mpr ⟨?_, ih hrest⟩
      rw [hl.failing]
      exact hfirst

theorem definition? (name : String) : Option.Rel (ClassDefinition.Reflagged R)
    (env.classpath.definition? name) (env'.classpath.definition? name) := by
  refine rel_findSome? h.layers fun l l' hl => rel_find? hl.classes fun c c' hc => ?_
  rw [hc.name]

theorem definition?_eq_none_iff (name : String) :
    env'.classpath.definition? name = none ↔ env.classpath.definition? name = none := by
  have hrel := h.definition? name
  generalize env.classpath.definition? name = found at hrel ⊢
  generalize env'.classpath.definition? name = found' at hrel ⊢
  cases hrel <;> simp

/-- A name stands for the same class. -/
theorem resolved (name : String) :
    Option.Rel (ClassDefinition.Reflagged R) (env.resolved name) (env'.resolved name) := by
  unfold Setting.resolved
  cases ClassName.element? name with
  | none => exact .none
  | some plain => exact h.definition? plain

/-- The same names are missed. -/
theorem misses_iff (location : Location) (name : String) (p : Problem) :
    Misses env' location name p ↔ Misses env location name p := by
  unfold Misses
  simp only [h.definition?_eq_none_iff, h.external]

theorem classes :
    List.Forall₂ (ClassDefinition.Reflagged R) env.classpath.classes env'.classpath.classes :=
  List.rel_flatMap h.layers fun _ _ hl => hl.classes

theorem size_eq : env'.classpath.size = env.classpath.size := h.classes.length_eq.symm

theorem links_eq : env'.classpath.links = env.classpath.links := by
  refine (List.rel_foldl (P := (· = ·)) ?_ rfl h.classes).symm
  rintro n _ rfl c c' hc
  show n + (1 + c.interfaces.length) = n + (1 + c'.interfaces.length)
  rw [hc.interfaces]

theorem climbBound_eq {c c' : ClassDefinition} (hc : c.Reflagged R c') :
    climbBound env' c' = climbBound env c := by
  unfold climbBound
  rw [h.links_eq, hc.interfaces]

end Setting.Reflagged

/-! ## Searches for ancestors -/

/-- The searches have come equally far. -/
structure Climb.Reflagged (R : AccessFlags → AccessFlags → Prop) (k k' : Climb) : Prop where
  found : List.Forall₂ (ClassDefinition.Reflagged R) k.found k'.found
  complete : k'.complete = k.complete
  seen : k'.seen = k.seen
  interfaces : k'.interfaces = k.interfaces

namespace Climb.Reflagged

variable {k k' : Climb}

theorem see (h : k.Reflagged R k') (name : String) : (k.see name).Reflagged R (k'.see name) :=
  ⟨h.found, h.complete, congrArg (name :: ·) h.seen, h.interfaces⟩

theorem miss (h : k.Reflagged R k') : k.miss.Reflagged R k'.miss :=
  ⟨h.found, rfl, h.seen, h.interfaces⟩

theorem add (h : k.Reflagged R k') {c c' : ClassDefinition} (hc : c.Reflagged R c') :
    (k.add c).Reflagged R (k'.add c') := by
  refine ⟨.cons hc h.found, h.complete, h.seen, ?_⟩
  show c'.interfaces.reverse ++ k'.interfaces = c.interfaces.reverse ++ k.interfaces
  rw [hc.interfaces, h.interfaces]

theorem leave (h : k.Reflagged R k') (rest : List String) :
    Climb.Reflagged R { k with interfaces := rest } { k' with interfaces := rest } :=
  ⟨h.found, h.complete, h.seen, rfl⟩

theorem start {c c' : ClassDefinition} (h : c.Reflagged R c') :
    (Climb.start c).Reflagged R (Climb.start c') := by
  refine ⟨.nil, rfl, ?_, ?_⟩
  · show [c'.name] = [c.name]
    rw [h.name]
  · show c'.interfaces.reverse = c.interfaces.reverse
    rw [h.interfaces]

end Climb.Reflagged

section Searches

variable {env env' : Setting} (h : env.Reflagged R env')
include h

/-- Superclasses are followed in the same way. -/
theorem Setting.Reflagged.chained (bound : Nat) (next : Option String) {k k' : Climb}
    (hk : k.Reflagged R k') :
    (Climb.chained env bound next k).Reflagged R (Climb.chained env' bound next k') := by
  induction bound generalizing next k k' with
  | zero => exact hk
  | succ bound ih =>
      cases next with
      | none => exact hk
      | some name =>
          unfold Climb.chained
          rw [hk.seen]
          split
          · exact hk
          · have hrel := h.resolved name
            generalize env.resolved name = found at hrel ⊢
            generalize env'.resolved name = found' at hrel ⊢
            cases hrel with
            | none => exact (hk.see name).miss
            | some hd =>
                simp only
                rw [hd.parent?]
                exact ih _ ((hk.see name).add hd)

/-- So are interfaces. -/
theorem Setting.Reflagged.spread (bound : Nat) {k k' : Climb} (hk : k.Reflagged R k') :
    (Climb.spread env bound k).Reflagged R (Climb.spread env' bound k') := by
  induction bound generalizing k k' with
  | zero => exact hk
  | succ bound ih =>
      obtain ⟨found', complete', seen', interfaces'⟩ := k'
      obtain rfl : seen' = k.seen := hk.seen
      obtain rfl : interfaces' = k.interfaces := hk.interfaces
      unfold Climb.spread
      simp only
      split
      · exact hk
      · next name rest _ =>
          have hrest := hk.leave rest
          split
          · exact ih hrest
          · have hrel := h.resolved name
            generalize env.resolved name = found at hrel ⊢
            generalize env'.resolved name = found' at hrel ⊢
            cases hrel with
            | none => exact ih (hrest.see name).miss
            | some hd => exact ih ((hrest.see name).add hd)

theorem Setting.Reflagged.climbed (bound : Nat) {c c' : ClassDefinition} (hc : c.Reflagged R c') :
    (Linkage.climbed env bound c).Reflagged R (Linkage.climbed env' bound c') := by
  unfold Linkage.climbed
  rw [hc.parent?]
  exact h.spread bound (h.chained bound c.parent? (.start hc))

/-- What is picked from a class does not go by the flags of its members. -/
def Picks (R : AccessFlags → AccessFlags → Prop) (pick : ClassDefinition → Option Member) : Prop :=
  ∀ c c', ClassDefinition.Reflagged R c c' → Option.Rel (Member.Reflagged R) (pick c) (pick c')

/-- The searches come to the same. -/
inductive MemberSearch.Reflagged (R : AccessFlags → AccessFlags → Prop) :
    MemberSearch → MemberSearch → Prop where
  | found {d d' : ClassDefinition} {m m' : Member} (hd : d.Reflagged R d') (hm : m.Reflagged R m') :
      Reflagged R (.found d m) (.found d' m')
  | missing : Reflagged R .missing .missing
  | unknown : Reflagged R .unknown .unknown

/-- A search for a member comes to the same. -/
theorem Setting.Reflagged.searched {pick : ClassDefinition → Option Member} (hpick : Picks R pick)
    {owner owner' : ClassDefinition} (howner : owner.Reflagged R owner') :
    (Linkage.searched env owner pick).Reflagged R (Linkage.searched env' owner' pick) := by
  have hclimbed := h.climbed (climbBound env owner) howner
  -- of the classes found the first one that declares the member is the same
  have hancestors : Option.Rel (fun x y => x.1.Reflagged R y.1 ∧ x.2.Reflagged R y.2)
      (declaredIn pick (Linkage.climbed env (climbBound env owner) owner).found.reverse)
      (declaredIn pick (Linkage.climbed env' (climbBound env owner) owner').found.reverse) := by
    rw [declaredIn_eq_findSome?, declaredIn_eq_findSome?]
    refine rel_findSome? (List.rel_reverse hclimbed.found) fun c c' hc => ?_
    have hrel := hpick c c' hc
    generalize pick c = picked at hrel ⊢
    generalize pick c' = picked' at hrel ⊢
    cases hrel with
    | none => exact .none
    | some hm => exact .some ⟨hc, hm⟩
  unfold Linkage.searched ancestryWithin
  rw [h.climbBound_eq howner]
  have hown := hpick owner owner' howner
  generalize pick owner = picked at hown ⊢
  generalize pick owner' = picked' at hown ⊢
  cases hown with
  | some hm => exact .found howner hm
  | none =>
      simp only
      generalize declaredIn pick _ = declared at hancestors ⊢
      generalize declaredIn pick _ = declared' at hancestors ⊢
      cases hancestors with
      | some hboth => exact .found hboth.1 hboth.2
      | none =>
          simp only [hclimbed.complete]
          split
          · exact .missing
          · exact .unknown

/-! ## Subclasses -/

theorem Setting.Reflagged.super_eq (name : String) :
    (env'.resolved name).bind (·.super) = (env.resolved name).bind (·.super) := by
  have hrel := h.resolved name
  generalize env.resolved name = found at hrel ⊢
  generalize env'.resolved name = found' at hrel ⊢
  cases hrel with
  | none => rfl
  | some hd => exact hd.super

theorem Setting.Reflagged.followed_eq (bound : Nat) (seen : List String) (next : Option String) :
    followed env' bound seen next = followed env bound seen next := by
  induction bound generalizing seen next with
  | zero => rfl
  | succ bound ih =>
      cases next with
      | none => rfl
      | some name =>
          unfold followed
          rw [h.super_eq, ih]

/-- The same classes count as subclasses. -/
theorem Setting.Reflagged.isBelow_iff (c : ClassDefinition) (ancestor : String) :
    IsBelow env' c ancestor ↔ IsBelow env c ancestor := by
  unfold IsBelow supersNamed aroundSuper
  simp only [h.followed_eq, h.super_eq, h.size_eq]

end Searches

end Linkage

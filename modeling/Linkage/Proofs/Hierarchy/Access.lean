import Linkage.Proofs.Hierarchy.Members

/-!
# Who may use a member

Whether a class may use a member is asked without findings, and on a class path that never fails the
answer can be told from the classes. The superclasses that count are those that classes declare, which
are followed from name to name.

* **`followed`**, **`yields_reachesSuper`** — the names that are followed from a declared superclass;
* **`IsBelow`**, **`yields_isSubclassOf`** — a class is below those whose names are followed from it, or
  from the class around it;
* **`accessible`**, **`yields_isAccessible`** — what is answered.
-/

namespace Linkage

/-! ## Names that are followed -/

/-- The names of superclasses that are followed from a declared one, until one comes up again. -/
def followed (env : Setting) : Nat → List String → Option String → List String
  | 0, _, _ => []
  | _, _, none => []
  | bound + 1, seen, some name =>
    if seen.contains name then []
    else name :: followed env bound (name :: seen) ((env.resolved name).bind (·.super))

/-- All names that are followed from a declared superclass. -/
def supersNamed (env : Setting) (next : Option String) : List String :=
  followed env (env.classpath.size + 2) [] next

/-- The declared superclass of the class around a nested class. -/
def aroundSuper (env : Setting) (c : ClassDefinition) : Option String :=
  if ClassName.outermost c.name = c.name then none
  else (env.resolved (ClassName.outermost c.name)).bind (·.super)

/-- A class counts as a subclass of the one with that name. -/
def IsBelow (env : Setting) (c : ClassDefinition) (ancestor : String) : Prop :=
  ancestor ∈ supersNamed env c.super ∨ ancestor ∈ supersNamed env (aroundSuper env c)

instance (env : Setting) (c : ClassDefinition) (ancestor : String) :
    Decidable (IsBelow env c ancestor) :=
  inferInstanceAs (Decidable (_ ∨ _))

/-- Whether a class may use a member of `declaring` that has the given flags. -/
def accessible (env : Setting) (accessor declaring : ClassDefinition) (access : AccessFlags) : Bool :=
  if access.isPublic || accessor.name == declaring.name then true
  else if access.isPrivate then
    ClassName.outermost accessor.name == ClassName.outermost declaring.name
  else
    let samePackage := ClassName.package accessor.name == ClassName.package declaring.name
    if access.isProtected then samePackage || decide (IsBelow env accessor declaring.name)
    else samePackage

variable {env : Setting}

theorem followed_none (bound : Nat) (seen : List String) : followed env bound seen none = [] := by
  cases bound <;> rfl

theorem followed_new {bound : Nat} {seen : List String} {name : String} (hnew : name ∉ seen) :
    followed env (bound + 1) seen (some name) =
      name :: followed env bound (name :: seen) ((env.resolved name).bind (·.super)) := by
  show (if seen.contains name then [] else _) = _
  rw [if_neg fun hmem => hnew (List.contains_iff_mem.mp hmem)]

/-! ## What is answered -/

section Answers

variable (hpath : env.classpath.Reliable)
include hpath

theorem yields_reachesSuper {ancestor : String} (bound : Nat) {seen : List String}
    (next : Option String) (hnew : ancestor ∉ seen) :
    Yields env (reachesSuper env ancestor bound seen next)
      (decide (ancestor ∈ followed env bound seen next)) := by
  induction bound generalizing seen next with
  | zero =>
      unfold reachesSuper followed
      exact .pure false
  | succ bound ih =>
      cases next with
      | none => exact .pure false
      | some name =>
          unfold reachesSuper
          split
          · next hname =>
              have hmem : ancestor ∈ followed env (bound + 1) seen (some name) := by
                rw [hname, followed_new (hname ▸ hnew)]
                exact List.mem_cons_self
              rw [decide_eq_true hmem]
              exact .pure true
          · next hname =>
              split
              · next hseen =>
                  unfold followed
                  rw [if_pos hseen]
                  exact .pure false
              · next hseen =>
                  rw [followed_new fun hmem => hseen (List.contains_iff_mem.mpr hmem)]
                  have hrest := ih ((env.resolved name).bind (·.super))
                    (List.not_mem_cons_of_ne_of_not_mem (Ne.symm hname) hnew)
                  simp only [List.mem_cons, Ne.symm hname, false_or]
                  exact (Yields.resolve hpath name).bind hrest

theorem yields_isSubclassOf (c : ClassDefinition) (ancestor : String) :
    Yields env (isSubclassOf env c ancestor) (decide (IsBelow env c ancestor)) := by
  have hsupers : ∀ outerSuper : Option String, Yields env (do
      let bound := env.classpath.size + 2
      if ← reachesSuper env ancestor bound [] c.super then return true
      else reachesSuper env ancestor bound [] outerSuper) (decide
        (ancestor ∈ supersNamed env c.super ∨ ancestor ∈ supersNamed env outerSuper)) := by
    intro outerSuper
    refine (yields_reachesSuper hpath _ c.super List.not_mem_nil).bind ?_
    by_cases hmem : ancestor ∈ supersNamed env c.super
    · rw [decide_eq_true (Or.inl hmem)]
      unfold supersNamed at hmem
      rw [decide_eq_true hmem]
      exact .pure true
    · simp only [hmem, false_or]
      unfold supersNamed at hmem ⊢
      rw [decide_eq_false hmem]
      exact yields_reachesSuper hpath _ outerSuper List.not_mem_nil
  unfold isSubclassOf IsBelow aroundSuper
  simp only
  split
  · exact (Yields.pure none).bind (hsupers none)
  · exact (Yields.resolve hpath _).bind ((Yields.pure _).bind (hsupers _))

/-- Whether a member is accessible is asked without findings. -/
theorem yields_isAccessible (accessor declaring : ClassDefinition) (access : AccessFlags) :
    Yields env (isAccessible env accessor declaring access) (accessible env accessor declaring access) := by
  unfold isAccessible accessible
  split
  · exact .pure true
  · split
    · exact .pure _
    · simp only
      split
      · split
        · next hsame =>
            rw [hsame, Bool.true_or]
            exact .pure true
        · next hother =>
            rw [Bool.eq_false_iff.mpr hother, Bool.false_or]
            exact yields_isSubclassOf hpath accessor declaring.name
      · exact .pure _

end Answers

end Linkage

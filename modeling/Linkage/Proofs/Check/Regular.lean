import Linkage.Hierarchy.Walk
import Linkage.Rule.Registry

/-!
# What checks are made of

Rules and walks touch a session only by looking names up and by adding findings; whether a miss is a
problem is the one thing for which they ask whether the class path has failed.

* **`Regular`** — the checks that are put together in this way. What holds of every look-up and every
  finding, and passes from two checks to one after the other, holds of every regular check;
* **`regular_default`** — the rules that are there from the beginning are regular;
* **`regular_walk`** — a walk is, if its visitor is.
-/

namespace Linkage

/-- What `resolveAt` does after a miss. -/
def missed (env : Setting) (location : Location) (plain : String) :
    Check (Option ClassDefinition) := do
  if (← get).failure.isNone && !env.external.covers plain then
    Check.problem (.classNotFound plain location)
  return none

theorem missed_eq (env : Setting) (location : Location) (plain : String) (s : Session) :
    missed env location plain s =
      (none, if s.failure.isNone && !env.external.covers plain then
        s.addProblem (.classNotFound plain location) else s) := by
  unfold missed
  show (if (s.failure.isNone && !env.external.covers plain) = true then _ else _ : Check _) s = _
  split <;> rfl

/-- The checks that are put together from look-ups and findings. -/
inductive Regular (env : Setting) : {α : Type} → Check α → Prop where
  | pure {α : Type} (x : α) : Regular env (Pure.pure x)
  | bind {α β : Type} {m : Check α} {f : α → Check β} (hm : Regular env m)
      (hf : ∀ x, Regular env (f x)) : Regular env (m >>= f)
  | lookup (name : String) : Regular env (fun s => s.lookup env name)
  | missed (location : Location) (plain : String) : Regular env (missed env location plain)
  | problem (p : Problem) : Regular env (Check.problem p)
  | warning (w : Warning) : Regular env (Check.warning w)

namespace Regular

variable {env : Setting} {α β : Type}

theorem discard {m : Check α} (hm : Regular env m) : Regular env (discard m) :=
  bind hm fun _ => pure ()

/-- Checks for each element in turn. -/
theorem eachMem {xs : List α} {check : α → Check Unit} (h : ∀ x ∈ xs, Regular env (check x)) :
    Regular env (Check.each xs check) := by
  induction xs with
  | nil => exact pure ()
  | cons x rest ih =>
      refine bind (h x (List.mem_cons_self ..)) ?_
      intro _
      exact ih fun y hy => h y (List.mem_cons_of_mem _ hy)

theorem each {xs : List α} {check : α → Check Unit} (h : ∀ x, Regular env (check x)) :
    Regular env (Check.each xs check) := eachMem fun x _ => h x

theorem resolve (name : String) : Regular env (resolve env name) := by
  unfold Linkage.resolve
  split
  · exact pure none
  · exact lookup _

theorem resolveAt (location : Location) (name : String) :
    Regular env (resolveAt env location name) := by
  unfold Linkage.resolveAt
  split
  · exact pure none
  · next plain _ =>
      refine bind (lookup plain) ?_
      intro found
      cases found with
      | some c => exact pure (some c)
      | none => exact missed location plain

/-! ## Ancestries -/

theorem superclasses (bound : Nat) (name : Option String) (k : Climb) :
    Regular env (Climb.superclasses env bound name k) := by
  induction bound generalizing name k with
  | zero =>
      unfold Climb.superclasses
      exact pure k
  | succ bound ih =>
      cases name with
      | none => exact pure k
      | some name =>
          unfold Climb.superclasses
          split
          · exact pure k
          · refine bind (resolve name) ?_
            intro found
            cases found with
            | some c => exact ih _ _
            | none => exact pure _

theorem allInterfaces (bound : Nat) (k : Climb) : Regular env (Climb.allInterfaces env bound k) := by
  induction bound generalizing k with
  | zero => exact pure k
  | succ bound ih =>
      unfold Climb.allInterfaces
      split
      · exact pure k
      · next name rest _ =>
          simp only
          split
          · exact ih _
          · refine bind (resolve name) ?_
            intro found
            cases found with
            | some c => exact ih _
            | none => exact ih _

theorem ancestry (c : ClassDefinition) : Regular env (ancestry env c) :=
  bind (superclasses _ _ _) fun _ => bind (allInterfaces _ _) fun _ => pure _

theorem searchMember (owner : ClassDefinition) (pick : ClassDefinition → Option Member) :
    Regular env (searchMember env owner pick) := by
  unfold Linkage.searchMember
  split
  · exact pure _
  · refine bind (ancestry owner) ?_
    intro a
    split
    · exact pure _
    · exact pure _

/-! ## Access -/

theorem reachesSuper (ancestor : String) (bound : Nat) (seen : List String) (name : Option String) :
    Regular env (reachesSuper env ancestor bound seen name) := by
  induction bound generalizing seen name with
  | zero =>
      unfold Linkage.reachesSuper
      exact pure false
  | succ bound ih =>
      cases name with
      | none => exact pure false
      | some name =>
          unfold Linkage.reachesSuper
          split
          · exact pure true
          · split
            · exact pure false
            · refine bind (resolve name) ?_
              intro next
              exact ih _ _

theorem isSubclassOf (c : ClassDefinition) (ancestor : String) :
    Regular env (isSubclassOf env c ancestor) := by
  have hsupers : ∀ outerSuper : Option String, Regular env (do
      let bound := env.classpath.size + 2
      if ← Linkage.reachesSuper env ancestor bound [] c.super then return true
      else Linkage.reachesSuper env ancestor bound [] outerSuper) := by
    intro outerSuper
    refine bind (reachesSuper _ _ _ _) ?_
    intro reaches
    cases reaches with
    | true => exact pure true
    | false => exact reachesSuper _ _ _ _
  unfold Linkage.isSubclassOf
  simp only
  split
  · exact bind (pure none) hsupers
  · refine bind (resolve _) ?_
    intro around
    exact bind (pure _) hsupers

theorem isAccessible (accessor declaring : ClassDefinition) (access : AccessFlags) :
    Regular env (isAccessible env accessor declaring access) := by
  unfold Linkage.isAccessible
  split
  · exact pure true
  · split
    · exact pure _
    · simp only
      split
      · split
        · exact pure true
        · exact isSubclassOf _ _
      · exact pure _

/-! ## Rules -/

theorem withSuperclass (c : ClassDefinition) {check : String → ClassDefinition → Check Unit}
    (h : ∀ name superclass, Regular env (check name superclass)) :
    Regular env (Rules.withSuperclass env c check) := by
  unfold Rules.withSuperclass
  split
  · exact pure ()
  · split
    · exact pure ()
    · next name _ =>
        refine bind (resolveAt _ _) ?_
        intro found
        cases found with
        | some superclass => exact h name superclass
        | none => exact pure ()

theorem superclassIsClass (c : ClassDefinition) : Regular env (Rules.superclassIsClass env c) := by
  refine withSuperclass c ?_
  intro name superclass
  split
  · exact problem _
  · exact pure ()

theorem superclassIsOpen (c : ClassDefinition) : Regular env (Rules.superclassIsOpen env c) := by
  refine withSuperclass c ?_
  intro name superclass
  split
  · exact problem _
  · exact pure ()

theorem interfacesAreInterfaces (c : ClassDefinition) :
    Regular env (Rules.interfacesAreInterfaces env c) := by
  refine each ?_
  intro name
  refine bind (resolveAt _ _) ?_
  intro found
  cases found with
  | none => exact pure ()
  | some resolved =>
      simp only
      split
      · exact pure ()
      · exact problem _

theorem abstractMethodsImplemented (c : ClassDefinition) :
    Regular env (Rules.abstractMethodsImplemented env c) := by
  unfold Rules.abstractMethodsImplemented
  split
  · refine bind (ancestry c) ?_
    intro a
    split
    · exact each fun d => problem _
    · exact pure ()
  · exact pure ()

theorem referencedClassesResolve (c : ClassDefinition) :
    Regular env (Rules.referencedClassesResolve env c) :=
  each fun _ => discard (resolveAt _ _)

/-- What is done with a member that was searched for. -/
theorem judged {search : Check MemberSearch} (hsearch : Regular env search) (c : ClassDefinition)
    (illegal : ClassDefinition → Member → Problem) (absent : Problem) : Regular env (do
      match ← search with
      | .found declaring m =>
        if ← Linkage.isAccessible env c declaring m.access then Pure.pure ()
        else Check.problem (illegal declaring m)
      | .missing => Check.problem absent
      | .unknown => Pure.pure ()) := by
  refine bind hsearch ?_
  intro result
  cases result with
  | found declaring m =>
      refine bind (isAccessible _ _ _) ?_
      intro accessible
      cases accessible with
      | true => exact pure ()
      | false => exact problem _
  | missing => exact problem _
  | unknown => exact pure ()

theorem methodRefLinks (c : ClassDefinition) (r : MemberRef) :
    Regular env (Rules.methodRefLinks env c r) := by
  unfold Rules.methodRefLinks
  split
  · exact pure ()
  · refine bind (resolveAt _ _) ?_
    intro found
    cases found with
    | none => exact pure ()
    | some owner => exact judged (searchMember _ _) c _ _

theorem fieldRefLinks (c : ClassDefinition) (r : MemberRef) :
    Regular env (Rules.fieldRefLinks env c r) := by
  unfold Rules.fieldRefLinks
  split
  · exact pure ()
  · refine bind (resolveAt _ _) ?_
    intro found
    cases found with
    | none => exact pure ()
    | some owner => exact judged (searchMember _ _) c _ _

theorem memberRefsLink (c : ClassDefinition) : Regular env (Rules.memberRefsLink env c) := by
  refine each ?_
  intro r
  split
  · exact fieldRefLinks c r
  · exact methodRefLinks c r
  · exact methodRefLinks c r

theorem deprecatedParent (c : ClassDefinition) (parent : String) :
    Regular env (Rules.deprecatedParent env c parent) := by
  unfold Rules.deprecatedParent
  split
  · exact pure ()
  · refine bind (resolve _) ?_
    intro found
    cases found with
    | none => exact pure ()
    | some resolved =>
        simp only
        split
        · exact warning _
        · exact pure ()

theorem deprecatedMember (c : ClassDefinition) (r : MemberRef) :
    Regular env (Rules.deprecatedMember env c r) := by
  unfold Rules.deprecatedMember
  split
  · exact pure ()
  · refine bind (resolve _) ?_
    intro found
    cases found with
    | none => exact pure ()
    | some owner =>
        -- the search and what is said about what it finds go by the kind
        cases r.kind
        all_goals
          refine bind (searchMember _ _) ?_
          intro search
          simp only
          split
          · split
            · exact warning _
            · exact pure ()
          · exact pure ()

theorem deprecatedUsages (c : ClassDefinition) : Regular env (Rules.deprecatedUsages env c) :=
  bind (each (deprecatedParent c)) fun _ => each (deprecatedMember c)

theorem overriddenIsOpen (c : ClassDefinition) (m : Member) (bound : Nat) (seen : List String)
    (name : Option String) : Regular env (Rules.overriddenIsOpen env c m bound seen name) := by
  induction bound generalizing seen name with
  | zero =>
      unfold Rules.overriddenIsOpen
      exact pure ()
  | succ bound ih =>
      cases name with
      | none => exact pure ()
      | some name =>
          unfold Rules.overriddenIsOpen
          split
          · exact pure ()
          · refine bind (resolve name) ?_
            intro found
            cases found with
            | none => exact pure ()
            | some ancestor =>
                simp only
                split
                · split
                  · split
                    · exact problem _
                    · exact pure ()
                  · exact ih _ _
                · exact ih _ _

theorem noFinalOverridden (c : ClassDefinition) (m : Member) :
    Regular env (Rules.noFinalOverridden env c m) := by
  unfold Rules.noFinalOverridden
  split
  · exact pure ()
  · exact overriddenIsOpen _ _ _ _ _

theorem methodTypesResolve (c : ClassDefinition) (m : Member) :
    Regular env (Rules.methodTypesResolve env c m) :=
  each fun _ => discard (resolveAt _ _)

theorem fieldTypeResolves (c : ClassDefinition) (f : Member) :
    Regular env (Rules.fieldTypeResolves env c f) :=
  each fun _ => discard (resolveAt _ _)

end Regular

/-- A rule all of whose checks are regular. -/
def Rule.IsRegular : Rule → Prop
  | .ofClass check => ∀ env c, Regular env (check env c)
  | .ofMethod check => ∀ env c m, Regular env (check env c m)
  | .ofField check => ∀ env c f, Regular env (check env c f)

/-- A registry all of whose rules are regular. -/
def RuleRegistry.IsRegular (r : RuleRegistry) : Prop := ∀ rule ∈ r.values, rule.IsRegular

theorem regular_default : RuleRegistry.default.IsRegular := by
  intro rule hrule
  simp only [RuleRegistry.default, Table.values, List.map_cons, List.map_nil, List.mem_cons,
    List.not_mem_nil, or_false] at hrule
  rcases hrule with rfl | rfl | rfl | rfl | rfl | rfl | rfl | rfl | rfl | rfl
  · exact fun _ => Regular.superclassIsClass
  · exact fun _ => Regular.interfacesAreInterfaces
  · exact fun _ => Regular.superclassIsOpen
  · exact fun _ => Regular.abstractMethodsImplemented
  · exact fun _ => Regular.referencedClassesResolve
  · exact fun _ => Regular.memberRefsLink
  · exact fun _ => Regular.deprecatedUsages
  · exact fun _ => Regular.noFinalOverridden
  · exact fun _ => Regular.methodTypesResolve
  · exact fun _ => Regular.fieldTypeResolves

theorem Rule.IsRegular.runOnClass {rule : Rule} (h : rule.IsRegular) (env : Setting)
    (c : ClassDefinition) : Regular env (rule.runOnClass env c) := by
  cases rule with
  | ofClass check => exact h env c
  | ofMethod check => exact .pure ()
  | ofField check => exact .pure ()

theorem Rule.IsRegular.runOnMembers {rule : Rule} (h : rule.IsRegular) (env : Setting)
    (c : ClassDefinition) : Regular env (rule.runOnMembers env c) := by
  cases rule with
  | ofClass check => exact .pure ()
  | ofMethod check => exact .each (h env c)
  | ofField check => exact .each (h env c)

/-! ## Walks -/

section Walks

variable {env : Setting} {σ : Type} {visit : Visitor σ}

/-- Two checks with a state of their own, one after the other. -/
theorem Regular.bindState {α β : Type} {m : StateT σ Check α} {f : α → StateT σ Check β} {u : σ}
    (hm : Regular env (m u)) (hf : ∀ x u', Regular env (f x u')) :
    Regular env ((m >>= f) u) :=
  .bind hm fun p => hf p.1 p.2

/-- A check without a state of its own. -/
theorem Regular.liftState {α : Type} {m : Check α} (hm : Regular env m) (u : σ) :
    Regular env ((liftM m : StateT σ Check α) u) :=
  .bind hm fun x => .pure (x, u)

theorem regular_offerParents (hvisit : ∀ c u, Regular env (visit c u)) (c : ClassDefinition)
    (names : List String) (w : Walker) (offered : List ClassDefinition) (u : σ) :
    Regular env (offerParents env visit c names w offered u) := by
  induction names generalizing w offered u with
  | nil => exact .pure _
  | cons name rest ih =>
      unfold offerParents
      split
      · exact ih _ _ _
      · refine .bindState (.liftState (.resolveAt _ name) u) ?_
        intro found u'
        cases found with
        | none => exact ih _ _ _
        | some parent =>
            simp only
            split
            · exact ih _ _ _
            · refine .bindState (hvisit parent u') ?_
              intro wanted u''
              cases wanted with
              | true => exact ih _ _ _
              | false => exact .pure _

theorem regular_expand (hvisit : ∀ c u, Regular env (visit c u)) (bound : Nat)
    (pending : List ClassDefinition) (w : Walker) (u : σ) :
    Regular env (expand env visit bound pending w u) := by
  induction bound generalizing pending w u with
  | zero =>
      unfold expand
      exact .pure _
  | succ bound ih =>
      cases pending with
      | nil => exact .pure _
      | cons c pending =>
          unfold expand
          refine .bindState (regular_offerParents hvisit c _ w [] u) ?_
          rintro ⟨offered, w'⟩ u'
          cases offered with
          | none => exact .pure _
          | some offered => exact ih _ _ _

/-- A walk is regular if its visitor is. -/
theorem regular_walk (hvisit : ∀ c u, Regular env (visit c u)) (w : Walker)
    (start : ClassDefinition) (includeSelf : Bool) (u : σ) :
    Regular env (w.walk env visit start includeSelf u) := by
  unfold Walker.walk
  simp only
  split
  · split
    · exact .pure _
    · refine .bindState (hvisit start u) ?_
      intro wanted u'
      cases wanted with
      | true => exact regular_expand hvisit _ _ _ _
      | false => exact .pure _
  · exact regular_expand hvisit _ _ _ _

end Walks

end Linkage

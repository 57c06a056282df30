import Linkage.Hierarchy.Ancestry
import Linkage.Proofs.Hierarchy.Reach

/-!
# Ancestors and what a search for them takes

The ancestors of a class are the classes on its chain of superclasses, and the interfaces of the class, of
the chain and of these interfaces, as far as their names stand for classes.

* **`ChainName`**, **`InterfaceName`** — the names of the ancestors;
* **`ancestryWithin`**, **`yields_ancestryUpTo`** — what a search comes to, from the classes alone, on a
  class path that never fails;
* **`unseen`**, **`effort`** — what is left to do, which every step lessens;
* **`effort_start_le`** — it is within the bound of the search at the beginning.
-/

namespace Linkage

/-! ## Ancestors -/

/-- A name on the chain of superclasses of a class. -/
inductive ChainName (env : Setting) (c : ClassDefinition) : String → Prop where
  | parent {n : String} (hn : c.parent? = some n) : ChainName env c n
  | next {n n' : String} {d : ClassDefinition} (h : ChainName env c n)
      (hd : env.resolved n = some d) (hn : d.parent? = some n') : ChainName env c n'

/-- A name of an interface of a class, of its superclasses, or of one of these interfaces. -/
inductive InterfaceName (env : Setting) (c : ClassDefinition) : String → Prop where
  | own {n : String} (hn : n ∈ c.interfaces) : InterfaceName env c n
  | ofSuper {n n' : String} {d : ClassDefinition} (h : ChainName env c n)
      (hd : env.resolved n = some d) (hn : n' ∈ d.interfaces) : InterfaceName env c n'
  | ofInterface {n n' : String} {d : ClassDefinition} (h : InterfaceName env c n)
      (hd : env.resolved n = some d) (hn : n' ∈ d.interfaces) : InterfaceName env c n'

/-- A name of an ancestor. -/
def AncestorName (env : Setting) (c : ClassDefinition) (n : String) : Prop :=
  ChainName env c n ∨ InterfaceName env c n

/-- An ancestor that there is. -/
def AncestorOf (env : Setting) (c d : ClassDefinition) : Prop :=
  ∃ n, AncestorName env c n ∧ env.resolved n = some d

/-- An interface that an ancestor names. -/
theorem AncestorName.interface {env : Setting} {c d : ClassDefinition} {n n' : String}
    (h : AncestorName env c n) (hd : env.resolved n = some d) (hn : n' ∈ d.interfaces) :
    InterfaceName env c n' := by
  rcases h with h | h
  · exact .ofSuper h hd hn
  · exact .ofInterface h hd hn

/-! ## Searches without sessions -/

namespace Climb

/-- What following superclasses comes to. -/
def chained (env : Setting) : Nat → Option String → Climb → Climb
  | 0, _, k => k
  | _, none, k => k
  | bound + 1, some name, k =>
    if k.seen.contains name then k
    else
      match env.resolved name with
      | some d => chained env bound d.parent? ((k.see name).add d)
      | none => (k.see name).miss

/-- What following the waiting interfaces comes to. -/
def spread (env : Setting) : Nat → Climb → Climb
  | 0, k => k
  | bound + 1, k =>
    match k.interfaces with
    | [] => k
    | name :: rest =>
      let k := { k with interfaces := rest }
      if k.seen.contains name then spread env bound k
      else
        match env.resolved name with
        | some d => spread env bound ((k.see name).add d)
        | none => spread env bound (k.see name).miss

/-- The beginning of a search. -/
def start (c : ClassDefinition) : Climb := ⟨[], true, [c.name], c.interfaces.reverse⟩

end Climb

/-- A search for ancestors that follows at most `bound` superclasses and then `bound` interfaces. -/
def ancestryUpTo (env : Setting) (bound : Nat) (c : ClassDefinition) : Check Ancestry := do
  let k ← Climb.superclasses env bound c.parent? (Climb.start c)
  let k ← Climb.allInterfaces env bound k
  return ⟨k.found.reverse, k.complete⟩

theorem ancestry_eq (env : Setting) (c : ClassDefinition) :
    ancestry env c = ancestryUpTo env (climbBound env c) c := rfl

/-- How a search stands at its end. -/
def climbed (env : Setting) (bound : Nat) (c : ClassDefinition) : Climb :=
  Climb.spread env bound (Climb.chained env bound c.parent? (Climb.start c))

/-- What a search comes to. -/
def ancestryWithin (env : Setting) (bound : Nat) (c : ClassDefinition) : Ancestry :=
  ⟨(climbed env bound c).found.reverse, (climbed env bound c).complete⟩

section Yields

variable {env : Setting} (hpath : env.classpath.Reliable)
include hpath

theorem yields_superclasses (bound : Nat) (next : Option String) (k : Climb) :
    Yields env (Climb.superclasses env bound next k) (Climb.chained env bound next k) := by
  induction bound generalizing next k with
  | zero =>
      unfold Climb.superclasses Climb.chained
      exact .pure k
  | succ bound ih =>
      cases next with
      | none => exact .pure k
      | some name =>
          unfold Climb.superclasses Climb.chained
          split
          · exact .pure k
          · refine (Yields.resolve hpath name).bind ?_
            cases env.resolved name with
            | some d => exact ih _ _
            | none => exact .pure _

theorem yields_allInterfaces (bound : Nat) (k : Climb) :
    Yields env (Climb.allInterfaces env bound k) (Climb.spread env bound k) := by
  induction bound generalizing k with
  | zero => exact .pure k
  | succ bound ih =>
      unfold Climb.allInterfaces Climb.spread
      cases k.interfaces with
      | nil => exact .pure k
      | cons name rest =>
          simp only
          split
          · exact ih _
          · refine (Yields.resolve hpath name).bind ?_
            cases env.resolved name with
            | some d => exact ih _
            | none => exact ih _

theorem yields_ancestryUpTo (bound : Nat) (c : ClassDefinition) :
    Yields env (ancestryUpTo env bound c) (ancestryWithin env bound c) :=
  (yields_superclasses hpath _ _ _).bind ((yields_allInterfaces hpath _ _).bind (.pure _))

end Yields

/-! ## What is left to do -/

/-- The names that can come up in a search. -/
def namesFrom (env : Setting) (c : ClassDefinition) : List String :=
  c.parentNames ++ env.classpath.classes.flatMap ClassDefinition.parentNames

/-- How many of them have not been followed. -/
def unseen (env : Setting) (c : ClassDefinition) (seen : List String) : Nat :=
  (namesFrom env c).countP fun n => !seen.contains n

/-- How many interfaces are waiting or may still come to wait. -/
def effort (env : Setting) (c : ClassDefinition) (k : Climb) : Nat :=
  k.interfaces.length + unseen env c k.seen * env.classpath.links

section Bounds

variable {env : Setting} {c d : ClassDefinition}

theorem length_parentNames_le (c : ClassDefinition) :
    c.parentNames.length ≤ 1 + c.interfaces.length := by
  unfold ClassDefinition.parentNames
  rw [List.length_append]
  have hone := Option.length_toList_le (o := c.parent?)
  omega

/-- The class path counts the parents of its classes. -/
theorem length_flatMap_parentNames_le (path : Classpath) :
    (path.classes.flatMap ClassDefinition.parentNames).length ≤ path.links := by
  have hsum : ∀ (classes : List ClassDefinition) (n : Nat),
      n + (classes.flatMap ClassDefinition.parentNames).length ≤
        classes.foldl (fun n c => n + (1 + c.interfaces.length)) n := by
    intro classes
    induction classes with
    | nil => exact fun n => Nat.le_refl n
    | cons c rest ih =>
        intro n
        have hparents := length_parentNames_le c
        rw [List.flatMap_cons, List.length_append, List.foldl_cons]
        refine Nat.le_trans ?_ (ih _)
        omega
  have h := hsum path.classes 0
  rwa [Nat.zero_add] at h

/-- No class of the class path names more interfaces than all of them have parents. -/
theorem interfaces_le_links (hd : d ∈ env.classpath.classes) :
    d.interfaces.length ≤ env.classpath.links := by
  obtain ⟨before, after, hsplit⟩ := List.append_of_mem hd
  have hall := length_flatMap_parentNames_le env.classpath
  rw [hsplit, List.flatMap_append, List.flatMap_cons, List.length_append, List.length_append] at hall
  have hparents : d.parentNames.length = d.parent?.toList.length + d.interfaces.length :=
    List.length_append
  omega

theorem unseen_start_le (env : Setting) (c : ClassDefinition) (seen : List String) :
    unseen env c seen ≤ 1 + c.interfaces.length + env.classpath.links := by
  have hcount : unseen env c seen ≤ (namesFrom env c).length := List.countP_le_length
  have hparents := length_parentNames_le c
  have hall := length_flatMap_parentNames_le env.classpath
  have hlength : (namesFrom env c).length =
      c.parentNames.length + (env.classpath.classes.flatMap ClassDefinition.parentNames).length :=
    List.length_append
  omega

/-- Each name that is followed leaves one less. -/
theorem unseen_see {seen : List String} {name : String} (hname : name ∈ namesFrom env c)
    (hnew : name ∉ seen) : unseen env c (name :: seen) + 1 ≤ unseen env c seen := by
  obtain ⟨before, after, hsplit⟩ := List.append_of_mem hname
  have hfewer : ∀ l : List String,
      l.countP (fun n => !(name :: seen).contains n) ≤ l.countP fun n => !seen.contains n := by
    intro l
    refine List.countP_mono_left ?_
    intro n _ hn
    simp only [Bool.not_eq_true', List.contains_eq_mem, decide_eq_false_iff_not, List.mem_cons,
      not_or] at hn ⊢
    exact hn.2
  unfold unseen
  rw [hsplit, List.countP_append, List.countP_append, List.countP_cons_of_neg (by simp),
    List.countP_cons_of_pos (by simpa using hnew)]
  have hbefore := hfewer before
  have hafter := hfewer after
  omega

theorem not_mem_of_unseen {seen : List String} {name : String} (h : unseen env c seen = 0)
    (hname : name ∈ namesFrom env c) : name ∈ seen := by
  have hall := List.countP_eq_zero.mp h name hname
  simpa using hall

/-- The parents of a class that a name stands for can come up. -/
theorem mem_namesFrom {name n : String} (hd : env.resolved name = some d) (hn : n ∈ d.parentNames) :
    n ∈ namesFrom env c := by
  have hmem := Classpath.mem_classes_of_definition? (definition?_of_resolved hd)
  exact List.mem_append_right _ (List.mem_flatMap.mpr ⟨d, hmem, hn⟩)

theorem parent_mem_parentNames {n : String} (hn : c.parent? = some n) : n ∈ c.parentNames := by
  unfold ClassDefinition.parentNames
  rw [hn]
  exact List.mem_cons_self

theorem interface_mem_parentNames {n : String} (hn : n ∈ c.interfaces) : n ∈ c.parentNames :=
  List.mem_append_right _ hn

theorem AncestorName.mem_namesFrom {n : String} (h : AncestorName env c n) : n ∈ namesFrom env c := by
  rcases h with (hn | ⟨_, hd, hn⟩) | (hn | ⟨_, hd, hn⟩ | ⟨_, hd, hn⟩)
  · exact List.mem_append_left _ (parent_mem_parentNames hn)
  · exact Linkage.mem_namesFrom hd (parent_mem_parentNames hn)
  · exact List.mem_append_left _ (interface_mem_parentNames hn)
  · exact Linkage.mem_namesFrom hd (interface_mem_parentNames hn)
  · exact Linkage.mem_namesFrom hd (interface_mem_parentNames hn)

/-- The interfaces that come to wait for a new name are fewer than those that no longer may. -/
theorem effort_follow {k : Climb} {name : String} (hname : name ∈ namesFrom env c)
    (hnew : name ∉ k.seen) (hd : env.resolved name = some d) :
    effort env c ((k.see name).add d) ≤ effort env c k := by
  have hunseen := unseen_see hname hnew
  have hmem := Classpath.mem_classes_of_definition? (definition?_of_resolved hd)
  have hinterfaces := interfaces_le_links hmem
  have hlinks := Nat.mul_le_mul_right env.classpath.links hunseen
  rw [Nat.add_mul, Nat.one_mul] at hlinks
  show (d.interfaces.reverse ++ k.interfaces).length + unseen env c (name :: k.seen) * _ ≤ _
  rw [List.length_append, List.length_reverse]
  unfold effort
  omega

theorem effort_miss {k : Climb} {name : String} (hname : name ∈ namesFrom env c)
    (hnew : name ∉ k.seen) : effort env c (k.see name).miss ≤ effort env c k := by
  have hunseen : unseen env c (name :: k.seen) ≤ unseen env c k.seen :=
    Nat.le_of_succ_le (unseen_see hname hnew)
  exact Nat.add_le_add_left (Nat.mul_le_mul_right _ hunseen) _

theorem effort_start_le (env : Setting) (c : ClassDefinition) :
    effort env c (Climb.start c) ≤ climbBound env c := by
  have hunseen := unseen_start_le env c [c.name]
  have hlinks := Nat.mul_le_mul_right env.classpath.links hunseen
  unfold effort climbBound
  show c.interfaces.reverse.length + unseen env c [c.name] * _ ≤ _
  rw [List.length_reverse, Nat.mul_add, Nat.mul_one, Nat.add_mul]
  omega

theorem unseen_start_le_bound (env : Setting) (c : ClassDefinition) :
    unseen env c (Climb.start c).seen ≤ climbBound env c := by
  have hunseen := unseen_start_le env c [c.name]
  refine Nat.le_trans hunseen ?_
  unfold climbBound
  rw [Nat.mul_add, Nat.mul_one]
  omega

end Bounds

end Linkage

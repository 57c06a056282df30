import Linkage.Proofs.Hierarchy.Access
import Mathlib.Data.List.Nodup
import Mathlib.Data.List.Perm.Subperm

/-!
# Superclasses that are declared

Two searches follow the superclasses that classes declare, from name to name, and not those that they
have: a class that declares none ends them, although the root is its superclass.

* **`Ascent`** — a way up a chain of superclasses, past the classes that are nearer;
* **`isAbove_iff_chainName`**, **`isAbove_iff_walk`** — the chain that ancestries and walks follow;
* **`ascent_of_supersFrom`**, **`Ascent.followed_eq`** — what is followed is a way, and a way that is declared
  all along is followed;
* **`Ascent.followed_cut`** — a way that is not is left off before its end.
-/

namespace Linkage

variable {env : Setting} {up : ClassDefinition → Option String} {c d x : ClassDefinition}
  {nearer : List ClassDefinition}

/-- The superclass that a class has is the one that it declares, if it declares one. -/
theorem super_of_parent? {n : String} (hn : d.parent? = some n) (hdeclares : d.super ≠ none) :
    d.super = some n := by
  unfold ClassDefinition.parent? at hn
  split at hn
  · next name hname => exact hname.trans hn
  · next hnone => exact absurd hnone hdeclares

/-! ## Ways up -/

/-- A way up from a class to another one, by the superclass that each class has according to `up`. The
classes `nearer` lie between them. -/
inductive Ascent (env : Setting) (up : ClassDefinition → Option String) :
    ClassDefinition → List ClassDefinition → ClassDefinition → Prop where
  | last {c x : ClassDefinition} {n : String} (hn : up c = some n) (hx : env.resolved n = some x) :
      Ascent env up c [] x
  | next {c d x : ClassDefinition} {n : String} {nearer : List ClassDefinition} (hn : up c = some n)
      (hd : env.resolved n = some d) (h : Ascent env up d nearer x) : Ascent env up c (d :: nearer) x

namespace Ascent

theorem snoc (h : Ascent env up c nearer d) {n : String} (hn : up d = some n)
    (hx : env.resolved n = some x) : Ascent env up c (nearer ++ [d]) x := by
  induction h with
  | last hn' hd => exact .next hn' hd (.last hn hx)
  | next hn' hd _ ih => exact .next hn' hd (ih hn)

/-- The rest of a way, from a class on it. -/
theorem onward {front back : List ClassDefinition} (h : Ascent env up c (front ++ d :: back) x) :
    Ascent env up d back x := by
  induction front generalizing c with
  | nil =>
      cases h with
      | next _ _ h => exact h
  | cons e front ih =>
      cases h with
      | next _ _ h => exact ih h

/-- The beginning of a way, up to a class on it. -/
theorem upTo {front back : List ClassDefinition} (h : Ascent env up c (front ++ d :: back) x) :
    Ascent env up c front d := by
  induction front generalizing c with
  | nil =>
      cases h with
      | next hn hd _ => exact .last hn hd
  | cons e front ih =>
      cases h with
      | next hn he h => exact .next hn he (ih h)

/-- There is a way that comes to no class twice, past no others. -/
theorem exists_once (h : Ascent env up c nearer x) :
    ∃ nearer', Ascent env up c nearer' x ∧ (nearer' ++ [x]).Nodup ∧ nearer' ⊆ nearer := by
  induction h with
  | last hn hx => exact ⟨[], .last hn hx, List.nodup_singleton _, List.nil_subset _⟩
  | @next c d x n nearer hn hd _ ih =>
      obtain ⟨nearer', hway, honce, hsub⟩ := ih
      by_cases hmem : d ∈ nearer' ++ [x]
      · -- the way comes back to `d`, and goes on from there
        rcases List.mem_append.mp hmem with hmem | hmem
        · obtain ⟨front, back, rfl⟩ := List.append_of_mem hmem
          rw [List.append_assoc] at honce
          refine ⟨d :: back, .next hn hd hway.onward, (List.nodup_append.mp honce).2.1, ?_⟩
          exact List.cons_subset_cons d fun e he =>
            hsub (List.mem_append_right front (List.mem_cons_of_mem d he))
        · obtain rfl := List.mem_singleton.mp hmem
          exact ⟨[], .last hn hd, List.nodup_singleton _, List.nil_subset _⟩
      · exact ⟨d :: nearer', .next hn hd hway, List.nodup_cons.mpr ⟨hmem, honce⟩,
          List.cons_subset_cons d hsub⟩

/-- A way does not leave classes that steps do not lead out of. -/
theorem mem_of_closed {passed : List ClassDefinition} (h : Ascent env up c nearer x)
    (hclosed : ∀ d ∈ c :: passed, ∀ n e, up d = some n → env.resolved n = some e → e ∈ passed) :
    x ∈ passed := by
  induction h with
  | last hn hx => exact hclosed _ List.mem_cons_self _ _ hn hx
  | @next c d x n nearer hn hd _ ih =>
      have hmem : d ∈ passed := hclosed c List.mem_cons_self n d hn hd
      refine ih ?_
      rintro e (_ | ⟨_, he⟩)
      · exact hclosed d (List.mem_cons_of_mem c hmem)
      · exact hclosed e (List.mem_cons_of_mem c he)

/-- All classes of a way but its start are those of the class path. -/
theorem mem_classes (h : Ascent env up c nearer x) :
    ∀ d ∈ nearer ++ [x], d ∈ env.classpath.classes := by
  induction h with
  | last _ hx =>
      intro d hd
      rw [List.mem_singleton.mp hd]
      exact Classpath.mem_classes_of_definition? (definition?_of_resolved hx)
  | next _ hd _ ih =>
      rintro e (_ | ⟨_, he⟩)
      · exact Classpath.mem_classes_of_definition? (definition?_of_resolved hd)
      · exact ih e he

/-- A way that comes to no class twice is no longer than the class path is large. -/
theorem length_lt_size (h : Ascent env up c nearer x) (honce : (nearer ++ [x]).Nodup) :
    nearer.length < env.classpath.size := by
  have hle := (List.subperm_of_subset honce h.mem_classes).length_le
  rw [List.length_append, List.length_singleton] at hle
  exact hle

/-- The last step of a way. -/
theorem exists_last (h : Ascent env up c nearer x) :
    ∃ d ∈ c :: nearer, ∃ n, up d = some n ∧ env.resolved n = some x := by
  induction h with
  | last hn hx => exact ⟨_, List.mem_cons_self, _, hn, hx⟩
  | next _ _ _ ih =>
      obtain ⟨d, hd, hlast⟩ := ih
      exact ⟨d, List.mem_cons_of_mem _ hd, hlast⟩

/-- A way by superclasses that are declared all along. -/
theorem declared (h : Ascent env ClassDefinition.parent? c nearer x)
    (hall : ∀ d ∈ c :: nearer, d.super ≠ none) : Ascent env ClassDefinition.super c nearer x := by
  induction h with
  | last hn hx => exact .last (super_of_parent? hn (hall _ List.mem_cons_self)) hx
  | next hn hd _ ih =>
      exact .next (super_of_parent? hn (hall _ List.mem_cons_self)) hd
        (ih fun e he => hall e (List.mem_cons_of_mem _ he))

end Ascent

/-! ## The chain of superclasses -/

/-- A class is on the chain of superclasses of another one. -/
def IsAbove (env : Setting) (c x : ClassDefinition) : Prop :=
  ∃ nearer, Ascent env ClassDefinition.parent? c nearer x

/-- From any class of the chain a way goes on along the chain. -/
theorem Ascent.exists_chainName (h : Ascent env ClassDefinition.parent? d nearer x)
    (hchain : ∀ n, d.parent? = some n → ChainName env c n) :
    ∃ n, ChainName env c n ∧ env.resolved n = some x := by
  induction h with
  | last hn hx => exact ⟨_, hchain _ hn, hx⟩
  | next hn hd _ ih => exact ih fun n' hn' => .next (hchain _ hn) hd hn'

/-- These are the classes that the names on the chain stand for, which the search for ancestors follows. -/
theorem isAbove_iff_chainName :
    IsAbove env c x ↔ ∃ n, ChainName env c n ∧ env.resolved n = some x := by
  constructor
  · rintro ⟨nearer, h⟩
    exact h.exists_chainName fun n hn => .parent hn
  · rintro ⟨n, hn, hx⟩
    induction hn generalizing x with
    | parent hn => exact ⟨[], .last hn hx⟩
    | @next n n' d _ hd hn ih =>
        obtain ⟨nearer, h⟩ := ih hd
        exact ⟨nearer ++ [d], h.snoc hn hx⟩

/-- They are also those that a walker reaches that follows no interfaces. -/
theorem isAbove_iff_walk : IsAbove env c x ↔ Relation.TransGen (ParentOf env false) c x := by
  have hparent : ∀ {c d : ClassDefinition}, ParentOf env false c d ↔
      ∃ n, c.parent? = some n ∧ env.resolved n = some d := by
    intro c d
    unfold ParentOf Walker.parents Walker.fresh
    simp
  constructor
  · rintro ⟨nearer, h⟩
    induction h with
    | last hn hx => exact .single (hparent.mpr ⟨_, hn, hx⟩)
    | next hn hd _ ih => exact .head (hparent.mpr ⟨_, hn, hd⟩) ih
  · intro h
    induction h with
    | single h =>
        obtain ⟨n, hn, hx⟩ := hparent.mp h
        exact ⟨[], .last hn hx⟩
    | @tail d x _ h ih =>
        obtain ⟨nearer, hway⟩ := ih
        obtain ⟨n, hn, hx⟩ := hparent.mp h
        exact ⟨nearer ++ [d], hway.snoc hn hx⟩

/-- What the search for ancestors finds before it turns to interfaces is on the chain. -/
theorem isAbove_of_chained {bound : Nat}
    (h : x ∈ (Climb.chained env bound c.parent? (Climb.start c)).found) : IsAbove env c x := by
  have hfound : ∀ {bound next k}, (∀ n, next = some n → ChainName env c n) →
      (∀ d ∈ k.found, IsAbove env c d) → ∀ d ∈ (Climb.chained env bound next k).found,
        IsAbove env c d := by
    intro bound
    induction bound with
    | zero => exact fun _ hk => hk
    | succ bound ih =>
        intro next k hnext hk
        unfold Climb.chained
        cases next with
        | none => exact hk
        | some name =>
            simp only
            split
            · exact hk
            · cases hd : env.resolved name with
              | none => exact hk
              | some d =>
                  have hname := hnext name rfl
                  refine ih (fun n hn => .next hname hd hn) ?_
                  rintro e (_ | ⟨_, he⟩)
                  · exact isAbove_iff_chainName.mpr ⟨name, hname, hd⟩
                  · exact hk e he
  exact hfound (fun n hn => .parent hn) (fun d hd => nomatch (hd : d ∈ [])) x h

/-! ## Ways that are followed -/

/-- The classes whose names are followed from a declared superclass. -/
def supersFrom (env : Setting) (bound : Nat) (seen : List String) (next : Option String) :
    List ClassDefinition :=
  (followed env bound seen next).filterMap env.resolved

/-- The classes that are followed lie on a way. -/
theorem ascent_of_supersFrom {front back : List ClassDefinition} (bound : Nat) (seen : List String)
    (h : supersFrom env bound seen c.super = front ++ x :: back) :
    Ascent env ClassDefinition.super c front x := by
  unfold supersFrom at h
  induction bound generalizing c seen front with
  | zero =>
      unfold followed at h
      cases front <;> cases h
  | succ bound ih =>
      cases hsuper : c.super with
      | none =>
          rw [hsuper, followed_none] at h
          cases front <;> cases h
      | some n =>
          by_cases hseen : n ∈ seen
          · unfold followed at h
            rw [hsuper] at h
            simp only [List.contains_iff_mem.mpr hseen, if_true] at h
            cases front <;> cases h
          · rw [hsuper, followed_new hseen, List.filterMap_cons] at h
            cases hd : env.resolved n with
            | none =>
                rw [hd, Option.bind_none, followed_none] at h
                cases front <;> cases h
            | some d =>
                rw [hd, Option.bind_some] at h
                cases front with
                | nil =>
                    obtain ⟨rfl, -⟩ := List.cons.inj h
                    exact .last hsuper hd
                | cons e front =>
                    obtain ⟨rfl, hrest⟩ := List.cons.inj h
                    exact .next hsuper hd (ih (n :: seen) hrest)

/-- A name that comes up stands for a class of the way, and no name does that was seen before. -/
theorem not_mem_seen {seen : List String} {name : String}
    (hseen : ∀ n ∈ seen, ∀ d ∈ nearer ++ [x], env.resolved n ≠ some d)
    (hd : d ∈ nearer ++ [x]) (hname : env.resolved name = some d) : name ∉ seen :=
  fun hmem => hseen name hmem d hd hname

/-- A way that is declared all along, and comes to no class twice, is followed. -/
theorem Ascent.followed_eq (bound : Nat) (seen : List String)
    (h : Ascent env ClassDefinition.super c nearer x) (honce : (nearer ++ [x]).Nodup)
    (hseen : ∀ n ∈ seen, ∀ d ∈ nearer ++ [x], env.resolved n ≠ some d)
    (hbound : nearer.length < bound) :
    (∀ d ∈ c :: nearer, ∀ n, d.super = some n → n ∈ followed env bound seen c.super) ∧
      ∃ rest, supersFrom env bound seen c.super = nearer ++ x :: rest := by
  unfold supersFrom
  induction h generalizing bound seen with
  | @last c x n hn hx =>
      obtain ⟨bound, rfl⟩ := Nat.exists_eq_add_of_lt hbound
      rw [hn, followed_new (not_mem_seen hseen List.mem_cons_self hx), List.filterMap_cons, hx]
      refine ⟨?_, _, rfl⟩
      intro d hd n' hn'
      rw [List.mem_singleton.mp hd, hn] at hn'
      rw [← Option.some.inj hn']
      exact List.mem_cons_self
  | @next c d x n nearer hn hd _ ih =>
      obtain ⟨bound, rfl⟩ := Nat.exists_eq_add_of_lt hbound
      rw [hn, followed_new (not_mem_seen hseen List.mem_cons_self hd), hd, List.filterMap_cons, hd]
      obtain ⟨hdistinct, honce⟩ := List.nodup_cons.mp honce
      have hrest : ∀ m ∈ n :: seen, ∀ e ∈ nearer ++ [x], env.resolved m ≠ some e := by
        rintro m (_ | ⟨_, hm⟩) e he
        · rw [hd]
          rintro ⟨⟩
          exact hdistinct he
        · exact hseen m hm e (List.mem_cons_of_mem _ he)
      obtain ⟨hnames, rest, hclasses⟩ := ih ((d :: nearer).length + bound) (n :: seen) honce
        hrest (by simp only [List.length_cons]; omega)
      refine ⟨?_, rest, congrArg (d :: ·) hclasses⟩
      rintro e (_ | ⟨_, he⟩) n' hn'
      · rw [hn] at hn'
        rw [← Option.some.inj hn']
        exact List.mem_cons_self
      · exact List.mem_cons_of_mem _ (hnames e he n' hn')

/-- On a way that is not declared all along, no class is followed but those that come before. -/
theorem Ascent.followed_cut (bound : Nat) (seen : List String)
    (h : Ascent env ClassDefinition.parent? c nearer x) (hnone : ∃ d ∈ c :: nearer, d.super = none) :
    supersFrom env bound seen c.super <+: nearer := by
  unfold supersFrom
  induction h generalizing bound seen with
  | last _ _ =>
      obtain ⟨d, hd, hnone⟩ := hnone
      rw [← List.mem_singleton.mp hd, hnone]
      rw [followed_none]
      exact List.nil_prefix
  | @next c d x n nearer hn hd _ ih =>
      cases hsuper : c.super with
      | none =>
          rw [followed_none]
          exact List.nil_prefix
      | some name =>
          obtain rfl : name = n := by
            have hn := super_of_parent? hn (by rw [hsuper]; exact nofun)
            rw [hsuper] at hn
            exact Option.some.inj hn
          have hrest : ∃ e ∈ d :: nearer, e.super = none := by
            obtain ⟨e, he, hnone⟩ := hnone
            rcases List.mem_cons.mp he with rfl | he
            · rw [hsuper] at hnone
              cases hnone
            · exact ⟨e, he, hnone⟩
          cases bound with
          | zero => exact List.nil_prefix
          | succ bound =>
              unfold followed
              split
              · exact List.nil_prefix
              · rw [hd, List.filterMap_cons, hd]
                exact List.prefix_cons_inj d |>.mpr (ih bound (name :: seen) hrest)

end Linkage

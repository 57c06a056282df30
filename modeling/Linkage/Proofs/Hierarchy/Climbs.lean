import Linkage.Proofs.Hierarchy.Ancestors

/-!
# The search for ancestors

On a class path that never fails, the search for the ancestors of a class finds all that there are, and
knows whether one of them is missing, however the names lead back to each other.

* **`Climbing`** — what has been found at any time, kept by each step;
* **`Climbing.chained`**, **`Climbing.spread`** — the two parts of a search, each to its end;
* **`mem_ancestry`**, **`complete_ancestry`** — what has been found in the end;
* **`ancestryWithin_enough`** — the search ends by itself and not because of its bound.

A search never follows the name of the class that it starts from. That loses nothing if the name, where it
comes up, stands for the class.
-/

namespace Linkage

/-! ## What has been found -/

/-- A search under way. The name of the class that it starts from counts as followed from the
beginning. -/
structure Climbing (env : Setting) (c : ClassDefinition) (k : Climb) : Prop where
  self : c.name ∈ k.seen
  seen : ∀ n ∈ k.seen, n = c.name ∨ AncestorName env c n
  found : ∀ d, d ∈ k.found ↔ ∃ n ∈ k.seen, n ≠ c.name ∧ env.resolved n = some d
  complete : k.complete = true ↔ ∀ n ∈ k.seen, n ≠ c.name → env.resolved n ≠ none
  waiting : ∀ n ∈ k.interfaces, InterfaceName env c n
  /-- The interfaces of what has been found have been followed, or wait. -/
  interfaces : ∀ d, d = c ∨ d ∈ k.found → ∀ n ∈ d.interfaces, n ∈ k.seen ∨ n ∈ k.interfaces

section Climbing

variable {env : Setting} {c d : ClassDefinition} {k : Climb} {name : String}

theorem climbing_start (env : Setting) (c : ClassDefinition) : Climbing env c (Climb.start c) := by
  refine ⟨List.mem_cons_self, ?_, ?_, ?_, ?_, ?_⟩
  · intro n hn
    exact Or.inl (List.mem_singleton.mp hn)
  · intro d
    simp [Climb.start]
  · simp [Climb.start]
  · intro n hn
    exact .own (List.mem_reverse.mp hn)
  · rintro d (rfl | hd) n hn
    · exact Or.inr (List.mem_reverse.mpr hn)
    · cases hd

/-- A new name that stands for a class. -/
theorem Climbing.follow (h : Climbing env c k) (hname : AncestorName env c name)
    (hnew : name ∉ k.seen) (hd : env.resolved name = some d) :
    Climbing env c ((k.see name).add d) := by
  have hne : name ≠ c.name := fun heq => hnew (heq ▸ h.self)
  refine ⟨List.mem_cons_of_mem _ h.self, ?_, ?_, ?_, ?_, ?_⟩
  · intro n hn
    rcases List.mem_cons.mp hn with rfl | hn
    · exact Or.inr hname
    · exact h.seen n hn
  · intro e
    show e ∈ d :: k.found ↔ ∃ n ∈ name :: k.seen, _
    rw [List.mem_cons, h.found, List.exists_mem_cons_iff, hd]
    simp [hne, eq_comm]
  · show k.complete = true ↔ ∀ n ∈ name :: k.seen, _
    rw [h.complete, List.forall_mem_cons, hd]
    simp
  · intro n hn
    rcases List.mem_append.mp hn with hn | hn
    · exact hname.interface hd (List.mem_reverse.mp hn)
    · exact h.waiting n hn
  · intro e he n hn
    show n ∈ name :: k.seen ∨ n ∈ d.interfaces.reverse ++ k.interfaces
    rw [List.mem_cons, List.mem_append, List.mem_reverse]
    rcases he with he | he
    · exact (h.interfaces e (Or.inl he) n hn).imp Or.inr Or.inr
    · rcases List.mem_cons.mp he with rfl | he
      · exact Or.inr (Or.inl hn)
      · exact (h.interfaces e (Or.inr he) n hn).imp Or.inr Or.inr

/-- A new name that stands for no class. -/
theorem Climbing.miss (h : Climbing env c k) (hname : AncestorName env c name)
    (hnew : name ∉ k.seen) (hnone : env.resolved name = none) :
    Climbing env c (k.see name).miss := by
  have hne : name ≠ c.name := fun heq => hnew (heq ▸ h.self)
  refine ⟨List.mem_cons_of_mem _ h.self, ?_, ?_, ?_, h.waiting, ?_⟩
  · intro n hn
    rcases List.mem_cons.mp hn with rfl | hn
    · exact Or.inr hname
    · exact h.seen n hn
  · intro e
    show e ∈ k.found ↔ ∃ n ∈ name :: k.seen, _
    rw [h.found, List.exists_mem_cons_iff, hnone]
    simp
  · show false = true ↔ ∀ n ∈ name :: k.seen, _
    rw [List.forall_mem_cons, hnone]
    simp [hne]
  · intro e he n hn
    exact (h.interfaces e he n hn).imp_left (List.mem_cons_of_mem _)

/-- A name that has been followed need not wait. -/
theorem Climbing.pass (h : Climbing env c k) (new : List String) {rest : List String} (hseen : name ∈ k.seen)
    (hwaiting : k.interfaces = new ++ name :: rest) :
    Climbing env c { k with interfaces := new ++ rest } where
  self := h.self
  seen := h.seen
  found := h.found
  complete := h.complete
  waiting n hn := by
    refine h.waiting n ?_
    rw [hwaiting]
    exact (List.Sublist.append_left (List.sublist_cons_self name rest) new).subset hn
  interfaces d hd n hn := by
    have hkept := h.interfaces d hd n hn
    rw [hwaiting, List.mem_append, List.mem_cons] at hkept
    rw [List.mem_append]
    rcases hkept with hkept | hkept | rfl | hkept
    · exact Or.inl hkept
    · exact Or.inr (Or.inl hkept)
    · exact Or.inl hseen
    · exact Or.inr (Or.inr hkept)

/-- Each name that is taken from those that wait leaves less to do. -/
theorem effort_pass {rest : List String} (hwaiting : k.interfaces = name :: rest) :
    effort env c { k with interfaces := rest } + 1 = effort env c k := by
  unfold effort
  rw [hwaiting, List.length_cons]
  simp only
  omega

/-- The parents of what has been found have been followed, but perhaps for the one that is next. -/
def ChainedTo (c : ClassDefinition) (k : Climb) (next : Option String) : Prop :=
  ∀ d, d = c ∨ d ∈ k.found → ∀ n, d.parent? = some n → n ∈ k.seen ∨ next = some n

theorem chainedTo_start : ChainedTo c (Climb.start c) c.parent? := by
  rintro d (rfl | hd) n hn
  · exact Or.inr hn
  · cases hd

/-- When the next name has been followed, so have all parents of what had been found before. -/
theorem ChainedTo.see (h : ChainedTo c k (some name)) (hd : d = c ∨ d ∈ k.found) {n : String}
    (hn : d.parent? = some n) : n ∈ name :: k.seen := by
  rcases h d hd n hn with hseen | heq
  · exact List.mem_cons_of_mem _ hseen
  · injection heq with heq
    exact heq ▸ List.mem_cons_self

theorem ChainedTo.known (h : ChainedTo c k (some name)) (hseen : name ∈ k.seen) :
    ChainedTo c k none := by
  intro d hd n hn
  left
  rcases List.mem_cons.mp (h.see hd hn) with rfl | hmem
  · exact hseen
  · exact hmem

theorem ChainedTo.miss (h : ChainedTo c k (some name)) : ChainedTo c (k.see name).miss none :=
  fun _ hd _ hn => Or.inl (h.see hd hn)

theorem ChainedTo.follow (h : ChainedTo c k (some name)) (d : ClassDefinition) :
    ChainedTo c ((k.see name).add d) d.parent? := by
  rintro e (rfl | he) n hn
  · exact Or.inl (h.see (Or.inl rfl) hn)
  · rcases List.mem_cons.mp he with rfl | he
    · exact Or.inr hn
    · exact Or.inl (h.see (Or.inr he) hn)

/-- Superclasses are followed to the end. -/
theorem Climbing.chained (h : Climbing env c k) (next : Option String) {bound : Nat}
    (hnext : ∀ n, next = some n → ChainName env c n) (hchained : ChainedTo c k next)
    (hbound : unseen env c k.seen ≤ bound) :
    Climbing env c (Climb.chained env bound next k) ∧
      ChainedTo c (Climb.chained env bound next k) none ∧
      effort env c (Climb.chained env bound next k) ≤ effort env c k := by
  induction bound generalizing next k with
  | zero =>
      -- every name that can come up has been followed
      unfold Climb.chained
      refine ⟨h, ?_, Nat.le_refl _⟩
      intro d hd n hn
      refine Or.inl ((hchained d hd n hn).elim id fun heq => ?_)
      exact not_mem_of_unseen (Nat.le_zero.mp hbound)
        (AncestorName.mem_namesFrom (Or.inl (hnext n heq)))
  | succ bound ih =>
      cases next with
      | none => exact ⟨h, hchained, Nat.le_refl _⟩
      | some name =>
          have hname : ChainName env c name := hnext name rfl
          unfold Climb.chained
          split
          · rename_i hseen
            exact ⟨h, hchained.known (List.contains_iff_mem.mp hseen), Nat.le_refl _⟩
          · rename_i hnot
            have hnew : name ∉ k.seen := fun hmem => hnot (List.contains_iff_mem.mpr hmem)
            have hmem := AncestorName.mem_namesFrom (Or.inl hname)
            have hunseen := unseen_see hmem hnew
            cases hd : env.resolved name with
            | none => exact ⟨h.miss (Or.inl hname) hnew hd, hchained.miss, effort_miss hmem hnew⟩
            | some d =>
                obtain ⟨hclimbing, hend, heffort⟩ := ih (h.follow (Or.inl hname) hnew hd) d.parent?
                  (fun n hn => .next hname hd hn) (hchained.follow d)
                  (by show unseen env c (name :: k.seen) ≤ bound; omega)
                exact ⟨hclimbing, hend, Nat.le_trans heffort (effort_follow hmem hnew hd)⟩

/-- Interfaces are followed until none is waiting. -/
theorem Climbing.spread (h : Climbing env c k) {bound : Nat} (hbound : effort env c k ≤ bound) :
    Climbing env c (Climb.spread env bound k) ∧ (Climb.spread env bound k).interfaces = [] ∧
      ∀ n ∈ k.seen, n ∈ (Climb.spread env bound k).seen := by
  induction bound generalizing k with
  | zero =>
      have hnone : k.interfaces.length = 0 := by
        unfold effort at hbound
        omega
      exact ⟨h, List.length_eq_zero_iff.mp hnone, fun n hn => hn⟩
  | succ bound ih =>
      unfold Climb.spread
      split
      · rename_i hnone
        exact ⟨h, hnone, fun n hn => hn⟩
      · rename_i name rest hwaiting
        have hname : InterfaceName env c name := h.waiting name (hwaiting ▸ List.mem_cons_self)
        have heffort : effort env c { k with interfaces := rest } + 1 = effort env c k :=
          effort_pass hwaiting
        simp only
        split
        · rename_i hseen
          exact ih (h.pass [] (List.contains_iff_mem.mp hseen) hwaiting) (by omega)
        · -- the name is taken from those that wait when it has been followed
          rename_i hnot
          have hnew : name ∉ k.seen := fun hmem => hnot (List.contains_iff_mem.mpr hmem)
          have hmem := AncestorName.mem_namesFrom (Or.inr hname)
          cases hd : env.resolved name with
          | none =>
              have hmissed := (h.miss (Or.inr hname) hnew hd).pass [] List.mem_cons_self hwaiting
              have hless := effort_miss (k := { k with interfaces := rest }) hmem hnew
              obtain ⟨hclimbing, hend, hkept⟩ := ih hmissed (by
                show effort env c (Climb.see { k with interfaces := rest } name).miss ≤ bound
                omega)
              exact ⟨hclimbing, hend, fun n hn => hkept n (List.mem_cons_of_mem _ hn)⟩
          | some d =>
              have hlist : ((k.see name).add d).interfaces =
                  d.interfaces.reverse ++ name :: rest :=
                congrArg (d.interfaces.reverse ++ ·) hwaiting
              have hfollowed := (h.follow (Or.inr hname) hnew hd).pass d.interfaces.reverse
                List.mem_cons_self hlist
              have hless := effort_follow (k := { k with interfaces := rest }) hmem hnew hd
              obtain ⟨hclimbing, hend, hkept⟩ := ih hfollowed (by
                show effort env c ((Climb.see { k with interfaces := rest } name).add d) ≤ bound
                omega)
              exact ⟨hclimbing, hend, fun n hn => hkept n (List.mem_cons_of_mem _ hn)⟩

/-- The chain of a search that has followed it has been followed as a whole, if the name of the class that it
starts from stands for it where it comes up. -/
theorem Climbing.chain_seen (h : Climbing env c k) (hchained : ChainedTo c k none)
    (hself : ChainName env c c.name → env.resolved c.name = some c) {n : String}
    (hn : ChainName env c n) : n ∈ k.seen := by
  have hparent : ∀ d, d = c ∨ d ∈ k.found → ∀ n, d.parent? = some n → n ∈ k.seen :=
    fun d hd n hn => (hchained d hd n hn).resolve_right nofun
  induction hn with
  | parent hn => exact hparent c (Or.inl rfl) _ hn
  | @next n n' d hname hd hn ih =>
      refine hparent d ?_ n' hn
      by_cases heq : n = c.name
      · rw [heq] at hname hd
        exact Or.inl (Option.some.inj (hd.symm.trans (hself hname)))
      · exact Or.inr ((h.found d).mpr ⟨n, ih, heq, hd⟩)

/-- So have all names of ancestors when no interface is waiting. -/
theorem Climbing.ancestor_seen (h : Climbing env c k) (hdone : k.interfaces = [])
    (hchain : ∀ n, ChainName env c n → n ∈ k.seen)
    (hself : AncestorName env c c.name → env.resolved c.name = some c) {n : String}
    (hn : AncestorName env c n) : n ∈ k.seen := by
  have hinterface : ∀ d, d = c ∨ d ∈ k.found → ∀ n ∈ d.interfaces, n ∈ k.seen := by
    intro d hd n hn
    refine (h.interfaces d hd n hn).resolve_right ?_
    rw [hdone]
    exact nofun
  have hstands : ∀ n d, AncestorName env c n → n ∈ k.seen → env.resolved n = some d →
      d = c ∨ d ∈ k.found := by
    intro n d hname hseen hd
    by_cases heq : n = c.name
    · rw [heq] at hname hd
      exact Or.inl (Option.some.inj (hd.symm.trans (hself hname)))
    · exact Or.inr ((h.found d).mpr ⟨n, hseen, heq, hd⟩)
  rcases hn with hn | hn
  · exact hchain n hn
  · induction hn with
    | own hn => exact hinterface c (Or.inl rfl) _ hn
    | @ofSuper n n' d hname hd hn =>
        exact hinterface d (hstands n d (Or.inl hname) (hchain n hname) hd) n' hn
    | @ofInterface n n' d hname hd hn ih =>
        exact hinterface d (hstands n d (Or.inr hname) ih hd) n' hn

/-- A search ends with all names of ancestors followed. -/
theorem climbing_climbed (hself : AncestorName env c c.name → env.resolved c.name = some c)
    {bound : Nat} (hbound : climbBound env c ≤ bound) :
    Climbing env c (climbed env bound c) ∧
      ∀ n, AncestorName env c n → n ∈ (climbed env bound c).seen := by
  obtain ⟨hchain, hend, heffort⟩ := (climbing_start env c).chained
    c.parent? (fun n hn => .parent hn) chainedTo_start
    (Nat.le_trans (unseen_start_le_bound env c) hbound)
  have hleft := Nat.le_trans heffort (Nat.le_trans (effort_start_le env c) hbound)
  obtain ⟨hclimbing, hdone, hkept⟩ := hchain.spread hleft
  refine ⟨hclimbing, fun n hn => hclimbing.ancestor_seen hdone ?_ hself hn⟩
  exact fun n hn => hkept n (hchain.chain_seen hend (fun h => hself (Or.inl h)) hn)

end Climbing

/-! ## The ancestry of a class -/

section Ends

variable {env : Setting} {c : ClassDefinition} {k : Climb} {bound : Nat}

/-- A chain that has been followed to its end is not followed further. -/
theorem chained_enough {next : Option String} (hnext : ∀ n, next = some n → n ∈ namesFrom env c)
    (hbound : unseen env c k.seen ≤ bound) :
    Climb.chained env (bound + 1) next k = Climb.chained env bound next k := by
  induction bound generalizing next k with
  | zero =>
      cases next with
      | none => rfl
      | some name =>
          have hseen := not_mem_of_unseen (Nat.le_zero.mp hbound) (hnext name rfl)
          unfold Climb.chained
          rw [if_pos (List.contains_iff_mem.mpr hseen)]
  | succ bound ih =>
      cases next with
      | none => rfl
      | some name =>
          rw [Climb.chained, Climb.chained]
          split
          · rfl
          · rename_i hnot
            have hnew : name ∉ k.seen := fun hmem => hnot (List.contains_iff_mem.mpr hmem)
            have hunseen := unseen_see (hnext name rfl) hnew
            cases hd : env.resolved name with
            | none => rfl
            | some d =>
                refine ih (fun n hn => mem_namesFrom hd (parent_mem_parentNames hn)) ?_
                show unseen env c (name :: k.seen) ≤ bound
                omega

/-- Where no interface is waiting, none is followed. -/
theorem spread_enough (hdone : (Climb.spread env bound k).interfaces = []) :
    Climb.spread env (bound + 1) k = Climb.spread env bound k := by
  induction bound generalizing k with
  | zero =>
      have hnone : k.interfaces = [] := hdone
      simp only [Climb.spread, hnone]
  | succ bound ih =>
      unfold Climb.spread at hdone
      rw [Climb.spread, Climb.spread]
      cases hwaiting : k.interfaces with
      | nil => rfl
      | cons name rest =>
          rw [hwaiting] at hdone
          simp only at hdone ⊢
          split
          · rename_i hseen
            rw [if_pos hseen] at hdone
            exact ih hdone
          · rename_i hnot
            rw [if_neg hnot] at hdone
            cases hd : env.resolved name with
            | none =>
                rw [hd] at hdone
                exact ih hdone
            | some d =>
                rw [hd] at hdone
                exact ih hdone

/-- A search that may go on for longer comes to the same. -/
theorem ancestryWithin_enough (hbound : climbBound env c ≤ bound) :
    ancestryWithin env bound c = ancestryWithin env (climbBound env c) c := by
  induction hbound with
  | refl => rfl
  | @step bound hbound ih =>
      have hunseen := Nat.le_trans (unseen_start_le_bound env c) hbound
      have hchained : Climb.chained env (bound + 1) c.parent? (Climb.start c) =
          Climb.chained env bound c.parent? (Climb.start c) :=
        chained_enough (fun n hn => List.mem_append_left _ (parent_mem_parentNames hn)) hunseen
      obtain ⟨hchain, -, heffort⟩ := (climbing_start env c).chained c.parent?
        (fun n hn => .parent hn) chainedTo_start hunseen
      have hleft := Nat.le_trans heffort (Nat.le_trans (effort_start_le env c) hbound)
      have hclimbed : climbed env (bound + 1) c = climbed env bound c := by
        unfold climbed
        rw [hchained]
        exact spread_enough (hchain.spread hleft).2.1
      unfold ancestryWithin at ih ⊢
      rw [hclimbed]
      exact ih

end Ends

section Ancestry

variable {env : Setting} {c : ClassDefinition}
  (hself : AncestorName env c c.name → env.resolved c.name = some c) {bound : Nat}
  (hbound : climbBound env c ≤ bound)
include hself hbound

/-- What is found are ancestors, and all but perhaps the class itself. -/
theorem mem_ancestry (d : ClassDefinition) :
    (d ∈ (ancestryWithin env bound c).classes → AncestorOf env c d) ∧
      (AncestorOf env c d → d = c ∨ d ∈ (ancestryWithin env bound c).classes) := by
  obtain ⟨hclimbing, hall⟩ := climbing_climbed hself hbound
  have hmem : d ∈ (ancestryWithin env bound c).classes ↔ d ∈ (climbed env bound c).found :=
    List.mem_reverse
  rw [hmem, hclimbing.found]
  constructor
  · rintro ⟨n, hseen, hne, hd⟩
    exact ⟨n, (hclimbing.seen n hseen).resolve_left hne, hd⟩
  · rintro ⟨n, hn, hd⟩
    by_cases heq : n = c.name
    · rw [heq] at hn hd
      exact Or.inl (Option.some.inj (hd.symm.trans (hself hn)))
    · exact Or.inr ⟨n, hall n hn, heq, hd⟩

/-- A search is complete if every name of an ancestor stands for a class. -/
theorem complete_ancestry : (ancestryWithin env bound c).complete = true ↔
    ∀ n, AncestorName env c n → env.resolved n ≠ none := by
  obtain ⟨hclimbing, hall⟩ := climbing_climbed hself hbound
  show (climbed env bound c).complete = true ↔ _
  rw [hclimbing.complete]
  constructor
  · intro h n hn
    by_cases heq : n = c.name
    · rw [heq] at hn ⊢
      rw [hself hn]
      exact nofun
    · exact h n (hall n hn) heq
  · intro h n hseen hne
    exact h n ((hclimbing.seen n hseen).resolve_left hne)

end Ancestry

end Linkage

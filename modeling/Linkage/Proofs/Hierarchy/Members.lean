import Linkage.Proofs.Hierarchy.Climbs

/-!
# Members of a class and of its ancestors

On a class path that never fails, the search for a member comes to nothing if no class declares it of all
that there are among a class and its ancestors. It is sure of that if no ancestor is missing.

* **`searched`**, **`yields_searchMember`** — what a search for a member comes to;
* **`searched_cases`**, **`searched_missing_iff`**, **`searched_unknown_iff`** — when it comes to nothing,
  and how sure it is.
-/

namespace Linkage

theorem declaredIn_eq_findSome? (pick : ClassDefinition → Option Member) (classes : List ClassDefinition) :
    declaredIn pick classes = classes.findSome? fun c => (pick c).map fun m => (c, m) := by
  induction classes with
  | nil => rfl
  | cons c rest ih =>
      rw [declaredIn, List.findSome?_cons]
      cases pick c with
      | some m => rfl
      | none => exact ih

/-- Nothing that is declared by a list of classes is picked. -/
theorem declaredIn_eq_none {pick : ClassDefinition → Option Member} {classes : List ClassDefinition} :
    declaredIn pick classes = none ↔ ∀ c ∈ classes, pick c = none := by
  rw [declaredIn_eq_findSome?, List.findSome?_eq_none_iff]
  simp only [Option.map_eq_none_iff]

/-- What is found is declared by a class of the list. -/
theorem declaredIn_eq_some {pick : ClassDefinition → Option Member} {classes : List ClassDefinition}
    {found : ClassDefinition × Member} (h : declaredIn pick classes = some found) :
    found.1 ∈ classes ∧ pick found.1 = some found.2 := by
  rw [declaredIn_eq_findSome?] at h
  obtain ⟨c, hc, hpick⟩ := List.exists_of_findSome?_eq_some h
  obtain ⟨m, hm, rfl⟩ := Option.map_eq_some_iff.mp hpick
  exact ⟨hc, hm⟩

/-- What a search for a member comes to. -/
def searched (env : Setting) (owner : ClassDefinition) (pick : ClassDefinition → Option Member) :
    MemberSearch :=
  match pick owner with
  | some m => .found owner m
  | none =>
    let a := ancestryWithin env (climbBound env owner) owner
    match declaredIn pick a.classes with
    | some (c, m) => .found c m
    | none => if a.complete then .missing else .unknown

section Search

variable {env : Setting} {owner : ClassDefinition} {pick : ClassDefinition → Option Member}

theorem yields_searchMember (hpath : env.classpath.Reliable) (owner : ClassDefinition)
    (pick : ClassDefinition → Option Member) :
    Yields env (searchMember env owner pick) (searched env owner pick) := by
  unfold searchMember searched
  cases pick owner with
  | some m => exact .pure _
  | none =>
      refine (yields_ancestryUpTo hpath (climbBound env owner) owner).bind ?_
      simp only
      cases declaredIn pick (ancestryWithin env (climbBound env owner) owner).classes with
      | some found => exact .pure _
      | none => exact .pure _

/-- Of a class and its ancestors, none declares what is picked. -/
def NoneDeclares (env : Setting) (owner : ClassDefinition) (pick : ClassDefinition → Option Member) :
    Prop := ∀ d, d = owner ∨ AncestorOf env owner d → pick d = none

theorem not_noneDeclares {d : ClassDefinition} {m : Member} (hd : d = owner ∨ AncestorOf env owner d)
    (hm : pick d = some m) : ¬ NoneDeclares env owner pick := by
  intro hnone
  rw [hnone d hd] at hm
  cases hm

variable (hself : AncestorName env owner owner.name → env.resolved owner.name = some owner)
include hself

variable (pick) in
/-- A search finds what the class or an ancestor declares, or there is no such declaration. -/
theorem searched_cases :
    (∃ d m, searched env owner pick = .found d m ∧ (d = owner ∨ AncestorOf env owner d) ∧
      pick d = some m) ∨
    NoneDeclares env owner pick ∧ searched env owner pick =
      if (ancestryWithin env (climbBound env owner) owner).complete then .missing else .unknown := by
  have hmem := mem_ancestry hself (Nat.le_refl (climbBound env owner))
  unfold searched
  cases howner : pick owner with
  | some m => exact Or.inl ⟨owner, m, rfl, Or.inl rfl, howner⟩
  | none =>
      simp only
      cases hancestors : declaredIn pick
          (ancestryWithin env (climbBound env owner) owner).classes with
      | some found =>
          obtain ⟨hfound, hpick⟩ := declaredIn_eq_some hancestors
          exact Or.inl ⟨found.1, found.2, rfl, Or.inr ((hmem _).1 hfound), hpick⟩
      | none =>
          refine Or.inr ⟨?_, rfl⟩
          rintro d (rfl | hd)
          · exact howner
          · rcases (hmem d).2 hd with rfl | hd
            · exact howner
            · exact declaredIn_eq_none.mp hancestors d hd

theorem declares_of_searched {d : ClassDefinition} {m : Member}
    (h : searched env owner pick = .found d m) :
    (d = owner ∨ AncestorOf env owner d) ∧ pick d = some m := by
  rcases searched_cases pick hself with ⟨d', m', hfound, hdeclares⟩ | ⟨-, hsearch⟩
  · rw [hfound] at h
    cases h
    exact hdeclares
  · rw [hsearch] at h
    split at h
    · cases h
    · cases h

/-- A search is sure that there is no such member if no class declares one and no ancestor is
missing. -/
theorem searched_missing_iff : searched env owner pick = .missing ↔
    NoneDeclares env owner pick ∧ ∀ n, AncestorName env owner n → env.resolved n ≠ none := by
  rw [← complete_ancestry hself (Nat.le_refl _)]
  rcases searched_cases pick hself with ⟨d, m, hfound, hd, hm⟩ | ⟨hnone, hsearch⟩
  · rw [hfound]
    exact iff_of_false nofun fun h => not_noneDeclares hd hm h.1
  · rw [hsearch]
    simp [hnone]

/-- A search does not know if no class declares such a member but an ancestor is missing. -/
theorem searched_unknown_iff : searched env owner pick = .unknown ↔
    NoneDeclares env owner pick ∧ ∃ n, AncestorName env owner n ∧ env.resolved n = none := by
  have hmissing : (∃ n, AncestorName env owner n ∧ env.resolved n = none) ↔
      ¬ (ancestryWithin env (climbBound env owner) owner).complete = true := by
    rw [complete_ancestry hself (Nat.le_refl _)]
    simp
  rw [hmissing]
  rcases searched_cases pick hself with ⟨d, m, hfound, hd, hm⟩ | ⟨hnone, hsearch⟩
  · rw [hfound]
    exact iff_of_false nofun fun h => not_noneDeclares hd hm h.1
  · rw [hsearch]
    simp [hnone]

end Search

end Linkage

import Linkage.Proofs.Hierarchy.Climbs
import Linkage.Proofs.Hierarchy.Walks

/-!
# Ancestries and walks

The search for the ancestors of a class and a walk up from it go through the same hierarchy in two ways.
A walk follows every parent of every class. The search follows superclasses only from the class itself;
from interfaces it follows interfaces alone, since an interface has no superclass but the root.

* **`mem_offers_above`** — what a walk offers that leaves its start out;
* **`Sheltered`** — the superclasses of interfaces do not matter to the search;
* **`Agree`**, **`agree_iff_sheltered`** — the search and the walk agree exactly then;
* **`sheltered_of_root`** — it is so if interfaces have no superclass but the root;
* **`not_agree_demoted`** — it is not so if an interface has become a class with a superclass.
-/

namespace Linkage

variable {env : Setting} {c d : ClassDefinition}

/-! ## Ancestors are reached -/

theorem reached_self (env : Setting) (c : ClassDefinition) : Reached env [c] c :=
  ⟨c, List.mem_cons_self, .refl⟩

/-- A parent of a class that is reached. -/
theorem Reached.parent {name : String} (h : Reached env [c] d) (hname : name ∈ d.parentNames)
    {e : ClassDefinition} (he : env.resolved name = some e) : Reached env [c] e := by
  obtain ⟨root, hroot, hway⟩ := h
  exact ⟨root, hroot, hway.tail ⟨name, hname, he⟩⟩

theorem ChainName.exists_reached {n : String} (h : ChainName env c n) :
    ∃ e, Reached env [c] e ∧ n ∈ e.parentNames := by
  induction h with
  | parent hn => exact ⟨c, reached_self env c, parent_mem_parentNames hn⟩
  | next _ hd hn ih =>
      obtain ⟨e, he, hname⟩ := ih
      exact ⟨_, he.parent hname hd, parent_mem_parentNames hn⟩

theorem InterfaceName.exists_reached {n : String} (h : InterfaceName env c n) :
    ∃ e, Reached env [c] e ∧ n ∈ e.parentNames := by
  induction h with
  | own hn => exact ⟨c, reached_self env c, interface_mem_parentNames hn⟩
  | ofSuper h hd hn =>
      obtain ⟨e, he, hname⟩ := h.exists_reached
      exact ⟨_, he.parent hname hd, interface_mem_parentNames hn⟩
  | ofInterface _ hd hn ih =>
      obtain ⟨e, he, hname⟩ := ih
      exact ⟨_, he.parent hname hd, interface_mem_parentNames hn⟩

/-- The name of an ancestor is that of a parent of a class that is reached. -/
theorem AncestorName.exists_reached {n : String} (h : AncestorName env c n) :
    ∃ e, Reached env [c] e ∧ n ∈ e.parentNames := by
  rcases h with h | h
  · exact h.exists_reached
  · exact h.exists_reached

theorem AncestorOf.reached (h : AncestorOf env c d) : Reached env [c] d := by
  obtain ⟨n, hn, hd⟩ := h
  obtain ⟨e, he, hname⟩ := hn.exists_reached
  exact he.parent hname hd

/-- If names tell classes apart, a class that is its own ancestor goes by its own name. -/
theorem resolved_name_of_separate (hsep : Separate env true [c])
    (h : AncestorName env c c.name) : env.resolved c.name = some c := by
  obtain ⟨e, he, hname⟩ := h.exists_reached
  exact hsep.plain e c he (reached_self env c) hname

/-! ## Walks from a class -/

/-- A walk that leaves its start out offers the other classes that are reached. -/
theorem mem_offers_above {σ : Type} {visit : Visitor σ} {x : σ} {s : Session}
    (hpath : env.classpath.Reliable) (hsep : Separate env true [c]) (hv : Tame env visit)
    (hs : Faithful env s)
    (hgoesOn : ((Walker.fresh true).walk env visit c false x s).1.1.1 = .completed) :
    d ∈ c :: offers env visit (.fresh true) c false x s ↔ Reached env [c] d := by
  obtain ⟨new, hlogged, -, hplays⟩ := walk_completed hpath hv hs [] hgoesOn
  have hoffers : offers env visit (.fresh true) c false x s =
      offeredIn ((Walker.fresh true).courseOfPending env (env.classpath.size + 1) [c]) := by
    unfold offers
    rw [hlogged]
    exact hplays.offered
  have hbound : [c].length + unvisited env.classpath (Walker.fresh true).visited ≤
      env.classpath.size + 1 := by
    have := unvisited_le_size env.classpath (Walker.fresh true).visited
    rw [List.length_singleton]
    omega
  have hstart : ∀ e ∈ [c], ReachedBy env true [c] e := by
    intro e he
    rw [List.mem_singleton.mp he]
    exact reached_self env c
  have hpending := pendingOffered (w := .fresh true) hsep
    hstart nofun hbound
  rw [hoffers]
  constructor
  · intro hd
    rcases List.mem_cons.mp hd with rfl | hd
    · exact reached_self env _
    · exact hpending.reached d hd
  · rintro ⟨root, hroot, hway⟩
    rw [List.mem_singleton.mp hroot] at hway
    induction hway with
    | refl => exact List.mem_cons_self
    | @tail e d hway hparent ih =>
        -- what has been offered under the name of the parent is the parent
        obtain ⟨d', hd', hname⟩ := List.mem_map.mp (hpending.covers e ih d hparent)
        have hreached : Reached env [c] d := ⟨c, List.mem_cons_self, hway.tail hparent⟩
        rw [← hsep.named d' d (hpending.reached d' hd') hreached hname]
        exact List.mem_cons_of_mem _ hd'

/-! ## Superclasses of interfaces -/

/-- A name of the superclass of an interface. -/
def InterfaceSuper (env : Setting) (c : ClassDefinition) (n : String) : Prop :=
  ∃ i d, InterfaceName env c i ∧ env.resolved i = some d ∧ d.parent? = some n

/-- The superclasses of the interfaces lead nowhere else. Those that are missing are not the only ones. -/
structure Sheltered (env : Setting) (c : ClassDefinition) : Prop where
  known : ∀ n d, InterfaceSuper env c n → env.resolved n = some d → d = c ∨ AncestorOf env c d
  missing : ∀ n, InterfaceSuper env c n → env.resolved n = none →
    ∃ n', AncestorName env c n' ∧ env.resolved n' = none

theorem InterfaceSuper.exists_reached {n : String} (h : InterfaceSuper env c n) :
    ∃ e, Reached env [c] e ∧ n ∈ e.parentNames := by
  obtain ⟨i, d, hi, hd, hn⟩ := h
  have hancestor : AncestorOf env c d := ⟨i, Or.inr hi, hd⟩
  exact ⟨d, hancestor.reached, parent_mem_parentNames hn⟩

/-- A parent of an ancestor is one as well, unless it is the superclass of an interface. -/
theorem AncestorName.parent {n n' : String} (h : AncestorName env c n) (hd : env.resolved n = some d)
    (hn : n' ∈ d.parentNames) : AncestorName env c n' ∨ InterfaceSuper env c n' := by
  rcases List.mem_append.mp hn with hparent | hinterface
  · have hsuper : d.parent? = some n' := Option.mem_toList.mp hparent
    rcases h with hchain | hinterface
    · exact Or.inl (Or.inl (.next hchain hd hsuper))
    · exact Or.inr ⟨n, d, hinterface, hd, hsuper⟩
  · exact Or.inl (Or.inr (h.interface hd hinterface))

theorem ancestorName_of_parent {n : String} (h : n ∈ c.parentNames) : AncestorName env c n := by
  rcases List.mem_append.mp h with hparent | hinterface
  · exact Or.inl (.parent (Option.mem_toList.mp hparent))
  · exact Or.inr (.own hinterface)

/-- Then what is reached is the class itself and its ancestors. -/
theorem Sheltered.ancestorOf (h : Sheltered env c) (hd : Reached env [c] d) :
    d = c ∨ AncestorOf env c d := by
  obtain ⟨root, hroot, hway⟩ := hd
  rw [List.mem_singleton.mp hroot] at hway
  induction hway with
  | refl => exact Or.inl rfl
  | @tail e d _ hparent ih =>
      obtain ⟨n, hn, hd⟩ := hparent
      rcases ih with rfl | ⟨n', hn', he⟩
      · exact Or.inr ⟨n, ancestorName_of_parent hn, hd⟩
      · rcases hn'.parent he hn with hancestor | hsuper
        · exact Or.inr ⟨n, hancestor, hd⟩
        · exact h.known n d hsuper hd

/-- If then all ancestors are there, so is every parent of a class that is reached. -/
theorem Sheltered.resolved (h : Sheltered env c)
    (hall : ∀ n, AncestorName env c n → env.resolved n ≠ none) (hd : Reached env [c] d) {n : String}
    (hn : n ∈ d.parentNames) : env.resolved n ≠ none := by
  rcases h.ancestorOf hd with rfl | ⟨n', hn', hresolved⟩
  · exact hall n (ancestorName_of_parent hn)
  · rcases hn'.parent hresolved hn with hancestor | hsuper
    · exact hall n hancestor
    · intro hnone
      obtain ⟨m, hm, hmissing⟩ := h.missing n hsuper hnone
      exact hall m hm hmissing

/-! ## When both agree -/

/-- An ancestry and what a walk has visited above a class say the same. -/
structure Agree (env : Setting) (c : ClassDefinition) (a : Ancestry) (visited : List ClassDefinition) :
    Prop where
  names : ∀ n, n ≠ c.name → (n ∈ a.classes.map (·.name) ↔ n ∈ visited.map (·.name))
  /-- All parents that the walk has met are there. -/
  complete : a.complete = true ↔ ∀ d ∈ c :: visited, ∀ n ∈ d.parentNames, env.resolved n ≠ none
  /-- A complete ancestry leaves nothing out that can be reached. -/
  thorough : a.complete = true → ∀ d, Reached env [c] d → d = c ∨ d ∈ a.classes

section Agree

variable {visited : List ClassDefinition} (hsep : Separate env true [c])
  (hvisited : ∀ d, d ∈ c :: visited ↔ Reached env [c] d)
include hsep hvisited

/-- If the names agree, what is reached is the class itself and its ancestors. -/
theorem Agree.ancestorOf {a : Ancestry} (h : Agree env c a visited)
    (ha : ∀ d ∈ a.classes, AncestorOf env c d) (hd : Reached env [c] d) :
    d = c ∨ AncestorOf env c d := by
  rcases List.mem_cons.mp ((hvisited d).mpr hd) with hself | hmem
  · exact Or.inl hself
  · by_cases hname : d.name = c.name
    · exact Or.inl (hsep.named d c hd (reached_self env c) hname)
    · obtain ⟨d', hd', hsame⟩ := List.mem_map.mp
        ((h.names d.name hname).mpr (List.mem_map_of_mem hmem))
      have hancestor := ha d' hd'
      rw [← hsep.named d' d hancestor.reached hd hsame]
      exact Or.inr hancestor

theorem agree_ancestryWithin_iff :
    Agree env c (ancestryWithin env (climbBound env c) c) visited ↔ Sheltered env c := by
  have hself := resolved_name_of_separate hsep
  have hmem := mem_ancestry hself (Nat.le_refl (climbBound env c))
  have hcomplete := complete_ancestry hself (Nat.le_refl (climbBound env c))
  constructor
  · intro h
    refine ⟨?_, ?_⟩
    · intro n d hn hd
      obtain ⟨e, he, hparent⟩ := hn.exists_reached
      exact h.ancestorOf hsep hvisited (fun d hd => (hmem d).1 hd) (he.parent hparent hd)
    · intro n hn hnone
      obtain ⟨e, he, hparent⟩ := hn.exists_reached
      by_contra hall
      have hevery : ∀ m, AncestorName env c m → env.resolved m ≠ none :=
        fun m hm hmissing => hall ⟨m, hm, hmissing⟩
      exact h.complete.mp (hcomplete.mpr hevery) e ((hvisited e).mpr he) n hparent hnone
  · intro h
    have hlooked : ∀ d, Reached env [c] d →
        d = c ∨ d ∈ (ancestryWithin env (climbBound env c) c).classes := by
      intro d hd
      rcases h.ancestorOf hd with hd | hd
      · exact Or.inl hd
      · exact (hmem d).2 hd
    refine ⟨?_, ?_, fun _ => hlooked⟩
    · intro n hn
      rw [List.mem_map, List.mem_map]
      constructor
      · rintro ⟨d, hd, rfl⟩
        rcases List.mem_cons.mp ((hvisited d).mpr ((hmem d).1 hd).reached) with rfl | hd
        · exact absurd rfl hn
        · exact ⟨d, hd, rfl⟩
      · rintro ⟨d, hd, rfl⟩
        rcases hlooked d ((hvisited d).mp (List.mem_cons_of_mem _ hd)) with rfl | hd
        · exact absurd rfl hn
        · exact ⟨d, hd, rfl⟩
    · rw [hcomplete]
      constructor
      · intro hall d hd n hn
        exact h.resolved hall ((hvisited d).mp hd) hn
      · intro hall n hn
        obtain ⟨e, he, hparent⟩ := hn.exists_reached
        exact hall e ((hvisited e).mpr he) n hparent

end Agree

/-- The search for ancestors and a walk agree exactly if the class is sheltered. In any case the walk
comes to all ancestors that are found, and if all parents are there that it meets, all ancestors are. -/
theorem agree_iff_sheltered {σ : Type} {visit : Visitor σ} {x : σ} {s s' : Session}
    (hpath : env.classpath.Reliable) (hsep : Separate env true [c]) (hv : Tame env visit)
    (hs : Faithful env s) (hs' : Faithful env s')
    (hgoesOn : ((Walker.fresh true).walk env visit c false x s').1.1.1 = .completed) :
    (Agree env c (ancestry env c s).1 (offers env visit (.fresh true) c false x s') ↔
      Sheltered env c) ∧
    (∀ d ∈ (ancestry env c s).1.classes, d ∈ c :: offers env visit (.fresh true) c false x s') ∧
    ((∀ d ∈ c :: offers env visit (.fresh true) c false x s', ∀ n ∈ d.parentNames,
      env.resolved n ≠ none) → (ancestry env c s).1.complete = true) := by
  have hself := resolved_name_of_separate hsep
  have hvisited := fun d => mem_offers_above (d := d) hpath hsep hv hs' hgoesOn
  rw [ancestry_eq, (yields_ancestryUpTo hpath (climbBound env c) c).value hs]
  refine ⟨agree_ancestryWithin_iff hsep hvisited, ?_, ?_⟩
  · intro d hd
    exact (hvisited d).mpr ((mem_ancestry hself (Nat.le_refl _) d).1 hd).reached
  · intro hall
    rw [complete_ancestry hself (Nat.le_refl _)]
    intro n hn
    obtain ⟨e, he, hparent⟩ := hn.exists_reached
    exact hall e ((hvisited e).mpr he) n hparent

/-- A class is sheltered if its interfaces have no superclass but the root of the hierarchy, and if the
root is one of its ancestors or the class itself. -/
theorem sheltered_of_root
    (hinterfaces : ∀ i d, InterfaceName env c i → env.resolved i = some d →
      ∀ n, d.parent? = some n → n = ClassName.root)
    (hroot : AncestorName env c ClassName.root ∨ env.resolved ClassName.root = some c) :
    Sheltered env c := by
  have hsuper : ∀ n, InterfaceSuper env c n → n = ClassName.root := by
    rintro n ⟨i, d, hi, hd, hn⟩
    exact hinterfaces i d hi hd n hn
  refine ⟨?_, ?_⟩
  · intro n d hn hd
    rw [hsuper n hn] at hd
    rcases hroot with hancestor | hself
    · exact Or.inr ⟨ClassName.root, hancestor, hd⟩
    · rw [hself] at hd
      exact Or.inl (Option.some.inj hd).symm
  · intro n hn hnone
    rw [hsuper n hn] at hnone
    rcases hroot with hancestor | hself
    · exact ⟨ClassName.root, hancestor, hnone⟩
    · rw [hself] at hnone
      cases hnone

/-- The classes that a walk visits above a class if nobody stops it. -/
def visitedAbove (env : Setting) (c : ClassDefinition) : List ClassDefinition :=
  offers env (fun _ => pure true) (.fresh true) c false () (.start env)

/-- A class with two interfaces. -/
def shape : ClassDefinition := classUnder "s/Shape" (some ClassName.root) ["s/Left", "s/Right"]

/-- Its interfaces extend a third one. Another one is missing. -/
def shapes : List ClassDefinition :=
  [shape, classUnder "s/Left" (some ClassName.root) ["s/Top"],
    classUnder "s/Right" (some ClassName.root) ["s/Top", "x/Gone"],
    classUnder "s/Top" (some ClassName.root) [], classUnder ClassName.root none []]

/-- The search for its ancestors and a walk agree. -/
theorem agree_shapes :
    Agree (settingOn shapes) shape (ancestry (settingOn shapes) shape (.start (settingOn shapes))).1
      (visitedAbove (settingOn shapes) shape) := by
  have hpath := reliable_settingOn shapes
  have hsep : Separate (settingOn shapes) true [shape] :=
    separate_settingOn (by decide) (by decide)
  have hsheltered : Sheltered (settingOn shapes) shape := by
    refine sheltered_of_root ?_ (Or.inl (.inl (.parent rfl)))
    intro i d _ hd
    have hmem := Classpath.mem_classes_of_definition? (definition?_of_resolved hd)
    rw [classes_settingOn] at hmem
    have hparents : ∀ d ∈ shapes, ∀ n, d.parent? = some n → n = ClassName.root := by decide
    exact hparents d hmem
  exact (agree_iff_sheltered hpath hsep (tame_of_regular hpath fun _ _ => .pure _)
    (faithful_start _) (faithful_start _) rfl).1.mpr hsheltered

/-- A class with one interface. -/
def service : ClassDefinition := classUnder "h/Service" (some ClassName.root) ["h/Api"]

/-- Its interface has become a class, which extends another one. -/
def demoted : List ClassDefinition :=
  [service, classUnder "h/Api" (some "h/Base") [],
    { classUnder "h/Base" (some ClassName.root) [] with methods := [⟨"run", "()V", ⟨1⟩, false⟩] },
    classUnder ClassName.root none []]

/-- A class that uses a method of that other class. -/
def demotedUser : ClassDefinition :=
  { classUnder "p/User" (some ClassName.root) [] with
    memberRefs := [⟨.method, "h/Service", "run", "()V"⟩] }

/-- The search for ancestors is over before it comes to the class that declares the method, and it is
reported that there is no such method. -/
theorem not_agree_demoted :
    ¬ Agree (settingOn demoted) service
        (ancestry (settingOn demoted) service (.start (settingOn demoted))).1
        (visitedAbove (settingOn demoted) service) ∧
      (Rules.memberRefsLink (settingOn demoted) demotedUser (.start (settingOn demoted))).2.problems =
        [.methodNotFound ⟨"h/Service", "run", "()V"⟩ (.inClass "p/User")] := by
  refine ⟨?_, by decide +kernel⟩
  intro h
  have hbase := (h.names "h/Base" (by decide)).mpr (by decide +kernel)
  exact absurd hbase (by decide +kernel)

end Linkage

import Linkage.Proofs.Hierarchy.Course
import Mathlib.Logic.Relation

/-!
# Courses are closed

The courses of walks together offer all classes that can be reached from where they start, and no
others, and they miss every parent of them that stands for no class.

A walker compares names, so this is so only as far as names tell classes apart.

* **`ReachedBy`** — the classes that can be reached by a walker;
* **`Separate`** — names tell the classes apart that are reached, also when a parent is given by them;
* **`ParentsOffered`**, **`PendingOffered`** — what comes of the parents of one class, and of pending
  classes;
* **`Surveyed`**, **`Surveyed.course`** — what has come of walks from some classes, which every further
  walk extends;
* **`Surveyed.mem_iff`**, **`Surveyed.missed_iff`** — in the end the classes that are reached have been
  offered, and their missing parents missed.
-/

namespace Linkage

/-- A class that a name stands for is the class of its own name. -/
theorem definition?_of_resolved {env : Setting} {name : String} {d : ClassDefinition}
    (h : env.resolved name = some d) : env.classpath.definition? d.name = some d := by
  obtain ⟨plain, -, hdefinition⟩ := Option.bind_eq_some_iff.mp h
  rw [Classpath.name_of_definition? hdefinition]
  exact hdefinition

/-- The parents that are offered are the classes of their own names. -/
theorem definition?_of_parent {env : Setting} {c d : ClassDefinition} {names : List String} {w : Walker}
    (h : d ∈ offeredIn (w.courseOfParents env c names)) :
    env.classpath.definition? d.name = some d := by
  induction names generalizing w with
  | nil => cases h
  | cons name rest ih =>
      unfold Walker.courseOfParents at h
      split at h
      · exact ih h
      · split at h
        · exact ih h
        · next parent hresolved =>
            split at h
            · exact ih h
            · rcases List.mem_cons.mp h with rfl | h
              · exact definition?_of_resolved hresolved
              · exact ih h

/-- So are the classes that a walk offers, if its start is. -/
theorem definition?_of_offered {env : Setting} {start d : ClassDefinition} {w : Walker}
    (hstart : env.classpath.definition? start.name = some start) {includeSelf : Bool}
    (h : d ∈ offeredIn (w.course env start includeSelf)) :
    env.classpath.definition? d.name = some d := by
  have hpending : ∀ {bound : Nat} {pending : List ClassDefinition} {w : Walker},
      d ∈ offeredIn (w.courseOfPending env bound pending) →
        env.classpath.definition? d.name = some d := by
    intro bound
    induction bound with
    | zero => intro pending w h; cases h
    | succ bound ih =>
        intro pending w h
        cases pending with
        | nil => cases h
        | cons c pending =>
            unfold Walker.courseOfPending at h
            simp only at h
            rw [offeredIn_append] at h
            rcases List.mem_append.mp h with h | h
            · exact definition?_of_parent h
            · exact ih h
  unfold Walker.course at h
  split at h
  · split at h
    · cases h
    · rcases List.mem_cons.mp h with rfl | h
      · exact hstart
      · exact hpending h
  · exact hpending h

/-! ## Classes not visited yet -/

/-- How many classes of the class path have not been visited. -/
def unvisited (path : Classpath) (visited : List String) : Nat :=
  path.classes.countP fun c => !visited.contains c.name

theorem unvisited_le_size (path : Classpath) (visited : List String) :
    unvisited path visited ≤ path.size := List.countP_le_length

/-- Each visit leaves one class less. -/
theorem unvisited_mark {path : Classpath} {visited : List String} {d : ClassDefinition}
    (hd : d ∈ path.classes) (hnew : d.name ∉ visited) :
    unvisited path (visited ++ [d.name]) + 1 ≤ unvisited path visited := by
  obtain ⟨before, after, hsplit⟩ := List.append_of_mem hd
  have hfewer : ∀ l : List ClassDefinition,
      l.countP (fun c => !(visited ++ [d.name]).contains c.name) ≤
        l.countP fun c => !visited.contains c.name := by
    intro l
    refine List.countP_mono_left ?_
    intro c _ hc
    simp only [Bool.not_eq_true', List.contains_eq_mem, decide_eq_false_iff_not,
      List.mem_append, not_or] at hc ⊢
    exact hc.1
  unfold unvisited
  rw [hsplit, List.countP_append, List.countP_append, List.countP_cons_of_neg (by simp),
    List.countP_cons_of_pos (by simpa using hnew)]
  have hbefore := hfewer before
  have hafter := hfewer after
  omega

/-! ## Classes that are reached -/

/-- A class is a parent of another one that a walker follows: a name stands for it. -/
def ParentOf (env : Setting) (interfaces : Bool) (c d : ClassDefinition) : Prop :=
  ∃ name ∈ (Walker.fresh interfaces).parents c, env.resolved name = some d

/-- A class that a walker reaches from one of the classes `roots`. -/
def ReachedBy (env : Setting) (interfaces : Bool) (roots : List ClassDefinition)
    (d : ClassDefinition) : Prop :=
  ∃ root ∈ roots, Relation.ReflTransGen (ParentOf env interfaces) root d

/-- Names tell the classes apart that are reached. -/
structure Separate (env : Setting) (interfaces : Bool) (roots : List ClassDefinition) : Prop where
  named : ∀ c d, ReachedBy env interfaces roots c → ReachedBy env interfaces roots d →
    c.name = d.name → c = d
  /-- A parent that is given by the very name of a class stands for that class. -/
  plain : ∀ c d, ReachedBy env interfaces roots c → ReachedBy env interfaces roots d →
    d.name ∈ (Walker.fresh interfaces).parents c → env.resolved d.name = some d

section Closure

variable {env : Setting} {interfaces : Bool} {roots : List ClassDefinition}

theorem ReachedBy.parent {c d : ClassDefinition} (h : ReachedBy env interfaces roots c)
    (hparent : ParentOf env interfaces c d) : ReachedBy env interfaces roots d := by
  obtain ⟨root, hroot, hway⟩ := h
  exact ⟨root, hroot, hway.tail hparent⟩

/-- A set of classes that holds the roots and the parents of its classes holds what is reached. -/
theorem ReachedBy.mem {classes : List ClassDefinition} {d : ClassDefinition}
    (h : ReachedBy env interfaces roots d) (hroots : ∀ root ∈ roots, root ∈ classes)
    (hclosed : ∀ c ∈ classes, ∀ name ∈ (Walker.fresh interfaces).parents c, ∀ e,
      env.resolved name = some e → e ∈ classes) : d ∈ classes := by
  obtain ⟨root, hroot, hway⟩ := h
  induction hway with
  | refl => exact hroots root hroot
  | @tail c d _ hparent ih =>
      obtain ⟨name, hname, hresolved⟩ := hparent
      exact hclosed c ih name hname d hresolved

/-- Names tell classes apart that their names stand for. -/
theorem separate_of_own
    (h : ∀ d, ReachedBy env interfaces roots d → env.resolved d.name = some d) :
    Separate env interfaces roots := by
  refine ⟨?_, fun c d _ hd _ => h d hd⟩
  intro c d hc hd hname
  have hsame := h c hc
  rw [hname, h d hd] at hsame
  exact (Option.some.inj hsame).symm

/-- What a walker has visited are names of classes that are reached. -/
def Walker.Within (env : Setting) (roots : List ClassDefinition) (w : Walker) : Prop :=
  ∀ n ∈ w.visited, ∃ d, ReachedBy env w.interfaces roots d ∧ d.name = n

/-- What comes of the parents of a class. -/
structure ParentsOffered (env : Setting) (c : ClassDefinition) (names : List String) (w : Walker)
    (events : List WalkEvent) : Prop where
  parents : ∀ d ∈ offeredIn events, ∃ name ∈ names, env.resolved name = some d
  /-- All that the names stand for has been visited now. -/
  covers : ∀ name ∈ names, ∀ d, env.resolved name = some d →
    d.name ∈ (w.markAll (offeredIn events)).visited
  misses : ∀ c' name, .miss c' name ∈ events ↔ c' = c ∧ name ∈ names ∧ env.resolved name = none
  fewer : (offeredIn events).length +
    unvisited env.classpath (w.markAll (offeredIn events)).visited ≤
      unvisited env.classpath w.visited

/-- A name that brings nothing comes before the others. -/
theorem ParentsOffered.skip {c : ClassDefinition} {name : String} {names : List String} {w : Walker}
    {events : List WalkEvent} (h : ParentsOffered env c names w events) {d : ClassDefinition}
    (hresolved : env.resolved name = some d) (hvisited : d.name ∈ w.visited) :
    ParentsOffered env c (name :: names) w events := by
  refine ⟨?_, ?_, ?_, h.fewer⟩
  · intro e he
    obtain ⟨n, hn, hstands⟩ := h.parents e he
    exact ⟨n, List.mem_cons_of_mem _ hn, hstands⟩
  · intro n hn e hstands
    rcases List.mem_cons.mp hn with rfl | hn
    · rw [hresolved] at hstands
      injection hstands with hstands
      rw [← hstands]
      exact List.mem_append_left _ hvisited
    · exact h.covers n hn e hstands
  · intro c' n
    rw [h.misses]
    refine and_congr_right fun _ => ⟨fun hn => ⟨List.mem_cons_of_mem _ hn.1, hn.2⟩, ?_⟩
    rintro ⟨hn, hnone⟩
    rcases List.mem_cons.mp hn with rfl | hn
    · rw [hresolved] at hnone
      cases hnone
    · exact ⟨hn, hnone⟩

/-- A name that stands for no class comes before the others. -/
theorem ParentsOffered.miss {c : ClassDefinition} {name : String} {names : List String} {w : Walker}
    {events : List WalkEvent} (h : ParentsOffered env c names w events)
    (hresolved : env.resolved name = none) :
    ParentsOffered env c (name :: names) w (.miss c name :: events) := by
  refine ⟨?_, ?_, ?_, h.fewer⟩
  · intro e he
    obtain ⟨n, hn, hstands⟩ := h.parents e he
    exact ⟨n, List.mem_cons_of_mem _ hn, hstands⟩
  · intro n hn e hstands
    rcases List.mem_cons.mp hn with rfl | hn
    · rw [hresolved] at hstands
      cases hstands
    · exact h.covers n hn e hstands
  · intro c' n
    rw [List.mem_cons, h.misses]
    constructor
    · rintro (heq | ⟨hc, hn, hnone⟩)
      · injection heq with hc hn
        rw [hn]
        exact ⟨hc, List.mem_cons_self, hresolved⟩
      · exact ⟨hc, List.mem_cons_of_mem _ hn, hnone⟩
    · rintro ⟨rfl, hn, hnone⟩
      rcases List.mem_cons.mp hn with rfl | hn
      · exact Or.inl rfl
      · exact Or.inr ⟨rfl, hn, hnone⟩

/-- A name that stands for a new class comes before the others. -/
theorem ParentsOffered.offer {c d : ClassDefinition} {name : String} {names : List String}
    {w : Walker} {events : List WalkEvent} (h : ParentsOffered env c names (w.mark d.name) events)
    (hresolved : env.resolved name = some d) (hnew : d.name ∉ w.visited) :
    ParentsOffered env c (name :: names) w (.offer d :: events) := by
  have hmarks : w.markAll (offeredIn (.offer d :: events)) =
      (w.mark d.name).markAll (offeredIn events) := Walker.markAll_cons w d _
  refine ⟨?_, ?_, ?_, ?_⟩
  · intro e he
    rcases List.mem_cons.mp he with rfl | he
    · exact ⟨name, List.mem_cons_self, hresolved⟩
    · obtain ⟨n, hn, hstands⟩ := h.parents e he
      exact ⟨n, List.mem_cons_of_mem _ hn, hstands⟩
  · intro n hn e hstands
    rw [hmarks]
    rcases List.mem_cons.mp hn with rfl | hn
    · rw [hresolved] at hstands
      injection hstands with hstands
      rw [← hstands]
      exact List.mem_append_left _ (List.mem_append_right _ List.mem_cons_self)
    · exact h.covers n hn e hstands
  · intro c' n
    rw [List.mem_cons, or_iff_right (fun heq => by cases heq), h.misses]
    refine and_congr_right fun _ => ⟨fun hn => ⟨List.mem_cons_of_mem _ hn.1, hn.2⟩, ?_⟩
    rintro ⟨hn, hnone⟩
    rcases List.mem_cons.mp hn with rfl | hn
    · rw [hresolved] at hnone
      cases hnone
    · exact ⟨hn, hnone⟩
  · have hmark := unvisited_mark (Classpath.mem_classes_of_definition?
      (definition?_of_resolved hresolved)) hnew
    have hfewer := h.fewer
    rw [hmarks]
    show (d :: offeredIn events).length + _ ≤ _
    rw [List.length_cons]
    show _ + 1 + _ ≤ unvisited env.classpath w.visited
    have hmark' : unvisited env.classpath (w.mark d.name).visited + 1 ≤
        unvisited env.classpath w.visited := hmark
    omega

theorem parentsOffered (hsep : Separate env interfaces roots) {c : ClassDefinition}
    (hc : ReachedBy env interfaces roots c) {names : List String}
    (hnames : ∀ n ∈ names, n ∈ (Walker.fresh interfaces).parents c) {w : Walker}
    (hinterfaces : w.interfaces = interfaces) (hwithin : w.Within env roots) :
    ParentsOffered env c names w (w.courseOfParents env c names) := by
  induction names generalizing w with
  | nil =>
      refine ⟨by simp [Walker.courseOfParents, offeredIn], by simp,
        by simp [Walker.courseOfParents], ?_⟩
      show 0 + unvisited env.classpath (w.markAll []).visited ≤ _
      exact Nat.le_of_eq (by rw [Walker.markAll_nil, Nat.zero_add])
  | cons name rest ih =>
      have hparent : name ∈ (Walker.fresh interfaces).parents c := hnames name List.mem_cons_self
      have hrest : ∀ n ∈ rest, n ∈ (Walker.fresh interfaces).parents c :=
        fun n hn => hnames n (List.mem_cons_of_mem _ hn)
      unfold Walker.courseOfParents
      split
      · -- what has been visited under the name is what the name stands for
        rename_i hvisited
        have hmem : name ∈ w.visited := List.contains_iff_mem.mp hvisited
        obtain ⟨d, hd, rfl⟩ := hwithin name hmem
        rw [hinterfaces] at hd
        exact (ih hrest hinterfaces hwithin).skip (hsep.plain c d hc hd hparent) hmem
      · cases hresolved : env.resolved name with
        | none => exact (ih hrest hinterfaces hwithin).miss hresolved
        | some d =>
            simp only
            split
            · rename_i hvisited
              exact (ih hrest hinterfaces hwithin).skip hresolved
                (List.contains_iff_mem.mp hvisited)
            · rename_i hnew
              have hfresh : d.name ∉ w.visited := fun hmem => hnew (List.contains_iff_mem.mpr hmem)
              refine (ih hrest (w := w.mark d.name) hinterfaces ?_).offer hresolved hfresh
              intro n hn
              rcases List.mem_append.mp hn with hn | hn
              · exact hwithin n hn
              · rw [List.mem_singleton.mp hn]
                refine ⟨d, ?_, rfl⟩
                rw [show (w.mark d.name).interfaces = interfaces from hinterfaces]
                exact hc.parent ⟨name, hparent, hresolved⟩

/-- What comes of pending classes: they are expanded, and so is all that they lead to. -/
structure PendingOffered (env : Setting) (roots pending : List ClassDefinition) (w : Walker)
    (events : List WalkEvent) : Prop where
  reached : ∀ d ∈ offeredIn events, ReachedBy env w.interfaces roots d
  /-- What is expanded has its parents visited. -/
  covers : ∀ c ∈ pending ++ offeredIn events, ∀ d, ParentOf env w.interfaces c d →
    d.name ∈ (w.markAll (offeredIn events)).visited
  misses : ∀ c name, .miss c name ∈ events ↔
    c ∈ pending ++ offeredIn events ∧ name ∈ w.parents c ∧ env.resolved name = none

theorem pendingOffered_nil (w : Walker) : PendingOffered env roots [] w [] :=
  ⟨by simp [offeredIn], by simp [offeredIn], by simp [offeredIn]⟩

/-- Classes that have been visited are reached, and so are those that are marked next. -/
theorem Walker.Within.markAll {w : Walker} (h : w.Within env roots) {new : List ClassDefinition}
    (hnew : ∀ d ∈ new, ReachedBy env w.interfaces roots d) : (w.markAll new).Within env roots := by
  intro n hn
  rcases List.mem_append.mp hn with hn | hn
  · exact h n hn
  · obtain ⟨d, hd, rfl⟩ := List.mem_map.mp hn
    exact ⟨d, hnew d hd, rfl⟩

/-- One pending class is expanded before the others. -/
theorem PendingOffered.cons {c : ClassDefinition} {pending : List ClassDefinition} {w : Walker}
    {events events' : List WalkEvent} (hc : ReachedBy env w.interfaces roots c)
    (h : ParentsOffered env c (w.parents c) w events)
    (h' : PendingOffered env roots (offeredIn events ++ pending) (w.markAll (offeredIn events)) events') :
    PendingOffered env roots (c :: pending) w (events ++ events') := by
  have hmem : ∀ d, d ∈ c :: pending ++ offeredIn (events ++ events') ↔
      d = c ∨ d ∈ offeredIn events ++ pending ++ offeredIn events' := by
    intro d
    rw [offeredIn_append]
    simp only [List.cons_append, List.mem_cons, List.mem_append]
    tauto
  have hmarks : w.markAll (offeredIn (events ++ events')) =
      (w.markAll (offeredIn events)).markAll (offeredIn events') := by
    rw [offeredIn_append, Walker.markAll_append]
  refine ⟨?_, ?_, ?_⟩
  · intro d hd
    rw [offeredIn_append] at hd
    rcases List.mem_append.mp hd with hd | hd
    · exact hc.parent (h.parents d hd)
    · exact h'.reached d hd
  · intro e he d hparent
    rw [hmarks]
    rcases (hmem e).mp he with rfl | he
    · obtain ⟨name, hname, hresolved⟩ := hparent
      exact List.mem_append_left _ (h.covers name hname d hresolved)
    · exact h'.covers e he d hparent
  · intro e name
    rw [List.mem_append, h.misses, h'.misses, hmem, or_and_right]
    refine or_congr_left ?_
    constructor
    · rintro ⟨rfl, hname, hnone⟩
      exact ⟨rfl, hname, hnone⟩
    · rintro ⟨rfl, hname, hnone⟩
      exact ⟨rfl, hname, hnone⟩

/-- Every class is expanded once, so that the bound is not reached before nothing is pending. -/
theorem pendingOffered {w : Walker} (hsep : Separate env w.interfaces roots) {bound : Nat}
    {pending : List ClassDefinition}
    (hpending : ∀ c ∈ pending, ReachedBy env w.interfaces roots c) (hwithin : w.Within env roots)
    (hbound : pending.length + unvisited env.classpath w.visited ≤ bound) :
    PendingOffered env roots pending w (w.courseOfPending env bound pending) := by
  induction bound generalizing pending w with
  | zero =>
      have hnone : pending = [] := List.length_eq_zero_iff.mp (by omega)
      rw [hnone]
      exact pendingOffered_nil w
  | succ bound ih =>
      cases pending with
      | nil => exact pendingOffered_nil w
      | cons c pending =>
          have hc := hpending c List.mem_cons_self
          have hparents := parentsOffered hsep hc (fun _ hn => hn) rfl hwithin
          have hreached : ∀ d ∈ offeredIn (w.courseOfParents env c (w.parents c)),
              ReachedBy env w.interfaces roots d :=
            fun d hd => hc.parent (hparents.parents d hd)
          -- what becomes pending has been unvisited, so the sum of both does not grow
          have hfewer := hparents.fewer
          rw [List.length_cons] at hbound
          have hwithin' := hwithin.markAll hreached
          refine .cons hc hparents (ih (w := w.markAll _) hsep ?_ hwithin' ?_)
          · intro d hd
            rcases List.mem_append.mp hd with hd | hd
            · exact hreached d hd
            · exact hpending d (List.mem_cons_of_mem _ hd)
          · rw [List.length_append]
            have hparents' : (Walker.fresh w.interfaces).parents c = w.parents c := rfl
            rw [hparents'] at hfewer
            omega

/-- What has come of walks from some of the `roots`. -/
structure Surveyed (env : Setting) (roots : List ClassDefinition) (events : List WalkEvent)
    (w : Walker) : Prop where
  visited : w.visited = (offeredIn events).map (·.name)
  reached : ∀ d ∈ offeredIn events, ReachedBy env w.interfaces roots d
  covers : ∀ c ∈ offeredIn events, ∀ d, ParentOf env w.interfaces c d → d.name ∈ w.visited
  misses : ∀ c name, .miss c name ∈ events ↔
    c ∈ offeredIn events ∧ name ∈ w.parents c ∧ env.resolved name = none

theorem surveyed_fresh (interfaces : Bool) : Surveyed env roots [] (Walker.fresh interfaces) :=
  ⟨rfl, by simp [offeredIn], by simp [offeredIn], by simp [offeredIn]⟩

theorem Surveyed.within {events : List WalkEvent} {w : Walker} (h : Surveyed env roots events w) :
    w.Within env roots := by
  intro n hn
  rw [h.visited] at hn
  obtain ⟨d, hd, rfl⟩ := List.mem_map.mp hn
  exact ⟨d, h.reached d hd, rfl⟩

/-- A class that is offered first, and what it leads to. -/
theorem Surveyed.add {events events' : List WalkEvent} {w : Walker} (h : Surveyed env roots events w)
    {root : ClassDefinition} (hroot : ReachedBy env w.interfaces roots root)
    (h' : PendingOffered env roots [root] (w.mark root.name) events') :
    Surveyed env roots (events ++ .offer root :: events')
      (w.markAll (offeredIn (.offer root :: events'))) := by
  have hmem : ∀ d, d ∈ offeredIn (events ++ .offer root :: events') ↔
      d ∈ offeredIn events ∨ d ∈ [root] ++ offeredIn events' := by
    intro d
    rw [offeredIn_append]
    exact List.mem_append
  have hmarks : w.markAll (offeredIn (.offer root :: events')) =
      (w.mark root.name).markAll (offeredIn events') := Walker.markAll_cons w root _
  refine ⟨?_, ?_, ?_, ?_⟩
  · show w.visited ++ _ = _
    rw [h.visited, offeredIn_append, List.map_append]
  · intro d hd
    rcases (hmem d).mp hd with hd | hd
    · exact h.reached d hd
    · rcases List.mem_append.mp hd with hd | hd
      · rw [List.mem_singleton.mp hd]
        exact hroot
      · exact h'.reached d hd
  · intro c hc d hparent
    rcases (hmem c).mp hc with hc | hc
    · exact List.mem_append_left _ (h.covers c hc d hparent)
    · rw [hmarks]
      exact h'.covers c hc d hparent
  · intro c name
    rw [List.mem_append, List.mem_cons, or_iff_right (a := WalkEvent.miss c name = .offer root)
      (fun heq => by cases heq), h.misses, h'.misses, hmem, or_and_right]
    rfl

/-- A walk more, which includes where it starts. -/
theorem Surveyed.course {events : List WalkEvent} {w : Walker} (h : Surveyed env roots events w)
    (hsep : Separate env w.interfaces roots) {root : ClassDefinition} (hroot : root ∈ roots) :
    Surveyed env roots (events ++ w.course env root true)
        (w.markAll (offeredIn (w.course env root true))) ∧
      root ∈ offeredIn (events ++ w.course env root true) := by
  have hreached : ReachedBy env w.interfaces roots root := ⟨root, hroot, .refl⟩
  unfold Walker.course
  rw [if_pos rfl]
  split
  · -- an earlier walk came by
    rename_i hvisited
    have hmem : root.name ∈ w.visited := List.contains_iff_mem.mp hvisited
    rw [h.visited] at hmem
    obtain ⟨d, hd, hname⟩ := List.mem_map.mp hmem
    rw [List.append_nil, show offeredIn [] = [] from rfl, Walker.markAll_nil]
    refine ⟨h, ?_⟩
    rw [← hsep.named d root (h.reached d hd) hreached hname]
    exact hd
  · have hstart : ∀ c ∈ [root], ReachedBy env (w.mark root.name).interfaces roots c := by
      intro c hc
      rw [List.mem_singleton.mp hc]
      exact hreached
    have hwithin : (w.mark root.name).Within env roots := h.within.markAll hstart
    have hbound : [root].length + unvisited env.classpath (w.mark root.name).visited ≤
        env.classpath.size + 1 := by
      have := unvisited_le_size env.classpath (w.mark root.name).visited
      rw [List.length_singleton]
      omega
    have hpending := pendingOffered (w := w.mark root.name) hsep hstart hwithin hbound
    refine ⟨h.add hreached hpending, ?_⟩
    rw [offeredIn_append]
    exact List.mem_append_right _ List.mem_cons_self

/-- When walks have started from all roots, what can be reached has been offered. -/
theorem Surveyed.mem_iff {events : List WalkEvent} {w : Walker} (h : Surveyed env roots events w)
    (hsep : Separate env w.interfaces roots) (hroots : ∀ root ∈ roots, root ∈ offeredIn events)
    (d : ClassDefinition) : d ∈ offeredIn events ↔ ReachedBy env w.interfaces roots d := by
  refine ⟨h.reached d, ?_⟩
  rintro ⟨root, hroot, hway⟩
  induction hway with
  | refl => exact hroots root hroot
  | @tail c d _ hparent ih =>
      -- what has been offered under the name of the parent is the parent
      have hmem := h.covers c ih d hparent
      rw [h.visited] at hmem
      obtain ⟨e, he, hname⟩ := List.mem_map.mp hmem
      rw [← hsep.named e d (h.reached e he) ((h.reached c ih).parent hparent) hname]
      exact he

/-- What is missed then are the parents that stand for no class, of what is reached. -/
theorem Surveyed.missed_iff {events : List WalkEvent} {w : Walker} (h : Surveyed env roots events w)
    (hsep : Separate env w.interfaces roots) (hroots : ∀ root ∈ roots, root ∈ offeredIn events)
    (p : Problem) :
    (∃ c name, .miss c name ∈ events ∧ Misses env (.inClass c.name) name p) ↔
      ∃ c name, ReachedBy env w.interfaces roots c ∧ name ∈ w.parents c ∧
        Misses env (.inClass c.name) name p := by
  refine exists_congr fun c => exists_congr fun name => ?_
  rw [h.misses, h.mem_iff hsep hroots]
  constructor
  · rintro ⟨⟨hc, hname, -⟩, hmisses⟩
    exact ⟨hc, hname, hmisses⟩
  · rintro ⟨hc, hname, hmisses⟩
    refine ⟨⟨hc, hname, ?_⟩, hmisses⟩
    cases hresolved : env.resolved name with
    | none => rfl
    | some d => exact absurd hmisses (not_misses_of_resolved hresolved)

end Closure

end Linkage

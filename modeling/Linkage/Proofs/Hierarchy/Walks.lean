import Linkage.Proofs.Hierarchy.Closure

/-!
# Walks with one walker

A walker may be used for many walks, with visitors of many kinds.

* **`walks`** — walks in turn with one walker;
* **`walks_logged`**, **`walks_course`** — what walks offer together, in general and on a class path
  that never fails;
* **`WalkLaws`**, **`walkLaws`** — no class is offered twice; walks that are not stopped offer what can
  be reached and report what is missing there; a walk that is stopped has offered a beginning of what
  it would have offered;
* **`walks_mistaken`** — a walker is mistaken about classes whose names do not tell them apart.
-/

namespace Linkage

variable {σ : Type} {env : Setting}

/-- A walk that is to be made. -/
structure WalkCall (σ : Type) where
  start : ClassDefinition
  includeSelf : Bool
  visit : Visitor σ

/-- The same walk, with a log. -/
def WalkCall.logged (call : WalkCall σ) : WalkCall (List Offer × σ) :=
  { call with visit := call.visit.logged }

/-- Walks in turn with one walker. -/
def walks (env : Setting) : List (WalkCall σ) → Walker → StateT σ Check (List WalkOutcome × Walker)
  | [], w => pure ([], w)
  | call :: rest, w => do
    let (outcome, w) ← w.walk env call.visit call.start call.includeSelf
    let (outcomes, w) ← walks env rest w
    return (outcome :: outcomes, w)

/-- What is left after one of several walks. -/
theorem walks_cons (call : WalkCall σ) (rest : List (WalkCall σ)) (w : Walker) (x : σ) (s : Session)
    {r : ((WalkOutcome × Walker) × σ) × Session}
    (h : w.walk env call.visit call.start call.includeSelf x s = r) :
    walks env (call :: rest) w x s =
      (((r.1.1.1 :: (walks env rest r.1.1.2 r.1.2 r.2).1.1.1,
        (walks env rest r.1.1.2 r.1.2 r.2).1.1.2), (walks env rest r.1.1.2 r.1.2 r.2).1.2),
        (walks env rest r.1.1.2 r.1.2 r.2).2) := by
  subst h
  rfl

/-- What walks offer together. -/
def offersOf (env : Setting) (calls : List (WalkCall σ)) (w : Walker) (x : σ) (s : Session) :
    List Offer :=
  (walks env (calls.map WalkCall.logged) w ([], x) s).1.2.1

/-- Walks with a log are the walks. The log has become longer by what the walker has marked. -/
theorem walks_logged (env : Setting) (calls : List (WalkCall σ)) (w : Walker) (log : List Offer) (x : σ)
    (s : Session) :
    ∃ new, walks env (calls.map WalkCall.logged) w (log, x) s =
        withLog (log ++ new) (walks env calls w x s) ∧
      Marks w (walks env calls w x s).1.1.2 (new.map (·.offered)) := by
  induction calls generalizing w log x s with
  | nil => exact ⟨[], by rw [List.append_nil]; rfl, Marks.refl w⟩
  | cons call rest ih =>
      obtain ⟨new, hrun, hmarks⟩ := walk_logged env call.visit w call.start
        call.includeSelf log x s
      obtain ⟨new', hrun', hmarks'⟩ := ih
        (w.walk env call.visit call.start call.includeSelf x s).1.1.2 (log ++ new)
        (w.walk env call.visit call.start call.includeSelf x s).1.2
        (w.walk env call.visit call.start call.includeSelf x s).2
      refine ⟨new ++ new', ?_, ?_⟩
      · rw [List.map_cons, walks_cons call.logged _ w (log, x) s hrun, walks_cons call rest w x s rfl]
        rw [← List.append_assoc]
        simp only [withLog] at hrun' ⊢
        rw [hrun']
      · rw [List.map_append]
        exact hmarks.trans hmarks'

/-- On a class path that never fails, walks that are not stopped follow their courses. -/
theorem walks_course (hpath : env.classpath.Reliable) {roots : List ClassDefinition}
    {calls : List (WalkCall σ)} (hcalls : ∀ call ∈ calls,
      call.includeSelf = true ∧ Tame env call.visit ∧ call.start ∈ roots)
    {w : Walker} (hsep : Separate env w.interfaces roots) {events : List WalkEvent}
    {opening s : Session} {log : List Offer} {x : σ} (hfollows : Follows env events opening log s)
    (hsurveyed : Surveyed env roots events w)
    (hgoesOn : ∀ outcome ∈ (walks env calls w x s).1.1.1, outcome = .completed) :
    ∃ events' new,
      walks env (calls.map WalkCall.logged) w (log, x) s =
        withLog (log ++ new) (walks env calls w x s) ∧
      Follows env events' opening (log ++ new) (walks env calls w x s).2 ∧
      Surveyed env roots events' (walks env calls w x s).1.1.2 ∧
      (walks env calls w x s).1.1.2.interfaces = w.interfaces ∧
      (∀ d ∈ offeredIn events, d ∈ offeredIn events') ∧
      ∀ call ∈ calls, call.start ∈ offeredIn events' := by
  induction calls generalizing w events s log x with
  | nil =>
      refine ⟨events, [], ?_, ?_, hsurveyed, rfl, fun d hd => hd, by simp⟩
      · rw [List.append_nil]
        rfl
      · rw [List.append_nil]
        exact hfollows
  | cons call rest ih =>
      obtain ⟨start, includeSelf, visit⟩ := call
      obtain ⟨hself, htame, hroot⟩ := hcalls _ List.mem_cons_self
      cases hself
      rw [walks_cons ⟨start, true, visit⟩ rest w x s rfl] at hgoesOn ⊢
      obtain ⟨new, hlogged, hmarks, hplays⟩ := walk_completed hpath htame hfollows.faithful log
        (hgoesOn _ List.mem_cons_self)
      -- the survey of the walks before this one is extended by its course
      obtain ⟨hsurveyed', hstart⟩ := hsurveyed.course hsep hroot
      have hinterfaces : (w.walk env visit start true x s).1.1.2.interfaces = w.interfaces := by
        rw [hmarks]
        rfl
      rw [← hmarks] at hsurveyed'
      obtain ⟨events', new', hrun, hall, hend, hsame, hkept, hstarts⟩ := ih
        (fun c hc => hcalls c (List.mem_cons_of_mem _ hc)) (hinterfaces.symm ▸ hsep)
        (hfollows.trans (hplays.follows htame hfollows.faithful)) hsurveyed'
        (fun outcome ho => hgoesOn outcome (List.mem_cons_of_mem _ ho))
      refine ⟨events', new ++ new', ?_, ?_, hend, hsame.trans hinterfaces, ?_, ?_⟩
      · rw [List.map_cons, walks_cons (WalkCall.logged ⟨start, true, visit⟩) _ w (log, x) s hlogged,
          ← List.append_assoc]
        simp only [withLog] at hrun ⊢
        rw [hrun]
      · rw [← List.append_assoc]
        exact hall
      · intro d hd
        refine hkept d ?_
        rw [offeredIn_append]
        exact List.mem_append_left _ hd
      · intro c hc
        rcases List.mem_cons.mp hc with rfl | hc
        · exact hkept _ hstart
        · exact hstarts c hc

/-! ## The laws of walks -/

/-- What walks that were not stopped have found out. -/
structure Complete (env : Setting) (interfaces : Bool) (roots : List ClassDefinition)
    (opening : Session) (log : List Offer) (w : Walker) (s : Session) : Prop where
  /-- What has been visited are the names of the classes that can be reached. -/
  visited : ∀ n, n ∈ w.visited ↔ ∃ d, ReachedBy env interfaces roots d ∧ d.name = n
  offered : ∀ d, d ∈ log.map (·.offered) ↔ ReachedBy env interfaces roots d
  /-- The parents that are missing are reported, and nothing else but what visitors have found. -/
  problems : ∀ p, p ∈ s.problems ↔ p ∈ opening.problems ∨
    (∃ c name, ReachedBy env interfaces roots c ∧ name ∈ (Walker.fresh interfaces).parents c ∧
      Misses env (.inClass c.name) name p) ∨ ∃ o ∈ log, p ∈ o.found
  /-- Nothing is reported twice. -/
  nodup : opening.problems.Nodup → s.problems.Nodup

/-- What can be said of walks on a class path. -/
structure WalkLaws (env : Setting) (σ : Type) : Prop where
  /-- Over all walks no class name is offered twice, nor one that had been visited before. -/
  once : ∀ (calls : List (WalkCall σ)) (w : Walker) (x : σ) (s : Session),
    walks env (calls.map WalkCall.logged) w ([], x) s =
        withLog (offersOf env calls w x s) (walks env calls w x s) ∧
      Marks w (walks env calls w x s).1.1.2 ((offersOf env calls w x s).map (·.offered))
  /-- If the class path never fails, every walk includes its start and none is stopped, the walks
  offer what can be reached and report what is missing there. -/
  complete : ∀ (calls : List (WalkCall σ)) (interfaces : Bool) (x : σ) (s : Session),
    env.classpath.Reliable → Faithful env s →
    (∀ call ∈ calls, call.includeSelf = true ∧ Tame env call.visit) →
    (∀ outcome ∈ (walks env calls (.fresh interfaces) x s).1.1.1, outcome = .completed) →
    Separate env interfaces (calls.map (·.start)) →
    Complete env interfaces (calls.map (·.start)) s (offersOf env calls (.fresh interfaces) x s)
      (walks env calls (.fresh interfaces) x s).1.1.2 (walks env calls (.fresh interfaces) x s).2
  /-- A walk has offered a beginning of what it offers if it cannot be stopped. -/
  relentless : ∀ (visit : Visitor σ) (w : Walker) (start : ClassDefinition) (includeSelf : Bool)
    (x : σ) (s : Session), offers env visit w start includeSelf x s <+:
      offers env visit.relentless w start includeSelf x s
  /-- If the class path never fails, that is what it offers to any visitor that does not stop it. -/
  begins : ∀ (visit visit' : Visitor σ) (w : Walker) (start : ClassDefinition) (includeSelf : Bool)
    (x x' : σ) (s s' : Session), env.classpath.Reliable → Tame env visit → Tame env visit' →
    Faithful env s → Faithful env s' →
    (w.walk env visit' start includeSelf x' s').1.1.1 = .completed →
    offers env visit w start includeSelf x s <+: offers env visit' w start includeSelf x' s'

/-- Walks that follow their courses have found out what there is. -/
theorem Follows.complete {interfaces : Bool} {roots : List ClassDefinition}
    {events : List WalkEvent} {opening s : Session} {log : List Offer} {w : Walker}
    (h : Follows env events opening log s) (hsurveyed : Surveyed env roots events w)
    (hinterfaces : w.interfaces = interfaces) (hsep : Separate env interfaces roots)
    (hroots : ∀ root ∈ roots, root ∈ offeredIn events) :
    Complete env interfaces roots opening log w s := by
  subst hinterfaces
  have hmem := hsurveyed.mem_iff hsep hroots
  refine ⟨?_, ?_, ?_, h.nodup⟩
  · intro n
    rw [hsurveyed.visited, List.mem_map]
    simp only [hmem]
  · intro d
    rw [h.offered]
    exact hmem d
  · intro p
    rw [h.problems, hsurveyed.missed_iff hsep hroots]
    rfl

/-- Whatever the class path answers and whatever visitors do, the laws of walks hold. -/
theorem walkLaws (env : Setting) (σ : Type) : WalkLaws env σ where
  once calls w x s := by
    obtain ⟨new, hrun, hmarks⟩ := walks_logged env calls w [] x s
    have hnew : offersOf env calls w x s = new := by
      unfold offersOf
      rw [hrun]
      rfl
    rw [hnew]
    exact ⟨hrun, hmarks⟩
  complete calls interfaces x s hpath hs hcalls hgoesOn hsep := by
    have hstarting : ∀ call ∈ calls, call.includeSelf = true ∧ Tame env call.visit ∧
        call.start ∈ calls.map (·.start) := by
      intro call hc
      exact ⟨(hcalls call hc).1, (hcalls call hc).2, List.mem_map_of_mem hc⟩
    obtain ⟨events, new, hrun, hall, hend, hsame, -, hstarts⟩ := walks_course hpath hstarting
      (w := .fresh interfaces) hsep (.refl hs) (surveyed_fresh interfaces) hgoesOn
    have hnew : offersOf env calls (.fresh interfaces) x s = new := by
      unfold offersOf
      rw [hrun]
      rfl
    rw [hnew]
    refine hall.complete hend hsame hsep ?_
    intro root hroot
    obtain ⟨call, hcall, rfl⟩ := List.mem_map.mp hroot
    exact hstarts call hcall
  relentless visit w start includeSelf x s := walk_relentless env visit w start includeSelf x s
  begins visit visit' w start includeSelf x x' s s' hpath hv hv' hs hs' hgoesOn :=
    offers_prefix hpath hv hv' w start includeSelf x x' hs hs' hgoesOn

/-! ## Walks over few classes -/

/-- A class of which only the parents matter. -/
def classUnder (name : String) (super : Option String) (interfaces : List String) : ClassDefinition :=
  ⟨name, ⟨1⟩, super, interfaces, [], [], [], [], false, 52⟩

/-- A class path of these classes, which never fails. -/
def settingOn (classes : List ClassDefinition) : Setting :=
  ⟨[⟨.plugin, .reliable ⟨"classes", classes⟩⟩], ⟨[]⟩, none⟩

/-- A walk that nobody stops. -/
def walkFrom (start : ClassDefinition) : WalkCall Unit := ⟨start, true, fun _ => pure true⟩

theorem reliable_settingOn (classes : List ClassDefinition) :
    (settingOn classes).classpath.Reliable := by
  intro layer hlayer n name
  rw [List.mem_singleton.mp hlayer]
  rfl

theorem classes_settingOn (classes : List ClassDefinition) :
    (settingOn classes).classpath.classes = classes := List.append_nil classes

/-- Names tell these classes apart if each stands for its class. -/
theorem separate_settingOn {classes roots : List ClassDefinition} (hroots : ∀ c ∈ roots, c ∈ classes)
    (hown : ∀ d ∈ classes, (settingOn classes).resolved d.name = some d) :
    Separate (settingOn classes) true roots := by
  refine separate_of_own fun d hd => hown d (hd.mem hroots ?_)
  intro c _ name _ e hresolved
  have hmem := Classpath.mem_classes_of_definition? (definition?_of_resolved hresolved)
  rwa [classes_settingOn] at hmem

/-- A class that two others extend, one of which is extended by it in turn, and a parent that is
missing. -/
def diamond : List ClassDefinition :=
  [classUnder "d/Root" (some "d/A") ["d/B", "x/Gone"], classUnder "d/A" (some "d/C") [],
    classUnder "d/B" (some "d/C") [], classUnder "d/C" (some "d/A") []]

theorem separate_diamond : Separate (settingOn diamond) true diamond :=
  separate_settingOn (fun _ h => h) (by decide)

/-- Walks from these classes offer each once, and report what is missing. -/
theorem walkLaws_diamond :
    (walks (settingOn diamond) (diamond.map walkFrom) (.fresh true) ()
        (.start (settingOn diamond))).1.1.2.visited = ["d/Root", "d/A", "d/B", "d/C"] ∧
      .classNotFound "x/Gone" (.inClass "d/Root") ∈ (walks (settingOn diamond) (diamond.map walkFrom)
        (.fresh true) () (.start (settingOn diamond))).2.problems := by
  have hcomplete := (walkLaws (settingOn diamond) Unit).complete (diamond.map walkFrom) true ()
    (.start (settingOn diamond)) (reliable_settingOn diamond) (faithful_start _)
    (by
      intro call hcall
      obtain ⟨start, -, rfl⟩ := List.mem_map.mp hcall
      exact ⟨rfl, tame_of_regular (reliable_settingOn diamond) fun _ _ => .pure _⟩)
    (by decide) separate_diamond
  refine ⟨rfl, (hcomplete.problems _).mpr (Or.inr (Or.inl ?_))⟩
  exact ⟨classUnder "d/Root" (some "d/A") ["d/B", "x/Gone"], "x/Gone",
    ⟨_, List.mem_cons_self, .refl⟩, by decide, "x/Gone", rfl, rfl, rfl, rfl⟩

/-- Two classes of one name, and a class that only the second one extends. -/
def namesakes : List ClassDefinition :=
  [classUnder "p/A" (some "java/lang/Object") [], classUnder "p/A" (some "p/B") [],
    classUnder "p/B" (some "java/lang/Object") [], classUnder "java/lang/Object" none []]

/-- A class that is named as an array is, and a class that gives the array of another class as its
parent. -/
def arrayed : List ClassDefinition :=
  [classUnder "[LY;" (some "java/lang/Object") [], classUnder "p/A" (some "[LY;") [],
    classUnder "java/lang/Object" none []]

/-- A class that has the name of one visited before is not offered, and neither is what only that class
leads to. The class `Y` that the second class of `arrayed` needs is missing, but the name of its parent
is that of a class visited before, so nobody sees it. An array of numbers is a parent that stands for
no class, and is not missed. -/
theorem walks_mistaken :
    ((walks (settingOn namesakes) ((namesakes.take 2).map walkFrom) (.fresh true) ()
        (.start (settingOn namesakes))).1.1 =
        (.replicate 2 .completed, ⟨true, ["p/A", "java/lang/Object"]⟩) ∧
      ReachedBy (settingOn namesakes) true (namesakes.take 2)
        (classUnder "p/B" (some "java/lang/Object") [])) ∧
    ((walks (settingOn arrayed) (arrayed.map walkFrom) (.fresh true) ()
        (.start (settingOn arrayed))).1.1 =
        (.replicate 3 .completed, ⟨true, ["[LY;", "java/lang/Object", "p/A"]⟩) ∧
      (walks (settingOn arrayed) (arrayed.map walkFrom) (.fresh true) ()
        (.start (settingOn arrayed))).2.problems = [] ∧
      "[LY;" ∈ (Walker.fresh true).parents (classUnder "p/A" (some "[LY;") []) ∧
      (settingOn arrayed).resolved "[LY;" = none ∧
      Misses (settingOn arrayed) (.inClass "p/A") "[LY;" (.classNotFound "Y" (.inClass "p/A"))) ∧
    ((walks (settingOn []) [walkFrom (classUnder "p/C" (some "[I") [])] (.fresh true) ()
        (.start (settingOn []))).2.problems = [] ∧
      (settingOn []).resolved "[I" = none ∧ (settingOn []).external.covers "[I" = false) := by
  have hsecond : classUnder "p/A" (some "p/B") [] ∈ namesakes.take 2 := by decide
  have hreached : ReachedBy (settingOn namesakes) true (namesakes.take 2)
      (classUnder "p/B" (some "java/lang/Object") []) :=
    ⟨_, hsecond, .single ⟨"p/B", by decide, rfl⟩⟩
  have hmisses : Misses (settingOn arrayed) (.inClass "p/A") "[LY;"
      (.classNotFound "Y" (.inClass "p/A")) := ⟨"Y", rfl, rfl, rfl, rfl⟩
  exact ⟨⟨rfl, hreached⟩, ⟨rfl, rfl, by decide, rfl, hmisses⟩, ⟨rfl, rfl, rfl⟩⟩

end Linkage

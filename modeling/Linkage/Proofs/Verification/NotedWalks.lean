import Linkage.Proofs.Verification.Notes

/-!
# Walks with notes

The walks of a run share a walker, so that no class is offered twice in the course of them. As long as
the rules do what they may, the notes are those on the classes that have been offered.

* **`Rule.IsTame`** — a rule that does to a session no more than sessions allow;
* **`Seen`** — what the walks of a run have offered so far, and the notes that they have made;
* **`Seen.walk`**, **`Seen.walkAll`** — one walk, and all of them.
-/

namespace Linkage

/-! ## Rules that do what they may -/

/-- A check does to a session no more than sessions allow, on a class path that never fails: what the
session gets to know is what the class path says, and no problem is taken back or there twice. -/
structure TameCheck (env : Setting) (check : Check Unit) : Prop where
  faithful : ∀ s, Faithful env s → Faithful env (check s).2
  keeps : ∀ s, Faithful env s → ∀ p ∈ s.problems, p ∈ (check s).2.problems
  nodup : ∀ s, s.problems.Nodup → (check s).2.problems.Nodup

/-- All checks of a rule are tame. -/
def Rule.IsTame (env : Setting) : Rule → Prop
  | .ofClass check => ∀ c, TameCheck env (check env c)
  | .ofMethod check => ∀ c m, TameCheck env (check env c m)
  | .ofField check => ∀ c f, TameCheck env (check env c f)

/-- All rules of a registry are tame. -/
def RuleRegistry.IsTame (env : Setting) (r : RuleRegistry) : Prop := ∀ rule ∈ r.values, rule.IsTame env

namespace TameCheck

variable {env : Setting} {check check' : Check Unit}

theorem pure : TameCheck env (Pure.pure ()) := ⟨fun _ h => h, fun _ _ _ h => h, fun _ h => h⟩

theorem bind (h : TameCheck env check) (h' : TameCheck env check') :
    TameCheck env (check >>= fun _ => check') where
  faithful s hs := h'.faithful (check s).2 (h.faithful s hs)
  keeps s hs p hp := h'.keeps (check s).2 (h.faithful s hs) p (h.keeps s hs p hp)
  nodup s hs := h'.nodup (check s).2 (h.nodup s hs)

theorem each {α : Type} {xs : List α} {check : α → Check Unit} (h : ∀ x ∈ xs, TameCheck env (check x)) :
    TameCheck env (Check.each xs check) := by
  induction xs with
  | nil => exact pure
  | cons x rest ih => exact bind (h x List.mem_cons_self) (ih fun y hy => h y (List.mem_cons_of_mem _ hy))

/-- Checks that are put together from look-ups and findings are tame. -/
theorem of_regular (hpath : env.classpath.Reliable) (h : Regular env check) : TameCheck env check where
  faithful _ hs := (h.faithful hpath hs).2.1
  keeps _ hs p hp := ((h.faithful hpath hs).2.2.problems p).mpr (Or.inl hp)
  nodup _ hs := h.nodup hs

theorem onClass {rule : Rule} (h : rule.IsTame env) (c : ClassDefinition) :
    TameCheck env (rule.runOnClass env c) := by
  cases rule with
  | ofClass check => exact h c
  | ofMethod check => exact pure
  | ofField check => exact pure

theorem onMembers {rule : Rule} (h : rule.IsTame env) (c : ClassDefinition) :
    TameCheck env (rule.runOnMembers env c) := by
  cases rule with
  | ofClass check => exact pure
  | ofMethod check => exact each fun m _ => h c m
  | ofField check => exact each fun f _ => h c f

end TameCheck

/-- A registry of rules that are put together from look-ups and findings is tame. -/
theorem RuleRegistry.IsRegular.tame {env : Setting} (hpath : env.classpath.Reliable)
    {r : RuleRegistry} (h : r.IsRegular) : r.IsTame env := by
  intro rule hrule
  have hregular := h rule hrule
  cases rule with
  | ofClass check => exact fun c => .of_regular hpath (hregular env c)
  | ofMethod check => exact fun c m => .of_regular hpath (hregular env c m)
  | ofField check => exact fun c f => .of_regular hpath (hregular env c f)

namespace Verification

variable {σ κ : Type} {engine : Engine} {input : VerificationInput σ κ} {env : Setting}
  {excluded : List String} {g : DependencyGraph κ}

/-- A visitor that runs tame rules is tame. -/
theorem tame_notedOffered (hrules : engine.rules.IsTame env) :
    Tame env (notedOffered engine env excluded) := by
  have hcheck : ∀ c, TameCheck env (do
      engine.rules.runOnClass env c
      engine.rules.runOnMembers env c) := fun c =>
    .bind (.each fun rule hrule => .onClass (hrules rule hrule) c)
      (.each fun rule hrule => .onMembers (hrules rule hrule) c)
  have hvisit : ∀ c notes s, (notedOffered engine env excluded c notes s).2 =
      ((if env.isPluginClass c.name && !excluded.contains c.name then do
          engine.rules.runOnClass env c
          engine.rules.runOnMembers env c
        else pure () : Check Unit) s).2 := by
    intro c notes s
    rw [notedOffered_eq]
    unfold checkOffered
    split
    · rfl
    · rfl
  have htame : ∀ c, TameCheck env (if env.isPluginClass c.name && !excluded.contains c.name then do
      engine.rules.runOnClass env c
      engine.rules.runOnMembers env c
    else pure ()) := by
    intro c
    split
    · exact hcheck c
    · exact .pure
  refine ⟨?_, ?_, ?_⟩
  · intro c notes s
    rw [hvisit]
    exact (htame c).faithful s
  · intro c notes s
    rw [hvisit]
    exact (htame c).keeps s
  · intro c notes s
    rw [hvisit]
    exact (htame c).nodup s

/-- The notes of a walk are those on the classes that it offers. -/
theorem notes_of_plays {events : List WalkEvent} {notes notes' : List Invocation} {s s' : Session}
    {new : List Offer} (h : Plays env (notedOffered engine env excluded) events notes s new notes' s') :
    notes' = notes ++ (offeredIn events).flatMap (notesOn engine env excluded) := by
  induction h with
  | none => exact (List.append_nil _).symm
  | known _ _ _ ih => exact ih
  | miss _ _ _ ih => exact ih
  | @offer events notes notes₁ _ s _ _ _ d hvisit _ ih =>
      rw [notedOffered_eq] at hvisit
      have hnotes : notes ++ notesOn engine env excluded d = notes₁ := congrArg (·.1.2) hvisit
      rw [ih, ← hnotes, List.append_assoc]
      rfl

/-! ## Walks of a run with notes -/

/-- The classes that the walks of a run have offered, and the notes that they have made. -/
structure Seen (engine : Engine) (env : Setting) (excluded : List String) (seen : List ClassDefinition)
    (w : Walking) (notes : List Invocation) : Prop where
  faithful : Faithful env w.session
  visited : w.walker.visited = seen.map (·.name)
  distinct : (seen.map (·.name)).Nodup
  known : ∀ d ∈ seen, env.classpath.definition? d.name = some d
  notes : notes = seen.flatMap (notesOn engine env excluded)

/-- A class whose name has been visited has been offered. -/
theorem Seen.mem_of_visited {seen : List ClassDefinition} {w : Walking} {notes : List Invocation}
    (h : Seen engine env excluded seen w notes) {c : ClassDefinition}
    (hc : env.classpath.definition? c.name = some c) (hvisited : c.name ∈ w.walker.visited) :
    c ∈ seen := by
  rw [h.visited] at hvisited
  obtain ⟨d, hd, hname⟩ := List.mem_map.mp hvisited
  have hsame := h.known d hd
  rw [hname, hc] at hsame
  injection hsame with hsame
  exact hsame ▸ hd

/-- One walk of a run. -/
theorem Seen.walk (hpath : env.classpath.Reliable) (hrules : engine.rules.IsTame env)
    {seen : List ClassDefinition} {w : Walking} {notes : List Invocation}
    (h : Seen engine env excluded seen w notes) {c : ClassDefinition}
    (hc : env.classpath.definition? c.name = some c) :
    ∃ new w' notes', notedWalkClass engine env excluded w c notes = (w', none, notes') ∧
      Seen engine env excluded (seen ++ new) w' notes' ∧ c ∈ seen ++ new := by
  have htame : Tame env (notedOffered engine env excluded) := tame_notedOffered hrules
  have hgoesOn := completed_of_goesOn hpath htame
    (fun d x s => by rw [notedOffered_eq]; unfold checkOffered; split <;> rfl)
    w.walker c true notes h.faithful
  obtain ⟨new, hlogged, hwalker, hplays⟩ := walk_completed hpath htame h.faithful [] hgoesOn
  obtain ⟨new', hlogged', hmarks⟩ :=
    walk_logged env (notedOffered engine env excluded) w.walker c true [] notes w.session
  have hnew : new = new' := congrArg (·.1.2.1) (hlogged.symm.trans hlogged')
  rw [← hnew, hplays.offered] at hmarks
  have hfaithful := hplays.faithful htame h.faithful
  have hnotes := notes_of_plays hplays
  rw [notedWalkClass_def]
  simp only
  generalize w.walker.walk env (notedOffered engine env excluded) c true notes w.session = r
    at hwalker hmarks hfaithful hnotes ⊢
  obtain ⟨⟨⟨outcome, walker⟩, notes'⟩, session⟩ := r
  refine ⟨offeredIn (w.walker.course env c true), ⟨walker, { session with failure := none }⟩, notes',
    ?_, ⟨hfaithful.of_eq rfl hfaithful.unfailed.symm, ?_, ?_, ?_, ?_⟩, ?_⟩
  · have hnone : session.failure = none := hfaithful.unfailed
    rw [hnone]
  · rw [List.map_append, ← h.visited]
    exact hmarks.visited
  · rw [List.map_append]
    refine List.nodup_append.mpr ⟨h.distinct, hmarks.nodup, ?_⟩
    rintro n hn n' hn' rfl
    obtain ⟨d, hd, rfl⟩ := List.mem_map.mp hn'
    exact hmarks.fresh d hd (h.visited ▸ hn)
  · intro d hd
    rcases List.mem_append.mp hd with hd | hd
    · exact h.known d hd
    · exact definition?_of_offered hc hd
  · rw [List.flatMap_append, ← h.notes]
    exact hnotes
  · -- the start has been visited, or it is what the walk offers first
    unfold Walker.course
    rw [if_pos rfl]
    split
    · next hvisited =>
        exact List.mem_append_left _ (h.mem_of_visited hc (List.contains_iff_mem.mp hvisited))
    · exact List.mem_append_right _ List.mem_cons_self

/-- The walks of a run that nobody stops. -/
theorem Seen.walkAll (hpath : env.classpath.Reliable) (hrules : engine.rules.IsTame env)
    (hgoesOn : ∀ s, (input.shouldStop.run s).1 = false)
    (hplugin : ∀ name c, input.plugin.classes.get? name = some c →
      env.classpath.definition? c.name = some c)
    (total done : Nat) (names : List String) {seen : List ClassDefinition} {w : Walking}
    {notes : List Invocation} (h : Seen engine env excluded seen w notes) (s : σ) :
    ∃ new session s', (notedWalkAll engine input env excluded total done names w notes).run s =
        ((.ok session, (seen ++ new).flatMap (notesOn engine env excluded)), s') ∧
      ((seen ++ new).map (·.name)).Nodup ∧
      (∀ d ∈ seen ++ new, env.classpath.definition? d.name = some d) ∧
      ∀ name ∈ names, ∀ c, input.plugin.classes.get? name = some c → c ∈ seen ++ new := by
  induction names generalizing done seen w notes s with
  | nil =>
      refine ⟨[], w.session, (input.shouldStop.run s).2, ?_, ?_, ?_, by simp⟩
      · unfold notedWalkAll
        rw [StateT.run_bind, List.append_nil, ← h.notes]
        show ((if (input.shouldStop.run s).1 = true then _ else _ : StateM σ _).run
          (input.shouldStop.run s).2) = _
        rw [hgoesOn]
        rfl
      · rw [List.append_nil]
        exact h.distinct
      · rw [List.append_nil]
        exact h.known
  | cons name rest ih =>
      rw [run_notedWalkAll_cons _ _ _ _ (hgoesOn s)]
      cases hget : input.plugin.classes.get? name with
      | none =>
          obtain ⟨new, session, s', hrun, hdistinct, hknown, hall⟩ :=
            ih (done + 1) h (input.shouldStop.run s).2
          refine ⟨new, session, s', hrun, hdistinct, hknown, ?_⟩
          intro n hn c hc
          rcases List.mem_cons.mp hn with rfl | hn
          · rw [hget] at hc
            cases hc
          · exact hall n hn c hc
      | some c =>
          obtain ⟨new, w', notes', hwalk, hseen, hmem⟩ := h.walk hpath hrules (hplugin name c hget)
          simp only [hwalk]
          obtain ⟨new', session, s', hrun, hdistinct, hknown, hall⟩ := ih (done + 1) hseen
            ((input.progress (Float.ofNat (done + 1) / Float.ofNat total)).run
              (input.shouldStop.run s).2).2
          rw [List.append_assoc] at hrun hdistinct hknown hall
          refine ⟨new ++ new', session, s', hrun, hdistinct, hknown, ?_⟩
          intro n hn d hd
          rcases List.mem_cons.mp hn with rfl | hn
          · rw [hget] at hd
            injection hd with hd
            rw [← hd, ← List.append_assoc]
            exact List.mem_append_left _ hmem
          · exact hall n hn d hd

end Verification

end Linkage

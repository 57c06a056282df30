import Linkage.Proofs.Hierarchy.Offers
import Linkage.Proofs.Check.Faithful

/-!
# The course of a walk

On a class path that never fails it is settled beforehand what a walk comes to: which classes it will
offer and which parents it will miss, in order. The visitor decides only how far the walk gets.

* **`Walker.course`** — what a walk comes to, from the classes alone;
* **`Tame`** — visitors that know classes as the class path has them and take no findings back;
* **`Plays`** — what it takes for a sequence of events to come, one after the other;
* **`Follows`** — what they leave behind, whoever the visitors were;
* **`walk_course`** — a walk plays its course to the end, or to where its visitor stops it;
* **`offers_prefix`** — it offers a beginning of what it offers to any visitor that lets it go on.
-/

namespace Linkage

/-! ## Courses -/

/-- What a walk comes to. -/
inductive WalkEvent where
  /-- A class that has not been offered. -/
  | offer (d : ClassDefinition)
  /-- A parent of `c` that stands for no class. -/
  | miss (c : ClassDefinition) (name : String)
  deriving DecidableEq

/-- The class that is offered. -/
def WalkEvent.offered? : WalkEvent → Option ClassDefinition
  | .offer d => some d
  | .miss _ _ => none

/-- The classes that are offered, in order. -/
def offeredIn (events : List WalkEvent) : List ClassDefinition := events.filterMap WalkEvent.offered?

namespace Walker

/-- Classes are marked in turn. -/
def markAll (w : Walker) (new : List ClassDefinition) : Walker :=
  { w with visited := w.visited ++ new.map (·.name) }

/-- What comes of the parents of a class. -/
def courseOfParents (env : Setting) (c : ClassDefinition) : List String → Walker → List WalkEvent
  | [], _ => []
  | name :: rest, w =>
    if w.hasVisited name then courseOfParents env c rest w
    else
      match env.resolved name with
      | none => .miss c name :: courseOfParents env c rest w
      | some d =>
        if w.hasVisited d.name then courseOfParents env c rest w
        else .offer d :: courseOfParents env c rest (w.mark d.name)

/-- What comes of pending classes, and of what they lead to. -/
def courseOfPending (env : Setting) : Nat → List ClassDefinition → Walker → List WalkEvent
  | 0, _, _ => []
  | _, [], _ => []
  | bound + 1, c :: pending, w =>
    let events := courseOfParents env c (w.parents c) w
    events ++ courseOfPending env bound (offeredIn events ++ pending) (w.markAll (offeredIn events))

/-- What comes of a walk. -/
def course (env : Setting) (w : Walker) (start : ClassDefinition) (includeSelf : Bool) :
    List WalkEvent :=
  if includeSelf then
    if w.hasVisited start.name then []
    else .offer start ::
      courseOfPending env (env.classpath.size + 1) [start] (w.mark start.name)
  else courseOfPending env (env.classpath.size + 1) [start] w

theorem markAll_nil (w : Walker) : w.markAll [] = w := by
  unfold markAll
  rw [List.map_nil, List.append_nil]

theorem markAll_cons (w : Walker) (d : ClassDefinition) (new : List ClassDefinition) :
    w.markAll (d :: new) = (w.mark d.name).markAll new := by
  unfold markAll mark
  rw [List.map_cons, List.append_assoc]
  rfl

theorem markAll_append (w : Walker) (new new' : List ClassDefinition) :
    w.markAll (new ++ new') = (w.markAll new).markAll new' := by
  unfold markAll
  rw [List.map_append, List.append_assoc]

end Walker

theorem offeredIn_append (events events' : List WalkEvent) :
    offeredIn (events ++ events') = offeredIn events ++ offeredIn events' := List.filterMap_append

/-! ## Visitors -/

section Visitors

variable {σ : Type} {env : Setting} {visit : Visitor σ}

/-- A visitor that knows classes as the class path has them and takes no findings back. -/
structure Tame (env : Setting) (visit : Visitor σ) : Prop where
  faithful : ∀ c x s, Faithful env s → Faithful env (visit c x s).2
  keeps : ∀ c x s, Faithful env s → ∀ p ∈ s.problems, p ∈ (visit c x s).2.problems
  /-- No problem is there twice. -/
  nodup : ∀ c x s, s.problems.Nodup → (visit c x s).2.problems.Nodup

/-- A check that is put together from look-ups and findings finds no problem twice. -/
theorem Regular.nodup {α : Type} {m : Check α} (hm : Regular env m) {s : Session}
    (h : s.problems.Nodup) : (m s).2.problems.Nodup := by
  induction hm generalizing s with
  | pure x => exact h
  | bind _ _ ihm ihf => exact ihf _ (ihm h)
  | lookup name =>
      show (s.lookup env name).2.problems.Nodup
      unfold Session.lookup
      repeat' split
      all_goals exact h
  | missed location plain =>
      rw [missed_eq]
      show (if _ then _ else s : Session).problems.Nodup
      split
      · exact nodup_insertNew h _
      · exact h
  | problem p => exact nodup_insertNew h p
  | warning w => exact h

/-- Visitors that look classes up and add findings are tame. -/
theorem tame_of_regular (hpath : env.classpath.Reliable) (h : ∀ c x, Regular env (visit c x)) :
    Tame env visit where
  faithful c x _ hs := ((h c x).faithful hpath hs).2.1
  keeps c x _ hs p hp := (((h c x).faithful hpath hs).2.2.problems p).mpr (Or.inl hp)
  nodup c x _ hs := (h c x).nodup hs

/-! ## Sequences of events -/

/-- A name has been looked up where it matters that it stands for a class. -/
structure Asks (env : Setting) (c : ClassDefinition) (name : String) (s s' : Session) : Prop where
  faithful : Faithful env s'
  problems : ∀ p, p ∈ s'.problems ↔ p ∈ s.problems ∨ Misses env (.inClass c.name) name p
  warnings : s'.warnings = s.warnings
  nodup : s.problems.Nodup → s'.problems.Nodup

/-- These events have come, with the offers `new`: the visitor was offered the classes and let the walk
go on, and the parents that stand for no class were asked for, as others were that do. -/
inductive Plays (env : Setting) (visit : Visitor σ) :
    List WalkEvent → σ → Session → List Offer → σ → Session → Prop
  | none (x : σ) (s : Session) : Plays env visit [] x s [] x s
  | known {events : List WalkEvent} {x x' : σ} {s s₁ s' : Session} {new : List Offer}
      {c d : ClassDefinition} {name : String} (hresolved : env.resolved name = some d)
      (hasks : Asks env c name s s₁) (hrest : Plays env visit events x s₁ new x' s') :
      Plays env visit events x s new x' s'
  | miss {events : List WalkEvent} {x x' : σ} {s s₁ s' : Session} {new : List Offer}
      {c : ClassDefinition} {name : String} (hresolved : env.resolved name = none)
      (hasks : Asks env c name s s₁) (hrest : Plays env visit events x s₁ new x' s') :
      Plays env visit (.miss c name :: events) x s new x' s'
  | offer {events : List WalkEvent} {x x₁ x' : σ} {s s₁ s' : Session} {new : List Offer}
      {d : ClassDefinition} (hvisit : visit d x s = ((true, x₁), s₁))
      (hrest : Plays env visit events x₁ s₁ new x' s') :
      Plays env visit (.offer d :: events) x s
        (⟨d, s₁.problems.filter (· ∉ s.problems)⟩ :: new) x' s'

/-- Some of these events have come, and the visitor has stopped the walk. -/
structure Begins (env : Setting) (visit : Visitor σ) (events : List WalkEvent) (new : List Offer)
    (s' : Session) : Prop where
  faithful : Faithful env s'
  offered : new.map (·.offered) <+: offeredIn events
  stops : ∃ d x s, (visit d x s).1.1 = false

/-- All these events have come, with the offers `new`. -/
structure Follows (env : Setting) (events : List WalkEvent) (s : Session) (new : List Offer)
    (s' : Session) : Prop where
  faithful : Faithful env s'
  offered : new.map (·.offered) = offeredIn events
  problems : ∀ p, p ∈ s'.problems ↔ p ∈ s.problems ∨
    (∃ c name, .miss c name ∈ events ∧ Misses env (.inClass c.name) name p) ∨
      ∃ o ∈ new, p ∈ o.found
  nodup : s.problems.Nodup → s'.problems.Nodup

variable {s s₁ s' : Session} {x x₁ x' : σ} {events events' : List WalkEvent} {new new' : List Offer}

theorem Plays.trans (h : Plays env visit events x s new x₁ s₁)
    (h' : Plays env visit events' x₁ s₁ new' x' s') :
    Plays env visit (events ++ events') x s (new ++ new') x' s' := by
  induction h with
  | none => exact h'
  | known hresolved hasks _ ih => exact .known hresolved hasks (ih h')
  | miss hresolved hasks _ ih => exact .miss hresolved hasks (ih h')
  | offer hvisit _ ih => exact .offer hvisit (ih h')

theorem Plays.faithful (h : Plays env visit events x s new x' s') (hv : Tame env visit)
    (hs : Faithful env s) : Faithful env s' := by
  induction h with
  | none => exact hs
  | known _ hasks _ ih => exact ih hasks.faithful
  | miss _ hasks _ ih => exact ih hasks.faithful
  | @offer _ x _ _ s _ _ _ d hvisit _ ih =>
      refine ih ?_
      have hfaithful := hv.faithful d x s hs
      rw [hvisit] at hfaithful
      exact hfaithful

/-- What is offered are the classes of the events. -/
theorem Plays.offered (h : Plays env visit events x s new x' s') :
    new.map (·.offered) = offeredIn events := by
  induction h with
  | none => rfl
  | known _ _ _ ih => exact ih
  | miss _ _ _ ih => exact ih
  | offer _ _ ih => exact congrArg _ ih

theorem Plays.begins (h : Plays env visit events x s new x₁ s₁)
    (h' : Begins env visit events' new' s') :
    Begins env visit (events ++ events') (new ++ new') s' := by
  refine ⟨h'.faithful, ?_, h'.stops⟩
  rw [List.map_append, h.offered, offeredIn_append]
  exact (List.prefix_append_right_inj _).mpr h'.offered

theorem Begins.append (h : Begins env visit events new s') (events' : List WalkEvent) :
    Begins env visit (events ++ events') new s' := by
  refine ⟨h.faithful, ?_, h.stops⟩
  rw [offeredIn_append]
  exact h.offered.trans (List.prefix_append _ _)

theorem Follows.refl (hs : Faithful env s) : Follows env [] s [] s :=
  ⟨hs, rfl, by simp, fun h => h⟩

theorem Follows.trans (h : Follows env events s new s₁) (h' : Follows env events' s₁ new' s') :
    Follows env (events ++ events') s (new ++ new') s' := by
  refine ⟨h'.faithful, ?_, ?_, fun hs => h'.nodup (h.nodup hs)⟩
  · rw [List.map_append, h.offered, h'.offered, offeredIn_append]
  · intro p
    rw [h'.problems, h.problems]
    simp only [List.mem_append, or_and_right, exists_or]
    refine iff_of_eq ?_
    ac_rfl

/-- A name that stands for a class adds nothing. -/
theorem Asks.follows {c : ClassDefinition} {name : String} (h : Asks env c name s s') :
    Follows env (if (env.resolved name).isSome then [] else [.miss c name]) s [] s' := by
  cases hresolved : env.resolved name with
  | none =>
      refine ⟨h.faithful, rfl, ?_, h.nodup⟩
      intro p
      rw [h.problems]
      simp
  | some d =>
      refine ⟨h.faithful, rfl, ?_, h.nodup⟩
      intro p
      have hnot : ¬ Misses env (.inClass c.name) name p := not_misses_of_resolved hresolved
      rw [h.problems]
      simp [hnot]

/-- A class is offered. -/
theorem Tame.follows (hv : Tame env visit) (hs : Faithful env s) (d : ClassDefinition) (x : σ) :
    Follows env [.offer d] s [⟨d, (visit d x s).2.problems.filter (· ∉ s.problems)⟩]
      (visit d x s).2 := by
  refine ⟨hv.faithful d x s hs, rfl, ?_, hv.nodup d x s⟩
  intro p
  have hkeeps := hv.keeps d x s hs p
  by_cases hp : p ∈ s.problems
  · simp [hp, hkeeps hp]
  · simp [hp]

/-- What there is of problems after events that have come. -/
theorem Plays.follows (h : Plays env visit events x s new x' s') (hv : Tame env visit)
    (hs : Faithful env s) : Follows env events s new s' := by
  induction h with
  | none => exact .refl hs
  | known hresolved hasks _ ih =>
      have hasked := hasks.follows
      rw [hresolved] at hasked
      exact hasked.trans (ih hasks.faithful)
  | miss hresolved hasks _ ih =>
      have hasked := hasks.follows
      rw [hresolved] at hasked
      exact hasked.trans (ih hasks.faithful)
  | @offer _ x _ _ s _ _ _ d hvisit _ ih =>
      have hoffer := hv.follows hs d x
      rw [hvisit] at hoffer
      exact hoffer.trans (ih hoffer.faithful)

/-! ## Walks follow their courses -/

theorem resolveAt_asks (hpath : env.classpath.Reliable) (hs : Faithful env s)
    (c : ClassDefinition) (name : String) :
    ∃ s₁, resolveAt env (.inClass c.name) name s = (env.resolved name, s₁) ∧
      Asks env c name s s₁ := by
  obtain ⟨s₁, hresolve, hs₁, hproblems, hwarnings⟩ := hs.resolveAt hpath (.inClass c.name) name
  refine ⟨s₁, hresolve, hs₁, hproblems, hwarnings, ?_⟩
  intro h
  have hcheck : Regular env (resolveAt env (.inClass c.name) name) := .resolveAt _ name
  have hregular := hcheck.nodup h
  rw [hresolve] at hregular
  exact hregular

/-- Offering the parents of a class. -/
theorem offerParents_course (hpath : env.classpath.Reliable) (hv : Tame env visit)
    (c : ClassDefinition) (names : List String) (w : Walker) (offered : List ClassDefinition)
    (log : List Offer) (x : σ) {s : Session} (hs : Faithful env s) :
    ∃ new x' s',
      (offerParents env visit.logged c names w offered (log, x) s =
          (((some (offered.reverse ++ offeredIn (w.courseOfParents env c names)),
            w.markAll (offeredIn (w.courseOfParents env c names))), (log ++ new, x')), s') ∧
        Plays env visit (w.courseOfParents env c names) x s new x' s') ∨
      ∃ w', offerParents env visit.logged c names w offered (log, x) s =
          (((none, w'), (log ++ new, x')), s') ∧
        Begins env visit (w.courseOfParents env c names) new s' := by
  induction names generalizing w offered log x s with
  | nil =>
      refine ⟨[], x, s, Or.inl ⟨?_, .none x s⟩⟩
      show _ = (((some (offered.reverse ++ []), w.markAll []), (log ++ [], x)), s)
      rw [List.append_nil, List.append_nil, Walker.markAll_nil]
      rfl
  | cons name rest ih =>
      rw [offerParents_cons]
      unfold Walker.courseOfParents
      split
      · exact ih w offered log x hs
      · obtain ⟨s₁, hresolve, hasks⟩ := resolveAt_asks hpath hs c name
        rw [hresolve]
        cases hresolved : env.resolved name with
        | none =>
            have hasked : Plays env visit [.miss c name] x s [] x s₁ :=
              .miss hresolved hasks (.none x s₁)
            obtain ⟨new, x', s', ⟨hrun, hrest⟩ | ⟨w', hrun, hrest⟩⟩ :=
              ih w offered log x hasks.faithful
            · exact ⟨new, x', s', Or.inl ⟨hrun, hasked.trans hrest⟩⟩
            · exact ⟨new, x', s', Or.inr ⟨w', hrun, hasked.begins hrest⟩⟩
        | some d =>
            have hasked : Plays env visit [] x s [] x s₁ := .known hresolved hasks (.none x s₁)
            simp only
            split
            · obtain ⟨new, x', s', ⟨hrun, hrest⟩ | ⟨w', hrun, hrest⟩⟩ :=
                ih w offered log x hasks.faithful
              · exact ⟨new, x', s', Or.inl ⟨hrun, hasked.trans hrest⟩⟩
              · exact ⟨new, x', s', Or.inr ⟨w', hrun, hasked.begins hrest⟩⟩
            · have hfaithful := hv.faithful d x s₁ hasks.faithful
              rcases hvisit : visit d x s₁ with ⟨⟨goesOn, x₂⟩, s₂⟩
              rw [hvisit] at hfaithful
              have hlogged : visit.logged d (log, x) s₁ =
                  ((goesOn, (log ++ [⟨d, s₂.problems.filter (· ∉ s₁.problems)⟩], x₂)), s₂) := by
                simp only [Visitor.logged, hvisit]
              rw [hlogged]
              cases goesOn with
              | false =>
                  -- the class at which the visitor stops has been offered
                  refine ⟨_, x₂, s₂, Or.inr ⟨_, rfl, hfaithful, ?_, d, x, s₁, ?_⟩⟩
                  · exact List.prefix_append [d] _
                  · rw [hvisit]
              | true =>
                  have hoffer := hasked.trans (.offer hvisit (.none x₂ s₂))
                  obtain ⟨new, x', s', ⟨hrun, hrest⟩ | ⟨w', hrun, hrest⟩⟩ :=
                    ih (w.mark d.name) (d :: offered)
                      (log ++ [⟨d, s₂.problems.filter (· ∉ s₁.problems)⟩]) x₂ hfaithful
                  · refine ⟨_, x', s', Or.inl ⟨?_, hoffer.trans hrest⟩⟩
                    rw [List.reverse_cons, List.append_assoc, List.append_assoc log,
                      ← Walker.markAll_cons] at hrun
                    exact hrun
                  · refine ⟨_, x', s', Or.inr ⟨w', ?_, hoffer.begins hrest⟩⟩
                    rw [List.append_assoc] at hrun
                    exact hrun

/-- Expanding what is pending. -/
theorem expand_course (hpath : env.classpath.Reliable) (hv : Tame env visit) (bound : Nat)
    (pending : List ClassDefinition) (w : Walker) (log : List Offer) (x : σ) {s : Session}
    (hs : Faithful env s) :
    ∃ new x' s',
      (expand env visit.logged bound pending w (log, x) s =
          (((.completed, w.markAll (offeredIn (w.courseOfPending env bound pending))),
            (log ++ new, x')), s') ∧
        Plays env visit (w.courseOfPending env bound pending) x s new x' s') ∨
      ∃ w', expand env visit.logged bound pending w (log, x) s =
          (((.stopped, w'), (log ++ new, x')), s') ∧
        Begins env visit (w.courseOfPending env bound pending) new s' := by
  induction bound generalizing pending w log x s with
  | zero =>
      refine ⟨[], x, s, Or.inl ⟨?_, .none x s⟩⟩
      show _ = (((_, w.markAll []), (log ++ [], x)), s)
      rw [List.append_nil, Walker.markAll_nil]
      rfl
  | succ bound ih =>
      cases pending with
      | nil =>
          refine ⟨[], x, s, Or.inl ⟨?_, .none x s⟩⟩
          show _ = (((_, w.markAll []), (log ++ [], x)), s)
          rw [List.append_nil, Walker.markAll_nil]
          rfl
      | cons c pending =>
          rw [expand_cons]
          unfold Walker.courseOfPending
          simp only
          obtain ⟨new, x', s', ⟨hrun, hplays⟩ | ⟨w', hrun, hbegins⟩⟩ :=
            offerParents_course hpath hv c (w.parents c) w [] log x hs
          · rw [hrun, offeredIn_append, Walker.markAll_append]
            obtain ⟨new', x'', s'', ⟨hrun', hrest⟩ | ⟨w', hrun', hrest⟩⟩ :=
              ih (offeredIn (w.courseOfParents env c (w.parents c)) ++ pending)
                (w.markAll (offeredIn (w.courseOfParents env c (w.parents c)))) (log ++ new) x'
                (hplays.faithful hv hs)
            · refine ⟨new ++ new', x'', s'', Or.inl ⟨?_, hplays.trans hrest⟩⟩
              rw [List.append_assoc] at hrun'
              exact hrun'
            · refine ⟨new ++ new', x'', s'', Or.inr ⟨w', ?_, hplays.begins hrest⟩⟩
              rw [List.append_assoc] at hrun'
              exact hrun'
          · rw [hrun]
            exact ⟨new, x', s', Or.inr ⟨w', rfl, hbegins.append _⟩⟩

/-- A walk follows its course to the end, or to where its visitor stops it. -/
theorem walk_course (hpath : env.classpath.Reliable) (hv : Tame env visit) (w : Walker)
    (start : ClassDefinition) (includeSelf : Bool) (log : List Offer) (x : σ) {s : Session}
    (hs : Faithful env s) :
    ∃ new x' s',
      (w.walk env visit.logged start includeSelf (log, x) s =
          (((.completed, w.markAll (offeredIn (w.course env start includeSelf))),
            (log ++ new, x')), s') ∧
        Plays env visit (w.course env start includeSelf) x s new x' s') ∨
      ∃ w', w.walk env visit.logged start includeSelf (log, x) s =
          (((.stopped, w'), (log ++ new, x')), s') ∧
        Begins env visit (w.course env start includeSelf) new s' := by
  rw [walk_eq]
  unfold Walker.course
  split
  · split
    · refine ⟨[], x, s, Or.inl ⟨?_, .none x s⟩⟩
      show _ = (((_, w.markAll []), (log ++ [], x)), s)
      rw [List.append_nil, Walker.markAll_nil]
    · have hfaithful := hv.faithful start x s hs
      rcases hvisit : visit start x s with ⟨⟨goesOn, x₁⟩, s₁⟩
      rw [hvisit] at hfaithful
      have hlogged : visit.logged start (log, x) s =
          ((goesOn, (log ++ [⟨start, s₁.problems.filter (· ∉ s.problems)⟩], x₁)), s₁) := by
        simp only [Visitor.logged, hvisit]
      rw [hlogged]
      cases goesOn with
      | false =>
          refine ⟨_, x₁, s₁, Or.inr ⟨_, rfl, hfaithful, ?_, start, x, s, ?_⟩⟩
          · exact List.prefix_append [start] _
          · rw [hvisit]
      | true =>
          have hoffer : Plays env visit [.offer start] x s _ x₁ s₁ := .offer hvisit (.none x₁ s₁)
          obtain ⟨new, x', s', ⟨hrun, hrest⟩ | ⟨w', hrun, hrest⟩⟩ :=
            expand_course hpath hv (env.classpath.size + 1) [start] (w.mark start.name)
              (log ++ [⟨start, s₁.problems.filter (· ∉ s.problems)⟩]) x₁ hfaithful
          · refine ⟨_, x', s', Or.inl ⟨?_, hoffer.trans hrest⟩⟩
            rw [List.append_assoc, ← Walker.markAll_cons] at hrun
            exact hrun
          · refine ⟨_, x', s', Or.inr ⟨w', ?_, hoffer.begins hrest⟩⟩
            rw [List.append_assoc] at hrun
            exact hrun
  · exact expand_course hpath hv (env.classpath.size + 1) [start] w log x hs

/-- A walk that is not stopped has followed its course, with or without a log. -/
theorem walk_completed (hpath : env.classpath.Reliable) (hv : Tame env visit) {w : Walker}
    {start : ClassDefinition} {includeSelf : Bool} {x : σ} {s : Session} (hs : Faithful env s)
    (log : List Offer) (hgoesOn : (w.walk env visit start includeSelf x s).1.1.1 = .completed) :
    ∃ new, w.walk env visit.logged start includeSelf (log, x) s =
        withLog (log ++ new) (w.walk env visit start includeSelf x s) ∧
      (w.walk env visit start includeSelf x s).1.1.2 =
        w.markAll (offeredIn (w.course env start includeSelf)) ∧
      Plays env visit (w.course env start includeSelf) x s new
        (w.walk env visit start includeSelf x s).1.2 (w.walk env visit start includeSelf x s).2 := by
  obtain ⟨new, hlogged, -⟩ := walk_logged env visit w start includeSelf log x s
  obtain ⟨new', x', s', ⟨hrun, hplays⟩ | ⟨w', hrun, -⟩⟩ :=
    walk_course hpath hv w start includeSelf log x hs
  · rw [hlogged] at hrun
    have hnew : log ++ new = log ++ new' := congrArg (·.1.2.1) hrun
    have hstate : (w.walk env visit start includeSelf x s).1.2 = x' := congrArg (·.1.2.2) hrun
    have hsession : (w.walk env visit start includeSelf x s).2 = s' := congrArg (·.2) hrun
    refine ⟨new, hlogged, congrArg (·.1.1.2) hrun, ?_⟩
    rw [hstate, hsession, List.append_cancel_left hnew]
    exact hplays
  · rw [hlogged] at hrun
    have hstopped : (w.walk env visit start includeSelf x s).1.1.1 = .stopped :=
      congrArg (·.1.1.1) hrun
    rw [hgoesOn] at hstopped
    cases hstopped

/-- A visitor that never wants a walk to end lets it be completed. -/
theorem completed_of_goesOn (hpath : env.classpath.Reliable) (hv : Tame env visit)
    (hgoesOn : ∀ d x s, (visit d x s).1.1 = true) (w : Walker) (start : ClassDefinition)
    (includeSelf : Bool) (x : σ) {s : Session} (hs : Faithful env s) :
    (w.walk env visit start includeSelf x s).1.1.1 = .completed := by
  obtain ⟨new, hlogged, -⟩ := walk_logged env visit w start includeSelf [] x s
  obtain ⟨new', x', s', ⟨hrun, -⟩ | ⟨w', -, hbegins⟩⟩ :=
    walk_course hpath hv w start includeSelf [] x hs
  · rw [hlogged] at hrun
    exact congrArg (·.1.1.1) hrun
  · obtain ⟨d, y, t, hstops⟩ := hbegins.stops
    rw [hgoesOn] at hstops
    cases hstops

/-- On a class path that never fails a walk offers a beginning of what it offers to any visitor that
lets it go on, whatever the two visitors do. -/
theorem offers_prefix {σ' : Type} {visit' : Visitor σ'} (hpath : env.classpath.Reliable)
    (hv : Tame env visit) (hv' : Tame env visit') (w : Walker) (start : ClassDefinition)
    (includeSelf : Bool) (x : σ) (x' : σ') {s s' : Session} (hs : Faithful env s)
    (hs' : Faithful env s')
    (hgoesOn : (w.walk env visit' start includeSelf x' s').1.1.1 = .completed) :
    offers env visit w start includeSelf x s <+:
      offers env visit' w start includeSelf x' s' := by
  have hwhole : offers env visit' w start includeSelf x' s' =
      offeredIn (w.course env start includeSelf) := by
    obtain ⟨new, hlogged, -, hplays⟩ := walk_completed hpath hv' hs' [] hgoesOn
    unfold offers
    rw [hlogged]
    exact hplays.offered
  rw [hwhole]
  unfold offers
  obtain ⟨new, y, t, ⟨hrun, hplays⟩ | ⟨w', hrun, hbegins⟩⟩ :=
    walk_course hpath hv w start includeSelf [] x hs
  · rw [hrun]
    exact hplays.offered ▸ List.prefix_rfl
  · rw [hrun]
    exact hbegins.offered

end Visitors

end Linkage

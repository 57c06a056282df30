import Linkage.Proofs.Effects
import Linkage.Proofs.Plugin.Search
import Linkage.Verification

/-!
# What a run holds

While a run searches for dependencies, what it has to hold grows with every plugin that is found, and
in the end it hands over all of it, whichever way it ends.

* **`Ensures.build`** — what holds of the caller's state and of what has been found so far holds when
  the search is over;
* **`VerificationInput.Guards`** — the same for all that a run asks and tells its caller, which may
  stop it;
* **`Guards.run`** — a run hands over what was found, and is broken off only if its caller said so.
-/

namespace Linkage

variable {σ κ β : Type} {I : List κ → σ → Prop}

/-- What has to be held because of an answer. -/
def DependencyAnswer.held : DependencyAnswer κ → List κ
  | .found r => r.keepalive.toList
  | .notFound _ => []

namespace DependencySearch

/-- Nothing is resolved but what is in the graph. -/
def Registered (s : DependencySearch κ) : Prop :=
  ∀ id, id ∉ s.graph.nodes → s.graph.resolved.get? id = none

/-- What holds of a search and of the state of those that it asks. -/
def Keeps (I : List κ → σ → Prop) (s : DependencySearch κ) (state : σ) : Prop :=
  s.Registered ∧ I s.graph.keepalives state

theorem registered_again {s : DependencySearch κ} (h : s.Registered) (owner : String)
    (d : Dependency) :
    (s.again owner d).Registered ∧ (s.again owner d).graph.keepalives = s.graph.keepalives := by
  unfold again
  cases s.reasons.get? d.id <;> exact ⟨h, rfl⟩

/-- An answer adds to what is held. -/
theorem registered_learn {s : DependencySearch κ} (h : s.Registered) (owner : String)
    {d : Dependency} (hnew : d.id ∉ s.graph.nodes) (answer : DependencyAnswer κ) :
    (s.learn owner d answer).Registered ∧
      (s.learn owner d answer).graph.keepalives = s.graph.keepalives ++ answer.held := by
  cases answer with
  | notFound reason =>
      refine ⟨?_, (List.append_nil _).symm⟩
      intro id hid
      exact h id fun hmem => hid (List.mem_append_left _ hmem)
  | found r =>
      refine ⟨?_, ?_⟩
      · intro id hid
        have hother : id ∉ s.graph.nodes ∧ id ≠ d.id := by
          have hid : id ∉ s.graph.nodes ++ [d.id] := hid
          simpa using hid
        show (s.graph.resolved.put d.id r).get? id = none
        rw [Table.get?_put, if_neg hother.2]
        exact h id hother.1
      · show (s.graph.resolved.put d.id r).values.filterMap _ = _
        rw [Table.values_put_of_new (h d.id hnew), List.filterMap_append]
        cases hkeep : r.keepalive <;> simp [DependencyAnswer.held, DependencyGraph.keepalives, hkeep]

variable {finder : DependencyFinder σ κ}

theorem keeps_meet
    (hfind : ∀ d held, Ensures (I held) (finder.find d) fun answer => I (held ++ answer.held))
    (owner : String) (s : DependencySearch κ) (d : Dependency) :
    Ensures (s.Keeps I) (meet finder owner s d) fun s' => s'.Keeps I := by
  rw [meet_eq]
  split
  · refine .pure ?_
    rintro state ⟨hs, hI⟩
    obtain ⟨hagain, hsame⟩ := registered_again hs owner d
    exact ⟨hagain, by rw [hsame]; exact hI⟩
  · next hnew =>
    have hnew : d.id ∉ s.graph.nodes := by simpa using hnew
    rintro state ⟨hs, hI⟩
    have hanswer := hfind d _ state hI
    obtain ⟨hlearn, hmore⟩ := registered_learn hs owner hnew ((finder.find d).run state).1
    refine ⟨hlearn, ?_⟩
    show I (s.learn owner d ((finder.find d).run state).1).graph.keepalives _
    rw [hmore]
    exact hanswer

theorem keeps_meetAll
    (hfind : ∀ d held, Ensures (I held) (finder.find d) fun answer => I (held ++ answer.held))
    (owner : String) (ds : List Dependency) (s : DependencySearch κ) :
    Ensures (s.Keeps I) (meetAll finder owner ds s) fun s' => s'.Keeps I := by
  induction ds generalizing s with
  | nil => exact .pure fun _ h => h
  | cons d rest ih => exact (keeps_meet hfind owner s d).bind ih

theorem keeps_run
    (hfind : ∀ d held, Ensures (I held) (finder.find d) fun answer => I (held ++ answer.held))
    (bound : Nat) (s : DependencySearch κ) :
    Ensures (s.Keeps I) (run finder bound s) fun s' => s'.Keeps I := by
  induction bound generalizing s with
  | zero => exact .pure fun _ h => h
  | succ bound ih =>
      unfold run
      split
      · exact .pure fun _ h => h
      · next owner dependencies rest hqueue =>
        exact (keeps_meetAll hfind owner dependencies { s with queue := rest }).bind ih

end DependencySearch

/-- A search for dependencies holds what it has found when it ends. -/
theorem Ensures.build {finder : DependencyFinder σ κ}
    (hfind : ∀ d held, Ensures (I held) (finder.find d) fun answer => I (held ++ answer.held))
    (p : Plugin) : Ensures (I []) (DependencyGraph.build finder p) fun g => I g.keepalives := by
  have hrun := DependencySearch.keeps_run hfind (finder.reach + 1) (.start κ p)
  refine Ensures.map (hrun.weaken ?_ fun _ _ h => h.2)
  intro s hs
  exact ⟨fun _ _ => rfl, hs⟩

/-- What holds of the caller's state, with all that is held. While the run goes on the state is in
order, `Free`; when the caller wants it to stop it is in the state `Stopped`. -/
structure VerificationInput.Guards (input : VerificationInput σ κ) (I : List κ → σ → Prop)
    (Free Stopped : σ → Prop) : Prop where
  find : ∀ d held, Ensures (I held) (input.finder.find d) fun answer => I (held ++ answer.held)
  look : ∀ held, Ensures (I held) input.shouldStop fun stop s =>
    I held s ∧ if stop then Stopped s else Free s
  progress : ∀ fraction held, Ensures (fun s => I held s ∧ Free s) (input.progress fraction)
    fun _ s => I held s ∧ Free s

namespace Verification

/-- The state after an answer: only a run that is broken off leaves a stopped one. -/
def LeftBy (Free Stopped : σ → Prop) : Except VerificationFailure β → σ → Prop
  | .error .interrupted => Stopped
  | _ => Free

theorem LeftBy.free {Free Stopped : σ → Prop} {answer : Except VerificationFailure β} {s : σ}
    (h : LeftBy Free Stopped answer s) (hanswer : answer ≠ .error .interrupted) : Free s := by
  cases answer with
  | ok result => exact h
  | error failure =>
      cases failure with
      | interrupted => exact absurd rfl hanswer
      | classpathUnavailable failure => exact h

theorem LeftBy.stopped {Free Stopped : σ → Prop} {answer : Except VerificationFailure β} {s : σ}
    (h : LeftBy Free Stopped answer s) (hanswer : answer = .error .interrupted) : Stopped s := by
  rw [hanswer] at h
  exact h

/-- The same of a part of the state. -/
theorem LeftBy.part {τ : Type} {Free Stopped : σ → Prop} {f : τ → σ}
    {answer : Except VerificationFailure β} {t : τ}
    (h : LeftBy (fun t => Free (f t)) (fun t => Stopped (f t)) answer t) :
    LeftBy Free Stopped answer (f t) := by
  cases answer with
  | ok result => exact h
  | error failure => cases failure <;> exact h

end Verification

namespace VerificationInput.Guards

open Verification (LeftBy)

variable {input : VerificationInput σ κ} {Free Stopped : σ → Prop}

/-- The caller is asked, and the run goes on or is broken off. -/
theorem ask (h : input.Guards I Free Stopped) {held : List κ} {Q : β → σ → Prop}
    {onStop goOn : StateM σ β} (hstop : Ensures (fun s => I held s ∧ Stopped s) onStop Q)
    (hgo : Ensures (fun s => I held s ∧ Free s) goOn Q) :
    Ensures (I held) (do if ← input.shouldStop then onStop else goOn) Q := by
  refine (h.look held).bind fun stop => ?_
  cases stop with
  | true => exact hstop
  | false => exact hgo

theorem walkAll (h : input.Guards I Free Stopped) (engine : Engine) (env : Setting)
    (excluded : List String) (held : List κ) (total done : Nat) (names : List String)
    (w : Verification.Walking) :
    Ensures (I held) (Verification.walkAll engine input env excluded total done names w) fun answer s =>
      I held s ∧ LeftBy Free Stopped answer s := by
  induction names generalizing done w with
  | nil =>
      unfold Verification.walkAll
      exact h.ask (.pure fun _ hs => hs) (.pure fun _ hs => hs)
  | cons name rest ih =>
      unfold Verification.walkAll
      refine h.ask (.pure fun _ hs => hs) ?_
      cases hget : input.plugin.classes.get? name with
      | none => exact (ih (done + 1) w).weaken (fun _ hs => hs.1) fun _ _ hs => hs
      | some c =>
          simp only
          split
          · exact .pure fun _ hs => hs
          · refine (h.progress _ held).bind fun _ => ?_
            exact (ih (done + 1) _).weaken (fun _ hs => hs.1) fun _ _ hs => hs

theorem checkClasses (h : input.Guards I Free Stopped) (engine : Engine)
    (structureWarnings : List String) (g : DependencyGraph κ) (held : List κ) :
    Ensures (I held) (Verification.checkClasses engine input structureWarnings g) fun answer s =>
      I held s ∧ LeftBy Free Stopped answer s := by
  unfold Verification.checkClasses
  refine (h.walkAll engine _ _ held _ _ _ _).bind fun answer => ?_
  cases answer with
  | error failure => cases failure <;> exact .pure fun _ hs => hs
  | ok session => exact .pure fun _ hs => hs

/-- A run hands over all that was found for it, and leaves the state as the last look at it was. -/
theorem run (h : input.Guards I Free Stopped) (engine : Engine) :
    Ensures (fun s => I [] s ∧ Free s) (Verification.run engine input) fun outcome s =>
      I outcome.keepalives s ∧ LeftBy Free Stopped outcome.answer s := by
  unfold Verification.run
  simp only
  split
  · refine ((Ensures.build h.find input.plugin).weaken (fun _ hs => hs.1) fun _ _ hs => hs).bind
      fun g => h.ask (.pure fun _ hs => hs) ?_
    refine ((h.checkClasses engine _ g g.keepalives).weaken (fun _ hs => hs.1)
      fun _ _ hs => hs).bind fun answer => ?_
    cases answer with
    | error failure => cases failure <;> exact .pure fun _ hs => hs
    | ok verdict => exact (h.progress 1.0 g.keepalives).bind fun _ => .pure fun _ hs => hs
  · exact (h.progress 1.0 []).bind fun _ => .pure fun _ hs => hs

end VerificationInput.Guards

end Linkage

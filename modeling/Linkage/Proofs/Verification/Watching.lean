import Linkage.Proofs.Plugin.Search
import Linkage.Verification

/-!
# Runs that are watched

A watched run is the same run, with a list of the dependencies that it asks for and of the states in
which it asks.

* **`VerificationInput.watched`** — what a watched run is made with;
* **`Verification.asked`** — the questions of a run, in order;
* **`Verification.echoes_watched`** — watching changes neither what a run comes to nor the state that
  it leaves.
-/

namespace Linkage

open DependencyFinder (Echoes)

variable {σ κ α : Type}

/-- A question for a dependency, and the state in which it is asked. -/
structure Question (σ : Type) where
  dependency : Dependency
  state : σ

/-- Work that leaves alone what is kept beside the state. -/
def aside {τ : Type} (work : StateM σ α) : StateM (σ × τ) α := fun (s, log) =>
  let (x, s') := work.run s
  (x, (s', log))

theorem echoes_aside {τ : Type} (work : StateM σ α) : Echoes (aside work : StateM (σ × τ) α) work :=
  fun _ _ => ⟨rfl, rfl⟩

/-- The same finder with a list of what it has been asked, and in which states. -/
def DependencyFinder.watched (finder : DependencyFinder σ κ) :
    DependencyFinder (σ × List (Question σ)) κ where
  find d := fun (s, log) =>
    let (answer, s') := (finder.find d).run s
    (answer, (s', log ++ [⟨d, s⟩]))
  reach := finder.reach

/-- The same input with a finder that is watched. -/
def VerificationInput.watched (input : VerificationInput σ κ) :
    VerificationInput (σ × List (Question σ)) κ where
  plugin := input.plugin
  target := input.target
  host := input.host
  jdk := input.jdk
  finder := input.finder.watched
  shouldStop := aside input.shouldStop
  progress := fun fraction => aside (input.progress fraction)

namespace Verification

/-- What a run asks for, in order. -/
def asked (engine : Engine) (input : VerificationInput σ κ) (s : σ) : List (Question σ) :=
  ((run engine input.watched).run (s, [])).2.2

variable (engine : Engine) (input : VerificationInput σ κ)

theorem echoes_build (p : Plugin) :
    Echoes (DependencyGraph.build input.finder.watched p) (DependencyGraph.build input.finder p) := by
  have hfind : ∀ d, Echoes (input.finder.watched.find d) (input.finder.find d) :=
    fun _ _ _ => ⟨rfl, rfl⟩
  exact (DependencyFinder.echoes_search hfind (input.finder.reach + 1) _).bind fun _ => .pure _

theorem echoes_walkAll (env : Setting) (excluded : List String) (total done : Nat)
    (names : List String) (w : Walking) :
    Echoes (walkAll engine input.watched env excluded total done names w)
      (walkAll engine input env excluded total done names w) := by
  induction names generalizing done w with
  | nil =>
      unfold walkAll
      refine (echoes_aside input.shouldStop).bind fun stop => ?_
      cases stop <;> exact .pure _
  | cons name rest ih =>
      unfold walkAll
      refine (echoes_aside input.shouldStop).bind fun stop => ?_
      cases stop with
      | true => exact .pure _
      | false =>
          have hplugin : input.watched.plugin = input.plugin := rfl
          rw [if_neg Bool.false_ne_true, if_neg Bool.false_ne_true, hplugin]
          cases input.plugin.classes.get? name with
          | none => exact ih (done + 1) w
          | some c =>
              simp only
              split
              · exact .pure _
              · exact (echoes_aside _).bind fun _ => ih (done + 1) _

theorem echoes_checkClasses (structureWarnings : List String) (g : DependencyGraph κ) :
    Echoes (checkClasses engine input.watched structureWarnings g)
      (checkClasses engine input structureWarnings g) := by
  unfold checkClasses
  refine (echoes_walkAll engine input _ _ _ _ _ _).bind fun answer => ?_
  cases answer <;> exact .pure _

/-- A run that is watched is the same run. -/
theorem echoes_watched : Echoes (run engine input.watched) (run engine input) := by
  unfold run
  simp only
  have hplugin : input.watched.plugin = input.plugin := rfl
  rw [hplugin]
  split
  · refine (echoes_build input input.plugin).bind fun g =>
      (echoes_aside input.shouldStop).bind fun stop => ?_
    cases stop with
    | true => exact .pure _
    | false =>
        refine (echoes_checkClasses engine input _ g).bind fun answer => ?_
        cases answer with
        | error failure => exact .pure _
        | ok verdict => exact (echoes_aside _).bind fun _ => .pure _
  · exact (echoes_aside _).bind fun _ => .pure _

end Verification

end Linkage

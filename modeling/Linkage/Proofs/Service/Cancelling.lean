import Linkage.Proofs.Service.GivingBack
import Linkage.Proofs.Verification.Watching

/-!
# Tasks that are cancelled

Once the token of a task is cancelled it stays so, with the reason that was given first. A lookup for
a dependency that is cut short looks like one that finds nothing; but the token is cancelled then, and
the engine looks at it before it judges.

* **`Services.KeepsCancellation`** — builders and discarders do not take a cancellation back;
* **`Services.CutShort`** — a question for a dependency that is cut short;
* **`overseen_run`** — what has become of the questions of a run of the engine, and how the run ends.
-/

namespace Linkage

open Stock (Lends)
open Verification (LeftBy)

variable {φ β : Type}

/-! ## The token stays cancelled -/

namespace Workplace

/-- The token is cancelled, and this is why. -/
def CancelledFor (reason : String) (w : Workplace φ) : Prop := w.token.reason = some reason

theorem cancelledFor_cancel {t : Token} {reason : String} (h : t.reason = some reason)
    (other : String) : (t.cancel other).reason = some reason := by
  show (t.reason <|> some other) = some reason
  rw [h]
  rfl

theorem keeps_cancelled (reason : String) :
    Ensures (CancelledFor reason) (cancelled : StateM (Workplace φ) (Option String)) fun _ =>
      CancelledFor reason := by
  intro w hw
  have hovertaken : w.overtaken.token.reason = some reason := by
    unfold overtaken
    split
    · exact hw
    · exact cancelledFor_cancel hw _
    · exact hw
  show (w.overtaken.token.poll w.overtaken.now).reason = some reason
  unfold Token.poll
  split
  · exact cancelledFor_cancel hovertaken _
  · exact hovertaken

/-- What is seen of the token is what it is afterwards. -/
theorem fst_run_cancelled (w : Workplace φ) :
    (cancelled.run w).1 = (cancelled.run w).2.token.reason := rfl

end Workplace

namespace Services

/-- Whatever builders and discarders do, a token that is cancelled stays so, for the reason that it
has. -/
structure KeepsCancellation (services : Services φ) : Prop where
  plugins : ∀ reason, services.plugins.Keeps (Workplace.CancelledFor reason)
  hosts : ∀ reason, services.hosts.Keeps (Workplace.CancelledFor reason)
  jdks : ∀ reason, services.jdks.Keeps (Workplace.CancelledFor reason)

end Services

namespace Stock

/-- The token is cancelled, and this is why. -/
def CancelledFor (reason : String) (s : Stock φ) : Prop := s.workplace.CancelledFor reason

/-- Nobody has cancelled the token. -/
def Uncancelled (s : Stock φ) : Prop := s.workplace.token.reason = none

variable {reason : String}

theorem CancelledFor.not_uncancelled {s : Stock φ} (h : s.CancelledFor reason) : ¬ s.Uncancelled := by
  intro hnone
  have h : s.workplace.token.reason = some reason := h
  rw [hnone] at h
  cases h

theorem exists_cancelledFor {s : Stock φ} (h : ¬ s.Uncancelled) : ∃ reason, s.CancelledFor reason :=
  Option.ne_none_iff_exists'.mp h

theorem keeps_atWorkplace {work : StateM (Workplace φ) β}
    (h : Ensures (Workplace.CancelledFor reason) work fun _ => Workplace.CancelledFor reason) :
    Ensures (CancelledFor reason) (atWorkplace work) fun _ => CancelledFor reason :=
  fun s hs => h s.workplace hs

theorem keeps_report (fraction : Float) :
    Ensures (CancelledFor reason) (atWorkplace (φ := φ) (Workplace.report fraction)) fun _ =>
      CancelledFor reason :=
  fun _ hs => hs

theorem keeps_withPlugins {work : CacheWork (Workplace φ) String PluginDescriptor β}
    (h : Ensures (fun t => t.outside.CancelledFor reason) work fun _ t =>
      t.outside.CancelledFor reason) :
    Ensures (CancelledFor reason) (withPlugins work) fun _ => CancelledFor reason :=
  fun s hs => h ⟨s.workplace, s.plugins⟩ hs

theorem keeps_withHosts {work : CacheWork (Workplace φ) String HostDescriptor β}
    (h : Ensures (fun t => t.outside.CancelledFor reason) work fun _ t =>
      t.outside.CancelledFor reason) :
    Ensures (CancelledFor reason) (withHosts work) fun _ => CancelledFor reason :=
  fun s hs => h ⟨s.workplace, s.hosts⟩ hs

theorem keeps_withJdks {work : CacheWork (Workplace φ) Path.Parts JdkDescriptor β}
    (h : Ensures (fun t => t.outside.CancelledFor reason) work fun _ t =>
      t.outside.CancelledFor reason) :
    Ensures (CancelledFor reason) (withJdks work) fun _ => CancelledFor reason :=
  fun s hs => h ⟨s.workplace, s.jdks⟩ hs

end Stock

open Stock (CancelledFor Uncancelled)

/-! ## Lookups -/

/-- Whoever is told that a lookup was cut short finds the token cancelled for that reason. -/
theorem Provider.cancelledFor_of_get {ι κ α : Type} [DecidableEq κ]
    (p : Provider (Workplace φ) ι κ α) {before : Cache κ α} {held : List (Handle κ α)}
    {t : Stocked (Workplace φ) κ α} (h : before.Lent held t.cache) (i : ι) {reason : String}
    (hcut : ((p.get Workplace.cancelled i).run t).1 = .refused (.cancelled reason)) :
    ((p.get Workplace.cancelled i).run t).2.outside.CancelledFor reason := by
  rcases Provider.answer_get (p := p) h Workplace.cancelled i with
    ⟨-, hanswer⟩ | ⟨reason', w, hanswer, hlook⟩ | ⟨-, id, hanswer⟩
  · rw [hanswer] at hcut
    cases hcut
  · rw [hanswer] at hcut
    injection hcut with hcut
    injection hcut with hcut
    have hfirst := w.fst_run_cancelled
    rw [hlook, hcut] at hfirst
    exact hfirst.symm
  · rw [hanswer] at hcut
    cases houtcome : p.supply Workplace.cancelled i t <;> rw [houtcome] at hcut <;> cases hcut

/-- The refusal, if the answer is one. -/
def CacheAnswer.refusal? {κ α : Type} : CacheAnswer κ α → Option CacheRefusal
  | .refused refusal => some refusal
  | _ => none

theorem CacheAnswer.refusal?_eq_some {κ α : Type} {answer : CacheAnswer κ α} {refusal : CacheRefusal} :
    answer.refusal? = some refusal ↔ answer = .refused refusal := by
  cases answer <;> simp [refusal?]

/-- What a lookup in an open cache may answer, when `supply` is what there is to come to, and where it
leaves the task. -/
inductive Answered {κ α : Type} (supply : Except BuildFailure α) :
    CacheAnswer κ α → Workplace φ → Prop where
  | cut {reason : String} {w : Workplace φ} (hcancelled : w.CancelledFor reason) :
      Answered supply (.refused (.cancelled reason)) w
  | failed {failure : BuildFailure} {w : Workplace φ} (hsupply : supply = .error failure) :
      Answered supply (.failed failure) w
  | found {handle : Handle κ α} {w : Workplace φ} (hsupply : supply = .ok handle.value) :
      Answered supply (.found handle) w

theorem Provider.answered_get {ι κ α : Type} [DecidableEq κ] (p : Provider (Workplace φ) ι κ α)
    {before : Cache κ α} {held : List (Handle κ α)} {t : Stocked (Workplace φ) κ α}
    (h : before.Lent held t.cache) (hopen : before.isClosed = false) (i : ι) :
    Answered (p.supply Workplace.cancelled i t) ((p.get Workplace.cancelled i).run t).1
      ((p.get Workplace.cancelled i).run t).2.outside := by
  rcases Provider.answer_get (p := p) h Workplace.cancelled i with
    ⟨hclosed, -⟩ | ⟨reason, w, hanswer, hlook⟩ | ⟨-, id, hanswer⟩
  · rw [h.isClosed, hopen] at hclosed
    cases hclosed
  · have hcancelled := p.cancelledFor_of_get h i hanswer
    rw [hanswer]
    exact .cut hcancelled
  · rw [hanswer]
    cases hsupply : p.supply Workplace.cancelled i t with
    | error failure => exact .failed rfl
    | ok value => exact .found rfl

namespace Services

variable {services : Services φ} {before : Stock φ} {plugins : List (Handle String PluginDescriptor)}
  {hosts : List (Handle String HostDescriptor)} {jdks : List (Handle Path.Parts JdkDescriptor)}
  {target : Target} {plugin : Plugin} {host : HostDescriptor} {jdk : JdkDescriptor}

/-! ## Questions for dependencies -/

theorem KeepsCancellation.getPlugin (hkeeps : services.KeepsCancellation) (reason id : String) :
    Ensures (CancelledFor reason)
      (Stock.withPlugins (services.plugins.get Workplace.cancelled id)) fun _ =>
        CancelledFor reason :=
  Stock.keeps_withPlugins ((hkeeps.plugins reason).get (Workplace.keeps_cancelled reason) id)

theorem KeepsCancellation.find (hkeeps : services.KeepsCancellation) (reason : String)
    (host : HostDescriptor) (d : Dependency) :
    Ensures (CancelledFor reason) (services.findDependency host Workplace.cancelled d) fun _ =>
      CancelledFor reason := by
  unfold findDependency
  cases host.bundled.get? d.id with
  | some plugin => exact .pure fun _ hs => hs
  | none => exact Ensures.map (hkeeps.getPlugin reason d.id)

theorem KeepsCancellation.releasePlugins (hkeeps : services.KeepsCancellation) (reason : String)
    (handles : List (Handle String PluginDescriptor)) :
    Ensures (CancelledFor reason) (services.releasePlugins handles) fun _ => CancelledFor reason := by
  induction handles with
  | nil => exact .pure fun _ hs => hs
  | cons handle rest ih =>
      exact (Stock.keeps_withPlugins ((hkeeps.plugins reason).release handle)).bind fun _ => ih

/-- The question goes to the cache, and the lookup is cut short. -/
def CutShort (services : Services φ) (host : HostDescriptor) (q : Question (Stock φ))
    (reason : String) : Prop :=
  host.bundled.get? q.dependency.id = none ∧
    ((Stock.withPlugins (services.plugins.get Workplace.cancelled q.dependency.id)).run q.state).1 =
      .refused (.cancelled reason)

instance (host : HostDescriptor) (q : Question (Stock φ)) (reason : String) :
    Decidable (services.CutShort host q reason) :=
  decidable_of_iff
    (host.bundled.get? q.dependency.id = none ∧
      ((Stock.withPlugins (services.plugins.get Workplace.cancelled q.dependency.id)).run
        q.state).1.refusal? = some (.cancelled reason))
    (and_congr_right fun _ => CacheAnswer.refusal?_eq_some)

theorem CutShort.cancelledFor {q : Question (Stock φ)} {reason : String}
    (h : services.CutShort host q reason) (hq : Lends before plugins hosts jdks q.state) :
    ((services.findDependency host Workplace.cancelled q.dependency).run
      q.state).2.CancelledFor reason := by
  unfold findDependency
  rw [h.1]
  exact services.plugins.cancelledFor_of_get (t := ⟨q.state.workplace, q.state.plugins⟩) hq.plugins
    q.dependency.id h.2

/-- What holds while the engine is watched: the books are right, and were so at each question; and if a
question was cut short, the token is cancelled. -/
structure Overseen (services : Services φ) (before : Stock φ)
    (plugins : List (Handle String PluginDescriptor)) (hosts : List (Handle String HostDescriptor))
    (jdks : List (Handle Path.Parts JdkDescriptor)) (host : HostDescriptor)
    (held : List (Handle String PluginDescriptor)) (s : Stock φ × List (Question (Stock φ))) :
    Prop where
  lends : Lends before (held ++ plugins) hosts jdks s.1
  questions : ∀ q ∈ s.2, ∃ others, Lends before others hosts jdks q.state
  cut : ∀ q ∈ s.2, ∀ reason, services.CutShort host q reason → s.1.CancelledFor reason

/-- Work beside the list that keeps the books and the token. -/
theorem Overseen.aside {held : List (Handle String PluginDescriptor)} {work : StockWork φ β}
    (hlends : Ensures (Lends before (held ++ plugins) hosts jdks) work fun _ =>
      Lends before (held ++ plugins) hosts jdks)
    (hkeeps : ∀ reason, Ensures (CancelledFor reason) work fun _ => CancelledFor reason) :
    Ensures (services.Overseen before plugins hosts jdks host held)
      (aside work : StateM (Stock φ × List (Question (Stock φ))) β) fun _ =>
        services.Overseen before plugins hosts jdks host held := by
  intro s hs
  refine ⟨hlends s.1 hs.lends, hs.questions, ?_⟩
  intro q hq reason hcut
  exact hkeeps reason s.1 (hs.cut q hq reason hcut)

theorem overseen_find (hkeeps : services.KeepsCancellation) (s₀ : Stock φ) (d : Dependency)
    (held : List (Handle String PluginDescriptor)) :
    Ensures (services.Overseen before plugins hosts jdks host held)
      ((services.finder host s₀).watched.find d) fun answer =>
        services.Overseen before plugins hosts jdks host (held ++ answer.held) := by
  rintro ⟨s, log⟩ hs
  refine ⟨services.lends_find host Workplace.cancelled d held s hs.lends, ?_, ?_⟩
  · intro q hq
    rcases List.mem_append.mp hq with hq | hq
    · exact hs.questions q hq
    · rw [List.mem_singleton.mp hq]
      exact ⟨_, hs.lends⟩
  · intro q hq reason hcut
    rcases List.mem_append.mp hq with hq | hq
    · exact hkeeps.find reason host d s (hs.cut q hq reason hcut)
    · -- the question that has just been asked
      rw [List.mem_singleton.mp hq] at hcut
      exact hcut.cancelledFor hs.lends

theorem guards_overseen (hkeeps : services.KeepsCancellation) (target : Target) (plugin : Plugin)
    (host : HostDescriptor) (jdk : JdkDescriptor) (s₀ : Stock φ) :
    (services.engineInput target plugin host jdk s₀).watched.Guards
      (services.Overseen before plugins hosts jdks host) (fun s => s.1.Uncancelled)
      (fun s => ¬ s.1.Uncancelled) where
  find := overseen_find hkeeps s₀
  look := by
    intro held s hs
    have hlends : Ensures (Lends before (held ++ plugins) hosts jdks)
        (services.engineInput target plugin host jdk s₀).shouldStop fun _ =>
          Lends before (held ++ plugins) hosts jdks :=
      fun t ht => Stock.lends_atWorkplace Workplace.cancelled t ht
    have hsticks : ∀ reason, Ensures (CancelledFor reason)
        (services.engineInput target plugin host jdk s₀).shouldStop fun _ => CancelledFor reason :=
      fun reason t ht => Stock.keeps_atWorkplace (Workplace.keeps_cancelled reason) t ht
    refine ⟨Overseen.aside hlends hsticks s hs, ?_⟩
    -- the answer is what the token is afterwards
    have hseen := s.1.workplace.fst_run_cancelled
    show if (Workplace.cancelled.run s.1.workplace).1.isSome
      then ¬ (Workplace.cancelled.run s.1.workplace).2.token.reason = none
      else (Workplace.cancelled.run s.1.workplace).2.token.reason = none
    rw [hseen]
    cases (Workplace.cancelled.run s.1.workplace).2.token.reason <;> simp
  progress := by
    intro fraction held s hs
    exact ⟨Overseen.aside (Stock.lends_atWorkplace _) (fun _ => Stock.keeps_report _) s hs.1, hs.2⟩

/-- What has become of the questions of a run of the engine and how it leaves the token: if one of its
questions was cut short the token is cancelled, and with a token that is cancelled the run is broken
off. -/
theorem overseen_run (hkeeps : services.KeepsCancellation) (target : Target) (plugin : Plugin)
    (host : HostDescriptor) (jdk : JdkDescriptor) {s : Stock φ}
    (hs : Lends before plugins hosts jdks s) (hfree : s.Uncancelled) :
    let input := services.engineInput target plugin host jdk s
    let ended := (Verification.run services.engine input).run s
    LeftBy Uncancelled (fun t => ¬ t.Uncancelled) ended.1.answer ended.2 ∧
      ∀ q ∈ Verification.asked services.engine input s,
        (∃ others, Lends before others hosts jdks q.state) ∧
          ∀ reason, services.CutShort host q reason → ended.2.CancelledFor reason := by
  intro input ended
  have hbegun : services.Overseen before plugins hosts jdks host [] (s, []) :=
    ⟨hs, by simp, by simp⟩
  obtain ⟨hover, hleft⟩ := (guards_overseen hkeeps target plugin host jdk s).run services.engine
    (s, []) ⟨hbegun, hfree⟩
  obtain ⟨hvalue, hstate⟩ := Verification.echoes_watched services.engine input s []
  refine ⟨?_, fun q hq => ⟨hover.questions q hq, fun reason hcut => ?_⟩⟩
  · have hleft : LeftBy Uncancelled (fun t => ¬ t.Uncancelled) _ _ :=
      LeftBy.part (f := Prod.fst) hleft
    rw [hvalue, hstate] at hleft
    exact hleft
  · have hcancelled := hover.cut q hq reason hcut
    rw [hstate] at hcancelled
    exact hcancelled

end Services

end Linkage

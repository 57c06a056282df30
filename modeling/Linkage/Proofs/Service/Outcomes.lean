import Linkage.Proofs.Service.Cancelling
import Linkage.Proofs.Verification.Precedence

/-!
# What a task comes to

A task that nobody cancels comes to a result when the caches are open. The first of the plugin, the
host build and the JDK that cannot be had decides it, and if all of them are there the engine does.

* **`Services.Settled`** — the results that a task may have, and why it has them;
* **`Services.Comes`** — work that is cancelled and says why, or comes to what it should;
* **`execute_settles`** — an uncancelled task is settled, and a task with a question for a dependency
  that was cut short is cancelled.
-/

namespace Linkage

open Stock (Lends CancelledFor Uncancelled)

variable {φ β : Type}

/-! ## What there is to come to -/

namespace BuildFailure

/-- The verdict where something cannot be had. A builder that breaks down has failed, see `ofPanic`. -/
def verdict : BuildFailure → Verdict
  | .notFound reason => .notFound reason
  | .failed message _ => .failedToDownload message

/-- Why a dependency is missing. -/
def whyMissing (id : String) : BuildFailure → String
  | .notFound reason => reason
  | .failed message _ => "Failed to obtain " ++ id ++ ": " ++ message

end BuildFailure

/-- The plugin, or why there is none. -/
def DependencyAnswer.plugin? {κ : Type} : DependencyAnswer κ → Except String Plugin
  | .found r => .ok r.plugin
  | .notFound reason => .error reason

/-- All three caches are open. -/
structure Stock.Open (s : Stock φ) : Prop where
  plugins : s.plugins.isClosed = false
  hosts : s.hosts.isClosed = false
  jdks : s.jdks.isClosed = false

namespace Services

section Course

variable (services : Services φ)

/-- The plugin of a name, or why it cannot be had. -/
def pluginFor (id : String) (s : Stock φ) : Except BuildFailure PluginDescriptor :=
  services.plugins.supply Workplace.cancelled id ⟨s.workplace, s.plugins⟩

def hostFor (version : String) (s : Stock φ) : Except BuildFailure HostDescriptor :=
  services.hosts.supply Workplace.cancelled version ⟨s.workplace, s.hosts⟩

def jdkFor (path : String) (s : Stock φ) : Except BuildFailure JdkDescriptor :=
  services.jdks.supply Workplace.cancelled path ⟨s.workplace, s.jdks⟩

/-- What a dependency comes to: the plugin that comes with the host build, or else the one that can be
had from the cache of plugins. -/
def dependencyFor (host : HostDescriptor) (d : Dependency) (s : Stock φ) : Except String Plugin :=
  match host.bundled.get? d.id with
  | some plugin => .ok plugin
  | none =>
    match services.pluginFor d.id s with
    | .ok descriptor => .ok descriptor.plugin
    | .error failure => .error (failure.whyMissing d.id)

variable (request : VerificationRequest)

/-! ## The course of a task -/

def takePlugin : StockWork φ (CacheAnswer String PluginDescriptor) :=
  Stock.withPlugins (services.plugins.get Workplace.cancelled request.pluginId)

def takeHost : StockWork φ (CacheAnswer String HostDescriptor) :=
  Stock.withHosts (services.hosts.get Workplace.cancelled request.hostVersion)

def takeJdk : StockWork φ (CacheAnswer Path.Parts JdkDescriptor) :=
  Stock.withJdks (services.jdks.get Workplace.cancelled request.jdk)

/-- The plugin has been asked for, and the task has said that it has it. -/
def afterPlugin (s : Stock φ) : Stock φ :=
  ((Stock.atWorkplace (Workplace.report 0.05)).run ((services.takePlugin request).run s).2).2

def afterHost (s : Stock φ) : Stock φ :=
  ((services.takeHost request).run (services.afterPlugin request s)).2

def afterJdk (s : Stock φ) : Stock φ :=
  ((services.takeJdk request).run (services.afterHost request s)).2

/-- The task has said that it has all that it needs, and has looked at the token. -/
def readied (s : Stock φ) : Stock φ :=
  ((Stock.atWorkplace Workplace.cancelled).run
    ((Stock.atWorkplace (Workplace.report 0.1)).run s).2).2

/-- The stock that the engine begins with. -/
def engineStart (s : Stock φ) : Stock φ := readied (services.afterJdk request s)

/-- The run of the engine that begins with the stock `s`. -/
def engineRun (target : Target) (plugin : Plugin) (host : HostDescriptor) (jdk : JdkDescriptor)
    (s : Stock φ) : VerificationOutcome (Handle String PluginDescriptor) × Stock φ :=
  (Verification.run services.engine (services.engineInput target plugin host jdk s)).run s

/-- The questions for dependencies that this run asks. -/
def questions (target : Target) (plugin : Plugin) (host : HostDescriptor) (jdk : JdkDescriptor)
    (s : Stock φ) : List (Question (Stock φ)) :=
  Verification.asked services.engine (services.engineInput target plugin host jdk s) s

/-- The task comes to the point where the engine begins. -/
structure Engages (s : Stock φ) (plugin : Handle String PluginDescriptor)
    (host : Handle String HostDescriptor) (jdk : Handle Path.Parts JdkDescriptor) : Prop where
  plugin : ((services.takePlugin request).run s).1 = .found plugin
  host : ((services.takeHost request).run (services.afterPlugin request s)).1 = .found host
  jdk : ((services.takeJdk request).run (services.afterHost request s)).1 = .found jdk
  uncancelled : (services.engineStart request s).Uncancelled

/-- The result is the engine's: of the plugin, with what its dependencies come to, against the classes
of the host build and of the JDK. -/
structure Verified (target : Target) (plugin : Plugin) (host : HostDescriptor) (jdk : JdkDescriptor)
    (s : Stock φ) (result : VerificationResult) : Prop where
  answer : (services.engineRun target plugin host jdk s).1.answer = .ok result
  samePlugin : result.plugin = plugin.info
  sameTarget : result.target = target
  judged : result.verdict.kind.isVerified = true
  dependencies : ∀ q ∈ services.questions target plugin host jdk s,
    ((services.findDependency host Workplace.cancelled q.dependency).run q.state).1.plugin? =
      services.dependencyFor host q.dependency q.state

/-- The result of a task that began with the stock `s`, and the stock that it leaves. After a lookup
that comes to nothing there is no other one, so that the caches that come after are as they were; what
was taken before is given back. Only where the plugin is not there the result goes by the id that was
asked for. -/
inductive Settled (s : Stock φ) : VerificationResult → Stock φ → Prop where
  | noPlugin {failure : BuildFailure}
      (hplugin : services.pluginFor request.pluginId s = .error failure) :
      Settled s ⟨⟨request.pluginId, PluginInfo.unknownVersion, none⟩, request.target,
        failure.verdict, none⟩ ((services.takePlugin request).run s).2
  | noHost {plugin : Handle String PluginDescriptor} {failure : BuildFailure}
      (hplugin : services.pluginFor request.pluginId s = .ok plugin.value)
      (hhost : services.hostFor request.hostVersion (services.afterPlugin request s) =
        .error failure) :
      Settled s ⟨plugin.value.plugin.info, request.target, failure.verdict, none⟩
        ((Stock.withPlugins (services.plugins.release plugin)).run
          (services.afterHost request s)).2
  | noJdk {plugin : Handle String PluginDescriptor} {host : Handle String HostDescriptor}
      {failure : BuildFailure}
      (hplugin : services.pluginFor request.pluginId s = .ok plugin.value)
      (hhost : services.hostFor request.hostVersion (services.afterPlugin request s) = .ok host.value)
      (hjdk : services.jdkFor request.jdk (services.afterHost request s) = .error failure) :
      Settled s ⟨plugin.value.plugin.info, request.target, failure.verdict, none⟩
        ((Stock.withPlugins (services.plugins.release plugin)).run
          ((Stock.withHosts (services.hosts.release host)).run (services.afterJdk request s)).2).2
  | verified {plugin : Handle String PluginDescriptor} {host : Handle String HostDescriptor}
      {jdk : Handle Path.Parts JdkDescriptor} {result : VerificationResult} {s' : Stock φ}
      (hplugin : services.pluginFor request.pluginId s = .ok plugin.value)
      (hhost : services.hostFor request.hostVersion (services.afterPlugin request s) = .ok host.value)
      (hjdk : services.jdkFor request.jdk (services.afterHost request s) = .ok jdk.value)
      (hresult : services.Verified request.target plugin.value.plugin host.value jdk.value
        (services.engineStart request s) result) :
      Settled s result s'

end Course

/-! ## Work that is cancelled or comes to something -/

/-- Work begun in the state `s` says that it was cancelled and why, and then the token is cancelled for
that reason; or it comes to what it should. -/
def Comes (Q : TaskResult β → Stock φ → Prop) (work : StockWork φ (TaskResult β)) (s : Stock φ) :
    Prop :=
  (∃ reason, (work.run s).1 = .error (.cancelled reason) ∧ (work.run s).2.CancelledFor reason) ∨
    Q (work.run s).1 (work.run s).2

theorem Comes.of_uncancelled {Q : TaskResult β → Stock φ → Prop}
    {work : StockWork φ (TaskResult β)} {s : Stock φ} (h : Comes Q work s)
    (hfree : (work.run s).2.Uncancelled) : Q (work.run s).1 (work.run s).2 := by
  obtain ⟨reason, -, hcancelled⟩ | h := h
  · exact absurd hfree hcancelled.not_uncancelled
  · exact h

theorem Comes.after {Q : TaskResult β → Stock φ → Prop} {work : StockWork φ (TaskResult β)}
    {first : StockWork φ Unit} {s : Stock φ} (h : Comes Q work (first.run s).2) :
    Comes Q (do first; work) s := h

/-- Something is given back afterwards. -/
theorem Comes.giveBack {Q : TaskResult β → Stock φ → Prop} {work : StockWork φ (TaskResult β)}
    {giveBack : StockWork φ Unit} {s : Stock φ}
    (hkeeps : ∀ reason, Ensures (CancelledFor reason) giveBack fun _ => CancelledFor reason)
    (h : Comes (fun result t => Q result (giveBack.run t).2) work s) :
    Comes Q (do let result ← work; giveBack; return result) s := by
  obtain ⟨reason, hresult, hcancelled⟩ | h := h
  · exact Or.inl ⟨reason, hresult, hkeeps reason _ hcancelled⟩
  · exact Or.inr h

section Lookups

variable {κ α : Type} {take : StockWork φ (CacheAnswer κ α)} {s : Stock φ}
  {result : Verdict → VerificationResult}
  {use : Handle κ α → StockWork φ (TaskResult VerificationResult)}

theorem run_withTaken_found {handle : Handle κ α} (h : (take.run s).1 = .found handle) :
    (take >>= fun answer => withTaken answer result use).run s = (use handle).run (take.run s).2 := by
  show (withTaken (take.run s).1 result use).run (take.run s).2 = _
  rw [h]
  rfl

/-- A lookup may settle the result. -/
theorem Comes.withTaken {supply : Except BuildFailure α}
    {Q : TaskResult VerificationResult → Stock φ → Prop}
    (hanswer : Answered supply (take.run s).1 (take.run s).2.workplace)
    (hfailure : ∀ failure, supply = .error failure → Q (.ok (result failure.verdict)) (take.run s).2)
    (hfound : ∀ handle, (take.run s).1 = .found handle → supply = .ok handle.value →
      Comes Q (use handle) (take.run s).2) :
    Comes Q (take >>= fun answer => Services.withTaken answer result use) s := by
  show Comes Q (Services.withTaken (take.run s).1 result use) (take.run s).2
  generalize take.run s = r at hanswer hfailure hfound ⊢
  obtain ⟨answer, t⟩ := r
  cases hanswer with
  | cut hcancelled => exact Or.inl ⟨_, rfl, hcancelled⟩
  | @failed failure w hsupply => exact Or.inr (by cases failure <;> exact hfailure _ hsupply)
  | found hsupply => exact hfound _ rfl hsupply

end Lookups

variable {services : Services φ} {request : VerificationRequest} {before s : Stock φ}
  {plugins : List (Handle String PluginDescriptor)} {hosts : List (Handle String HostDescriptor)}
  {jdks : List (Handle Path.Parts JdkDescriptor)} {target : Target} {plugin : Plugin}
  {host : HostDescriptor} {jdk : JdkDescriptor}

/-! ## The books along the way -/

theorem lends_afterPlugin (services : Services φ) (request : VerificationRequest)
    (h : Lends before [] [] [] s) :
    ∃ plugins, Lends before plugins [] [] (services.afterPlugin request s) :=
  ⟨_, Stock.lends_atWorkplace _ _ (Stock.lends_getPlugin services.plugins request.pluginId s h)⟩

theorem lends_afterHost (services : Services φ) (request : VerificationRequest)
    (h : Lends before [] [] [] s) :
    ∃ plugins hosts, Lends before plugins hosts [] (services.afterHost request s) := by
  obtain ⟨plugins, h⟩ := lends_afterPlugin services request h
  exact ⟨plugins, _, Stock.lends_getHost services.hosts request.hostVersion _ h⟩

theorem lends_afterJdk (services : Services φ) (request : VerificationRequest)
    (h : Lends before [] [] [] s) :
    ∃ plugins hosts jdks, Lends before plugins hosts jdks (services.afterJdk request s) := by
  obtain ⟨plugins, hosts, h⟩ := lends_afterHost services request h
  exact ⟨plugins, hosts, _, Stock.lends_getJdk services.jdks request.jdk _ h⟩

theorem lends_readied (h : Lends before plugins hosts jdks s) :
    Lends before plugins hosts jdks (readied s) :=
  Stock.lends_atWorkplace _ _ (Stock.lends_atWorkplace _ s h)

/-! ## The engine -/

/-- The last look before the engine begins sees what the token is then. -/
theorem run_lastLook {reason : Option String} (h : (readied s).workplace.token.reason = reason) :
    (Stock.atWorkplace Workplace.cancelled).run
      ((Stock.atWorkplace (Workplace.report 0.1)).run s).2 = (reason, readied s) :=
  Prod.ext h rfl

theorem run_verifyLoaded_cancelled {reason : String} (h : (readied s).CancelledFor reason) :
    (services.verifyLoaded target plugin host jdk).run s =
      (.error (.cancelled reason), readied s) := by
  unfold verifyLoaded
  exact (run_bind_of_run rfl).trans (run_bind_of_run (run_lastLook h))

theorem run_verifyLoaded_ok {result : VerificationResult} {t : Stock φ} (h : (readied s).Uncancelled)
    (hengine : (services.runEngine target plugin host jdk).run (readied s) = (.ok result, t)) :
    (services.verifyLoaded target plugin host jdk).run s = (.ok result, t) := by
  unfold verifyLoaded
  exact (run_bind_of_run rfl).trans ((run_bind_of_run (run_lastLook h)).trans
    (run_bind_of_run hengine))

/-- A run of the engine that is broken off ends the task with the reason that the token has. -/
theorem run_verifyLoaded_stopped (hkeeps : services.KeepsCancellation) {reason : String}
    (h : (readied s).Uncancelled)
    (hstopped : (services.engineRun target plugin host jdk (readied s)).1.answer =
      .error .interrupted)
    (hreason : (services.engineRun target plugin host jdk (readied s)).2.CancelledFor reason) :
    let ended := (services.verifyLoaded target plugin host jdk).run s
    ended.1 = .error (.cancelled reason) ∧ ended.2.CancelledFor reason := by
  intro ended
  let t := ((services.releasePlugins
    (services.engineRun target plugin host jdk (readied s)).1.keepalives).run
      (services.engineRun target plugin host jdk (readied s)).2).2
  have hengine : (services.runEngine target plugin host jdk).run (readied s) =
      (.error .interrupted, t) :=
    Prod.ext hstopped rfl
  have ht : t.CancelledFor reason := hkeeps.releasePlugins reason _ _ hreason
  have htoken : t.workplace.token.reason = some reason := ht
  have hended : ended = (.error (.cancelled (t.workplace.token.reason.getD "interrupted")), t) := by
    show (services.verifyLoaded target plugin host jdk).run s = _
    unfold verifyLoaded
    exact (run_bind_of_run rfl).trans ((run_bind_of_run (run_lastLook h)).trans
      (run_bind_of_run hengine))
  rw [hended, htoken]
  exact ⟨rfl, ht⟩

/-- A question for a dependency that is not cut short is answered with what there is to come to. -/
theorem find_of_uncut (hopen : before.Open) {q : Question (Stock φ)}
    (hq : Lends before plugins hosts jdks q.state)
    (huncut : ∀ reason, ¬ services.CutShort host q reason) :
    ((services.findDependency host Workplace.cancelled q.dependency).run q.state).1.plugin? =
      services.dependencyFor host q.dependency q.state := by
  unfold findDependency dependencyFor
  cases hbundled : host.bundled.get? q.dependency.id with
  | some plugin => rfl
  | none =>
      -- the lookup is that of the cache of plugins, which is as open as it was at first
      let t : Stocked (Workplace φ) String PluginDescriptor := ⟨q.state.workplace, q.state.plugins⟩
      have hanswered := services.plugins.answered_get (t := t) hq.plugins hopen.plugins q.dependency.id
      have huncut : ∀ reason, ((services.plugins.get Workplace.cancelled q.dependency.id).run t).1 ≠
          .refused (.cancelled reason) := fun reason hcut => huncut reason ⟨hbundled, hcut⟩
      show (dependencyAnswer q.dependency.id
        ((services.plugins.get Workplace.cancelled q.dependency.id).run t).1).plugin? = _
      unfold pluginFor
      generalize (services.plugins.get Workplace.cancelled q.dependency.id).run t = r
        at hanswered huncut ⊢
      generalize services.plugins.supply Workplace.cancelled q.dependency.id t = supply
        at hanswered ⊢
      obtain ⟨answer, t'⟩ := r
      cases hanswered with
      | cut hcancelled => exact absurd rfl (huncut _)
      | @failed failure w hsupply =>
          subst hsupply
          cases failure <;> rfl
      | found hsupply =>
          subst hsupply
          rfl

/-- With all that is needed at hand the engine gives the result, unless the task is cancelled. -/
theorem comes_verifyLoaded (hrules : services.engine.rules.IsRegular)
    (hkeeps : services.KeepsCancellation) (hopen : before.Open)
    (hs : Lends before plugins hosts jdks s) :
    Comes (fun answer _ => ∃ result, answer = .ok result ∧
        services.Verified target plugin host jdk (readied s) result)
      (services.verifyLoaded target plugin host jdk) s := by
  cases hlook : (readied s).workplace.token.reason with
  | some reason =>
      have hrun : (services.verifyLoaded target plugin host jdk).run s =
          (.error (.cancelled reason), readied s) := run_verifyLoaded_cancelled hlook
      exact Or.inl ⟨reason, by rw [hrun], by rw [hrun]; exact hlook⟩
  | none =>
      obtain ⟨hleft, hquestions⟩ :=
        overseen_run hkeeps target plugin host jdk (lends_readied hs) hlook
      by_cases hstopped : (services.engineRun target plugin host jdk (readied s)).1.answer =
          .error .interrupted
      · obtain ⟨reason, hreason⟩ := Stock.exists_cancelledFor (hleft.stopped hstopped)
        exact Or.inl ⟨reason, run_verifyLoaded_stopped hkeeps hlook hstopped hreason⟩
      · obtain ⟨result, hanswer, hplugin, htarget, hkind⟩ := Verification.run_concluded
          services.engine hrules _ ⟨fun _ _ => rfl, fun _ _ => rfl⟩ (readied s) hstopped
        have hengine : (services.runEngine target plugin host jdk).run (readied s) =
            (.ok result, _) := Prod.ext hanswer rfl
        refine Or.inr ⟨result, ?_, hanswer, hplugin, htarget, hkind, ?_⟩
        · rw [run_verifyLoaded_ok hlook hengine]
        · -- a question that was cut short would have left a cancelled token
          intro q hq
          obtain ⟨⟨others, hq'⟩, hcancelled⟩ := hquestions q hq
          exact find_of_uncut hopen hq' fun reason hcut =>
            (hcancelled reason hcut).not_uncancelled (hleft.free hstopped)

/-- A task in which a question for a dependency is cut short says that it was cancelled. -/
theorem run_verifyLoaded_of_cutShort (hkeeps : services.KeepsCancellation)
    (hs : Lends before plugins hosts jdks s) (hfree : (readied s).Uncancelled)
    {q : Question (Stock φ)} (hq : q ∈ services.questions target plugin host jdk (readied s))
    {reason : String} (hcut : services.CutShort host q reason) :
    ((services.verifyLoaded target plugin host jdk).run s).1 = .error (.cancelled reason) := by
  obtain ⟨hleft, hquestions⟩ :=
    overseen_run hkeeps target plugin host jdk (lends_readied hs) hfree
  have hreason := (hquestions q hq).2 reason hcut
  -- with a cancelled token no run comes to a verdict
  have hstopped : (services.engineRun target plugin host jdk (readied s)).1.answer =
      .error .interrupted := by
    by_contra hother
    exact hreason.not_uncancelled (hleft.free hother)
  exact (run_verifyLoaded_stopped hkeeps hfree hstopped hreason).1

/-! ## The task -/

theorem comes_execute (hrules : services.engine.rules.IsRegular)
    (hkeeps : services.KeepsCancellation) (hs : s.Reachable) (hopen : s.Open) :
    Comes (fun answer s' => ∃ result, answer = .ok result ∧ services.Settled request s result s')
      (services.execute request) s := by
  obtain ⟨plugins, hafterPlugin⟩ := lends_afterPlugin services request hs.lends
  obtain ⟨plugins', hosts, hafterHost⟩ := lends_afterHost services request hs.lends
  obtain ⟨plugins'', hosts', jdks, hafterJdk⟩ := lends_afterJdk services request hs.lends
  -- what is given back after a lookup that went well does not take a cancellation back
  refine Comes.withTaken (services.plugins.answered_get hs.lends.plugins hopen.plugins _)
    (fun failure h => ⟨_, rfl, .noPlugin h⟩) ?_
  intro plugin _ hplugin
  refine .after (.giveBack (fun reason =>
    Stock.keeps_withPlugins ((hkeeps.plugins reason).release plugin)) ?_)
  refine Comes.withTaken (services.hosts.answered_get hafterPlugin.hosts hopen.hosts _)
    (fun failure h => ⟨_, rfl, .noHost hplugin h⟩) ?_
  intro host _ hhost
  refine .giveBack (fun reason => Stock.keeps_withHosts ((hkeeps.hosts reason).release host)) ?_
  refine Comes.withTaken (services.jdks.answered_get hafterHost.jdks hopen.jdks _)
    (fun failure h => ⟨_, rfl, .noJdk hplugin hhost h⟩) ?_
  intro jdk _ hjdk
  refine .giveBack (fun reason => Stock.keeps_withJdks ((hkeeps.jdks reason).release jdk)) ?_
  refine (comes_verifyLoaded hrules hkeeps hopen hafterJdk).imp id ?_
  rintro ⟨result, hresult, hverified⟩
  exact ⟨result, hresult, .verified hplugin hhost hjdk hverified⟩

/-- What a task says is what it has come to when the engine was done. -/
theorem fst_run_execute {plugin : Handle String PluginDescriptor} {host : Handle String HostDescriptor}
    {jdk : Handle Path.Parts JdkDescriptor} (h : services.Engages request s plugin host jdk) :
    ((services.execute request).run s).1 =
      ((services.verifyLoaded request.target plugin.value.plugin host.value jdk.value).run
        (services.afterJdk request s)).1 := by
  have hexecute : (services.execute request).run s = _ := run_withTaken_found h.plugin
  have hverifyPlugin : (services.verifyPlugin request plugin.value.plugin).run
      (services.afterPlugin request s) = _ := run_withTaken_found h.host
  have hverifyOnHost : (services.verifyOnHost request plugin.value.plugin host.value).run
      (services.afterHost request s) = _ := run_withTaken_found h.jdk
  calc ((services.execute request).run s).1
      = ((services.verifyPlugin request plugin.value.plugin).run
          (services.afterPlugin request s)).1 := by rw [hexecute]; rfl
    _ = ((services.verifyOnHost request plugin.value.plugin host.value).run
          (services.afterHost request s)).1 := by rw [hverifyPlugin]; rfl
    _ = _ := by rw [hverifyOnHost]; rfl

/-- With open caches, a task that nobody cancels has a result, and the first thing that cannot be had
decides it, or else the engine. Whatever the caches are like, a task in which a question for a
dependency is cut short ends as cancelled and has no result. -/
theorem execute_settles (services : Services φ) (hrules : services.engine.rules.IsRegular)
    (hkeeps : services.KeepsCancellation) (request : VerificationRequest) (s : Stock φ)
    (hs : s.Reachable) :
    let ended := (services.execute request).run s
    (s.Open → ended.2.Uncancelled →
      ∃ result, ended.1 = .ok result ∧ services.Settled request s result ended.2) ∧
    ∀ plugin host jdk, services.Engages request s plugin host jdk →
      ∀ q ∈ services.questions request.target plugin.value.plugin host.value jdk.value
        (services.engineStart request s),
        ∀ reason, services.CutShort host.value q reason → ended.1 = .error (.cancelled reason) := by
  refine ⟨fun hopen hfree => (comes_execute hrules hkeeps hs hopen).of_uncancelled hfree, ?_⟩
  intro plugin host jdk hengages q hq reason hcut
  obtain ⟨plugins, hosts, jdks, hlends⟩ := lends_afterJdk services request hs.lends
  rw [fst_run_execute hengages]
  exact run_verifyLoaded_of_cutShort hkeeps hlends hengages.uncancelled hq hcut

/-- A stock in which someone else is building the library. The token is cancelled just before the third
look at it, which comes when the task would wait for that build. -/
def overtakenStock : Stock Unit where
  workplace := { place := (), cancellation := some (2, "stop") }
  plugins := (({ options := ⟨"plugins", 1, none⟩ } : CacheSystem String PluginDescriptor).run
    [.request 0 "p", .complete 0 (.ok ⟨circular, .inMemory⟩), .request 1 "lib"]).cache
  hosts := circularStock.hosts

/-- What the task for the plugin holds when its engine begins. -/
def circularHost : Handle String HostDescriptor :=
  ⟨"241.1", 1, ⟨"241.1", .empty "host", Table.empty, .inMemory⟩⟩

def circularJdk : Handle Path.Parts JdkDescriptor := ⟨Path.parts "jdk", 1, ⟨"jdk", .empty "jdk"⟩⟩

theorem keepsCancellation_circular : circularServices.KeepsCancellation where
  plugins := fun _ => ⟨fun _ _ hs => hs, fun _ _ hs => hs⟩
  hosts := fun _ => ⟨fun _ _ hs => hs, fun _ _ hs => hs⟩
  jdks := fun _ => ⟨fun _ _ hs => hs, fun _ _ hs => hs⟩

/-- The request for the plugin. -/
def circularRequest : VerificationRequest := ⟨"p", "241.1", "jdk"⟩

theorem engages_overtaken : circularServices.Engages circularRequest overtakenStock
    ⟨"p", 1, ⟨circular, .inMemory⟩⟩ circularHost circularJdk := ⟨rfl, rfl, rfl, rfl⟩

theorem execute_settles_overtaken :
    circularStock.Reachable ∧ circularStock.Open ∧ overtakenStock.Reachable ∧
      ((circularServices.execute circularRequest).run circularStock).2.Uncancelled ∧
      (∃ result, ((circularServices.execute circularRequest).run circularStock).1 = .ok result ∧
        circularServices.Settled circularRequest circularStock result
          ((circularServices.execute circularRequest).run circularStock).2) ∧
      ((circularServices.execute circularRequest).run overtakenStock).1 =
        .error (.cancelled "stop") := by
  have hreach : circularStock.Reachable :=
    ⟨⟨_, _, rfl⟩, ⟨_, _, rfl⟩, ⟨⟨"jdks", 1, none⟩, [], rfl⟩⟩
  have hreach' : overtakenStock.Reachable :=
    ⟨⟨_, _, rfl⟩, ⟨_, _, rfl⟩, ⟨⟨"jdks", 1, none⟩, [], rfl⟩⟩
  have hopen : circularStock.Open := ⟨rfl, rfl, rfl⟩
  have hfree : ((circularServices.execute circularRequest).run
      circularStock).2.workplace.token.reason = none := by decide +kernel
  have hcut : ∃ q ∈ circularServices.questions circularRequest.target circular circularHost.value
      circularJdk.value (circularServices.engineStart circularRequest overtakenStock),
      circularServices.CutShort circularHost.value q "stop" := by decide +kernel
  obtain ⟨q, hq, hcut⟩ := hcut
  have hsettles := execute_settles circularServices regular_default keepsCancellation_circular
    circularRequest
  exact ⟨hreach, hopen, hreach', hfree, (hsettles circularStock hreach).1 hopen hfree,
    (hsettles overtakenStock hreach').2 _ _ _ engages_overtaken q hq _ hcut⟩

end Services

end Linkage

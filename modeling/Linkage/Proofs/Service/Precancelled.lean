import Linkage.Proofs.Service.Outcomes

/-!
# Tasks whose token is cancelled beforehand

A task looks at its token where it would wait for a build of someone else, and once more when it has all
that it needs. It does not look before it builds something itself, nor when such a build fails. So a
task that was cancelled before it began ends as cancelled, unless a build of its own fails on the way:
then it comes to the verdict that what was to be built cannot be had.

* **`Provider.Fails`** — the caller of a lookup has to build by himself, and that fails;
* **`Services.Unobtained`** — the results that a cancelled task may come to all the same;
* **`execute_cancelled`** — it comes to these and to no others, and otherwise says that it was cancelled;
* **`not_always_cancelled`** — a plugin that nobody has is enough for a verdict.
-/

namespace Linkage

open Stock (Lends CancelledFor)

variable {φ : Type}

/-! ## Lookups -/

/-- Once what was idle for too long is gone, there is nothing under the key and nobody is building it;
and a build of it fails. -/
structure Provider.Fails {ω ι κ α : Type} [DecidableEq κ] (p : Provider ω ι κ α) (i : ι)
    (s : Stocked ω κ α) (failure : BuildFailure) : Prop where
  absent : (p.evictExpired.run s).2.cache.entries.get? (p.key i) = none
  unbuilt : (p.evictExpired.run s).2.cache.building.get? (p.key i) = none
  fails : ((p.build i).run (p.evictExpired.run s).2.outside).1 = .error failure

/-- What a lookup answers to a cancelled task: it fails just where it has to and must not fail otherwise,
and what it does instead is to find something or to stop for the reason of the token. -/
structure AnsweredCancelled {κ α : Type} (fails : BuildFailure → Prop) (reason : String)
    (answer : CacheAnswer κ α) : Prop where
  failed_iff : ∀ failure, answer = .failed failure ↔ fails failure
  otherwise : answer = .refused (.cancelled reason) ∨ (∃ failure, answer = .failed failure) ∨
    ∃ handle, answer = .found handle

section Lookups

variable {ι κ α : Type} [DecidableEq κ] {p : Provider (Workplace φ) ι κ α} {before : Cache κ α}
  {held : List (Handle κ α)} {t : Stocked (Workplace φ) κ α} {reason : String}

theorem failed_get_iff (h : before.Lent held t.cache) (hopen : before.isClosed = false)
    (hkeeps : p.Keeps (Workplace.CancelledFor reason)) (hcancelled : t.outside.CancelledFor reason)
    (i : ι) (failure : BuildFailure) :
    ((p.get Workplace.cancelled i).run t).1 = .failed failure ↔ p.Fails i t failure := by
  have hgoes := p.goes_get Workplace.cancelled i t
  have hswept := hkeeps.evictExpired t hcancelled
  have hstill : (p.evictExpired.run t).2.cache.isClosed = false :=
    (Provider.lent_evictExpired (p := p) h).isClosed.trans hopen
  have hfails : p.Fails i t failure ↔
      (p.evictExpired.run t).2.cache.entries.get? (p.key i) = none ∧
        (p.evictExpired.run t).2.cache.building.get? (p.key i) = none ∧
          ((p.build i).run (p.evictExpired.run t).2.outside).1 = .error failure :=
    ⟨fun h => ⟨h.absent, h.unbuilt, h.fails⟩, fun h => ⟨h.1, h.2.1, h.2.2⟩⟩
  rw [hfails]
  generalize (p.evictExpired.run t).2 = u at hgoes hswept hstill ⊢
  generalize (p.get Workplace.cancelled i).run t = r at hgoes ⊢
  obtain ⟨answer, t'⟩ := r
  cases hgoes with
  | closed hclosed =>
      rw [hstill] at hclosed
      cases hclosed
  | hit _ hentry => simp [hentry]
  | build _ hentry hslot =>
      -- the build is this caller's own, and its outcome the answer
      show CacheAnswer.ofBuild (p.key i) u.cache.nextId ((p.build i).run u.outside).1 = _ ↔ _
      simp only [hentry, hslot, true_and]
      cases ((p.build i).run u.outside).1 <;> simp [CacheAnswer.ofBuild]
  | abandon _ hslot _ => simp [hslot]
  | wait _ _ hlook =>
      have hseen : (Workplace.cancelled.run u.outside).2.token.reason = some reason :=
        Workplace.keeps_cancelled reason u.outside hswept
      rw [Workplace.fst_run_cancelled, hseen] at hlook
      cases hlook

theorem answeredCancelled_get (h : before.Lent held t.cache) (hopen : before.isClosed = false)
    (hkeeps : p.Keeps (Workplace.CancelledFor reason)) (hcancelled : t.outside.CancelledFor reason)
    (i : ι) :
    AnsweredCancelled (p.Fails i t) reason ((p.get Workplace.cancelled i).run t).1 := by
  refine ⟨failed_get_iff h hopen hkeeps hcancelled i, ?_⟩
  have hafter : ((p.get Workplace.cancelled i).run t).2.outside.token.reason = some reason :=
    hkeeps.get (Workplace.keeps_cancelled reason) i t hcancelled
  have hanswered := p.answered_get h hopen i
  generalize (p.get Workplace.cancelled i).run t = r at hafter hanswered ⊢
  obtain ⟨answer, t'⟩ := r
  cases hanswered with
  | cut hreason =>
      -- the token has one reason only
      obtain rfl := Option.some.inj (hafter.symm.trans hreason)
      exact Or.inl rfl
  | failed _ => exact Or.inr (Or.inl ⟨_, rfl⟩)
  | found _ => exact Or.inr (Or.inr ⟨_, rfl⟩)

end Lookups

namespace Services

/-! ## Work of a cancelled task -/

/-- Work of a cancelled task comes to these results, and otherwise says why the task was cancelled. -/
def ComesTo (results : VerificationResult → Prop) (reason : String)
    (work : StockWork φ (TaskResult VerificationResult)) (s : Stock φ) : Prop :=
  (∀ result, (work.run s).1 = .ok result ↔ results result) ∧
    ((work.run s).1 = .error (.cancelled reason) ∨ ∃ result, (work.run s).1 = .ok result)

section Work

variable {results : VerificationResult → Prop} {reason : String}
  {work : StockWork φ (TaskResult VerificationResult)} {s : Stock φ}

theorem ComesTo.of_cancelled (h : (work.run s).1 = .error (.cancelled reason)) :
    ComesTo (fun _ => False) reason work s := by
  refine ⟨?_, Or.inl h⟩
  intro result
  rw [h]
  exact iff_of_false nofun id

theorem ComesTo.congr {results' : VerificationResult → Prop} (h : ComesTo results reason work s)
    (hsame : ∀ result, results result ↔ results' result) : ComesTo results' reason work s :=
  ⟨fun result => (h.1 result).trans (hsame result), h.2⟩

theorem ComesTo.after {first : StockWork φ Unit} (h : ComesTo results reason work (first.run s).2) :
    ComesTo results reason (do first; work) s := h

/-- Something is given back afterwards. -/
theorem ComesTo.giveBack {giveBack : StockWork φ Unit} (h : ComesTo results reason work s) :
    ComesTo results reason (do let result ← work; giveBack; return result) s := h

theorem ComesTo.cancelled_iff (h : ComesTo results reason work s) :
    (work.run s).1 = .error (.cancelled reason) ↔ ∀ result, ¬ results result := by
  constructor
  · intro herror result hresult
    rw [(h.1 result).mpr hresult] at herror
    cases herror
  · intro hnone
    refine h.2.resolve_right ?_
    rintro ⟨result, hresult⟩
    exact hnone result ((h.1 result).mp hresult)

variable {κ α : Type} {take : StockWork φ (CacheAnswer κ α)} {fails : BuildFailure → Prop}
  {result : Verdict → VerificationResult}
  {use : Handle κ α → StockWork φ (TaskResult VerificationResult)}
  {later : Handle κ α → VerificationResult → Prop}

/-- A lookup that fails settles the result. -/
theorem ComesTo.withTaken (hanswer : AnsweredCancelled fails reason (take.run s).1)
    (hfound : ∀ handle, (take.run s).1 = .found handle →
      ComesTo (later handle) reason (use handle) (take.run s).2) :
    ComesTo (fun r => (∃ failure, fails failure ∧ r = result failure.verdict) ∨
        ∃ handle, (take.run s).1 = .found handle ∧ later handle r) reason
      (take >>= fun answer => Services.withTaken answer result use) s := by
  have hrun : (take >>= fun answer => Services.withTaken answer result use).run s =
      (Services.withTaken (take.run s).1 result use).run (take.run s).2 := rfl
  unfold ComesTo
  rw [hrun]
  obtain ⟨hfailed, hcut | ⟨failure, hfailure⟩ | ⟨handle, hhandle⟩⟩ := hanswer
  · rw [hcut] at hfailed ⊢
    refine ⟨?_, Or.inl rfl⟩
    intro r
    refine iff_of_false nofun ?_
    rintro (⟨failure, hfails, -⟩ | ⟨handle, hhandle, -⟩)
    · cases (hfailed failure).mpr hfails
    · cases hhandle
  · have hsettled : ((Services.withTaken (take.run s).1 result use).run (take.run s).2).1 =
        .ok (result failure.verdict) := by
      rw [hfailure]
      cases failure <;> rfl
    rw [hsettled]
    refine ⟨?_, Or.inr ⟨_, rfl⟩⟩
    intro r
    constructor
    · rintro ⟨⟩
      exact Or.inl ⟨failure, (hfailed failure).mp hfailure, rfl⟩
    · rintro (⟨failure', hfails, rfl⟩ | ⟨handle, hhandle, -⟩)
      · cases hfailure.symm.trans ((hfailed failure').mpr hfails)
        rfl
      · cases hfailure.symm.trans hhandle
  · obtain ⟨hresults, hends⟩ := hfound handle hhandle
    have huse : (Services.withTaken (take.run s).1 result use).run (take.run s).2 =
        (use handle).run (take.run s).2 := by
      rw [hhandle]
      rfl
    rw [huse]
    refine ⟨?_, hends⟩
    intro r
    rw [hresults]
    constructor
    · exact fun hr => Or.inr ⟨handle, hhandle, hr⟩
    · rintro (⟨failure, hfails, -⟩ | ⟨handle', hhandle', hr⟩)
      · cases hhandle.symm.trans ((hfailed failure).mpr hfails)
      · cases hhandle.symm.trans hhandle'
        exact hr

end Work

/-! ## The task -/

section Task

variable (services : Services φ) (request : VerificationRequest)

/-- A result that goes by what the task cannot build: the first of the plugin, the host build and the
JDK that it has to build by itself and cannot. -/
inductive Unobtained (s : Stock φ) : VerificationResult → Prop where
  | noPlugin {failure : BuildFailure}
      (hplugin : services.plugins.Fails request.pluginId ⟨s.workplace, s.plugins⟩ failure) :
      Unobtained s ⟨⟨request.pluginId, PluginInfo.unknownVersion, none⟩, request.target,
        failure.verdict, none⟩
  | noHost {plugin : Handle String PluginDescriptor} {failure : BuildFailure}
      (hplugin : ((services.takePlugin request).run s).1 = .found plugin)
      (hhost : services.hosts.Fails request.hostVersion
        ⟨(services.afterPlugin request s).workplace, (services.afterPlugin request s).hosts⟩ failure) :
      Unobtained s ⟨plugin.value.plugin.info, request.target, failure.verdict, none⟩
  | noJdk {plugin : Handle String PluginDescriptor} {host : Handle String HostDescriptor}
      {failure : BuildFailure}
      (hplugin : ((services.takePlugin request).run s).1 = .found plugin)
      (hhost : ((services.takeHost request).run (services.afterPlugin request s)).1 = .found host)
      (hjdk : services.jdks.Fails request.jdk
        ⟨(services.afterHost request s).workplace, (services.afterHost request s).jdks⟩ failure) :
      Unobtained s ⟨plugin.value.plugin.info, request.target, failure.verdict, none⟩

variable {services request} {s : Stock φ} {reason : String}

theorem unobtained_iff {result : VerificationResult} : services.Unobtained request s result ↔
    (∃ failure, services.plugins.Fails request.pluginId ⟨s.workplace, s.plugins⟩ failure ∧ result =
      ⟨⟨request.pluginId, PluginInfo.unknownVersion, none⟩, request.target, failure.verdict, none⟩) ∨
    ∃ plugin, ((services.takePlugin request).run s).1 = .found plugin ∧
      ((∃ failure, services.hosts.Fails request.hostVersion ⟨(services.afterPlugin request s).workplace,
          (services.afterPlugin request s).hosts⟩ failure ∧
        result = ⟨plugin.value.plugin.info, request.target, failure.verdict, none⟩) ∨
      ∃ host, ((services.takeHost request).run (services.afterPlugin request s)).1 = .found host ∧
        ((∃ failure, services.jdks.Fails request.jdk ⟨(services.afterHost request s).workplace,
            (services.afterHost request s).jdks⟩ failure ∧
          result = ⟨plugin.value.plugin.info, request.target, failure.verdict, none⟩) ∨
        ∃ jdk, ((services.takeJdk request).run (services.afterHost request s)).1 = .found jdk ∧
          False)) := by
  constructor
  · rintro (h | ⟨hplugin, h⟩ | ⟨hplugin, hhost, h⟩)
    · exact Or.inl ⟨_, h, rfl⟩
    · exact Or.inr ⟨_, hplugin, Or.inl ⟨_, h, rfl⟩⟩
    · exact Or.inr ⟨_, hplugin, Or.inr ⟨_, hhost, Or.inl ⟨_, h, rfl⟩⟩⟩
  · rintro (⟨_, h, rfl⟩ | ⟨_, hplugin, ⟨_, h, rfl⟩ | ⟨_, hhost, ⟨_, h, rfl⟩ | ⟨_, -, ⟨⟩⟩⟩⟩)
    · exact .noPlugin h
    · exact .noHost hplugin h
    · exact .noJdk hplugin hhost h

variable (hkeeps : services.KeepsCancellation) (hs : s.Reachable) (hopen : s.Open)
  (hcancelled : s.CancelledFor reason)
include hkeeps hs hopen hcancelled

/-- Each lookup of a cancelled task runs with the token cancelled, and so does the last look. -/
theorem comesTo_execute :
    ComesTo (services.Unobtained request s) reason (services.execute request) s := by
  obtain ⟨plugins, hafterPlugin⟩ := lends_afterPlugin services request hs.lends
  obtain ⟨plugins', hosts, hafterHost⟩ := lends_afterHost services request hs.lends
  have hcancelled₁ : (services.afterPlugin request s).CancelledFor reason :=
    hkeeps.getPlugin reason request.pluginId s hcancelled
  have hcancelled₂ : (services.afterHost request s).CancelledFor reason :=
    Stock.keeps_withHosts ((hkeeps.hosts reason).get (Workplace.keeps_cancelled reason) _)
      _ hcancelled₁
  have hcancelled₃ : (services.afterJdk request s).CancelledFor reason :=
    Stock.keeps_withJdks ((hkeeps.jdks reason).get (Workplace.keeps_cancelled reason) _) _ hcancelled₂
  have hcancelled₄ : (readied (services.afterJdk request s)).CancelledFor reason :=
    Stock.keeps_atWorkplace (Workplace.keeps_cancelled reason) _
      (Stock.keeps_report 0.1 _ hcancelled₃)
  refine ComesTo.congr ?_ fun result => unobtained_iff.symm
  refine ComesTo.withTaken (answeredCancelled_get (t := ⟨s.workplace, s.plugins⟩) hs.lends.plugins
    hopen.plugins (hkeeps.plugins reason) hcancelled _) ?_
  intro plugin _
  refine ComesTo.after (.giveBack ?_)
  refine ComesTo.withTaken (answeredCancelled_get
    (t := ⟨(services.afterPlugin request s).workplace, (services.afterPlugin request s).hosts⟩)
    hafterPlugin.hosts hopen.hosts (hkeeps.hosts reason) hcancelled₁ _) ?_
  intro host _
  refine ComesTo.giveBack ?_
  refine ComesTo.withTaken (answeredCancelled_get
    (t := ⟨(services.afterHost request s).workplace, (services.afterHost request s).jdks⟩)
    hafterHost.jdks hopen.jdks (hkeeps.jdks reason) hcancelled₂ _) ?_
  intro jdk _
  refine ComesTo.giveBack (.of_cancelled ?_)
  exact congrArg Prod.fst (run_verifyLoaded_cancelled hcancelled₄)

end Task

/-- With open caches, a task whose token was cancelled before it began comes to a result just where a
build of its own fails before it looks at the token, and otherwise it ends as cancelled, for the reason
that the token has. -/
theorem execute_cancelled (services : Services φ) (hkeeps : services.KeepsCancellation)
    (request : VerificationRequest) (s : Stock φ) (hs : s.Reachable) (hopen : s.Open)
    (reason : String) (hcancelled : s.CancelledFor reason) :
    let answer := ((services.execute request).run s).1
    (∀ result, answer = .ok result ↔ services.Unobtained request s result) ∧
      (answer = .error (.cancelled reason) ↔ ∀ result, ¬ services.Unobtained request s result) := by
  have h : ComesTo (services.Unobtained request s) reason (services.execute request) s :=
    comesTo_execute hkeeps hs hopen hcancelled
  exact ⟨h.1, h.cancelled_iff⟩

/-- The stock in which someone holds the plugin, for a task whose token is cancelled. -/
def precancelledStock : Stock Unit :=
  { circularStock with workplace := { place := (), token := { reason := some "stop" } } }

theorem reachable_precancelled : precancelledStock.Reachable :=
  ⟨⟨_, _, rfl⟩, ⟨_, _, rfl⟩, ⟨⟨"jdks", 1, none⟩, [], rfl⟩⟩

/-- What is there is found, and the task is cancelled then. What is not there settles the result. -/
theorem run_execute_precancelled :
    ((circularServices.execute circularRequest).run precancelledStock).1 =
        .error (.cancelled "stop") ∧
      ((circularServices.execute ⟨"gone", "241.1", "jdk"⟩).run precancelledStock).1 =
        .ok ⟨⟨"gone", PluginInfo.unknownVersion, none⟩, ⟨"241.1", "jdk"⟩, .notFound "gone", none⟩ := by
  decide +kernel

theorem execute_cancelled_precancelled :
    precancelledStock.Reachable ∧ precancelledStock.Open ∧ precancelledStock.CancelledFor "stop" ∧
      (∀ result, ¬ circularServices.Unobtained circularRequest precancelledStock result) ∧
      circularServices.Unobtained ⟨"gone", "241.1", "jdk"⟩ precancelledStock
        ⟨⟨"gone", PluginInfo.unknownVersion, none⟩, ⟨"241.1", "jdk"⟩, .notFound "gone", none⟩ := by
  have hopen : precancelledStock.Open := ⟨rfl, rfl, rfl⟩
  have hends := fun request => execute_cancelled circularServices keepsCancellation_circular request
    precancelledStock reachable_precancelled hopen "stop" rfl
  obtain ⟨hcancelled, hverdict⟩ := run_execute_precancelled
  exact ⟨reachable_precancelled, hopen, rfl, (hends _).2.mp hcancelled, ((hends _).1 _).mp hverdict⟩

/-- Cancelling a task beforehand does not keep it from a verdict: the plugin may not be there. -/
theorem not_always_cancelled :
    ¬ ∀ (services : Services Unit) (request : VerificationRequest) (s : Stock Unit) (reason : String),
      services.KeepsCancellation → s.Reachable → s.Open → s.CancelledFor reason →
        ((services.execute request).run s).1 = .error (.cancelled reason) := by
  intro h
  have hcancelled := h circularServices ⟨"gone", "241.1", "jdk"⟩ precancelledStock "stop"
    keepsCancellation_circular reachable_precancelled ⟨rfl, rfl, rfl⟩ rfl
  rw [run_execute_precancelled.2] at hcancelled
  cases hcancelled

end Services

end Linkage

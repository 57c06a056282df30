import Linkage.Service.VerifyTask
import Linkage.Proofs.Cache.Provision
import Linkage.Proofs.Cache.Runs
import Linkage.Proofs.Verification.Keeping

/-!
# A task gives back what it has taken

A task takes up to three handles itself, and its search for dependencies takes more. All of them are
given back, whichever way the task ends.

* **`Stock.Lends`** — what has been lent from the three caches of a stock;
* **`Services.lends_find`**, **`Services.lends_runEngine`** — a dependency is one handle more at most,
  and a run of the engine gives back all that it was lent;
* **`execute_restores`** — after a task the caches are owed what they were owed before.
-/

namespace Linkage

open Cache (Lent Restored)

variable {φ β : Type}

/-! ## Caches that there can be -/

/-- The cache can come about, whatever its options and whoever uses it. -/
def Cache.Reachable {κ α : Type} [DecidableEq κ] (c : Cache κ α) : Prop :=
  ∃ (o : CacheOptions) (events : List (CacheEvent κ α)),
    c = (({ options := o } : CacheSystem κ α).run events).cache

/-- Nothing has been lent yet. -/
theorem Cache.Reachable.lent {κ α : Type} [DecidableEq κ] {c : Cache κ α} (h : c.Reachable) :
    Lent c [] c := by
  obtain ⟨o, events, rfl⟩ := h
  have hsound := CacheSystem.sound_run o events
  exact ⟨.start hsound.balanced, hsound.tidy⟩

namespace Stock

/-- All three caches can come about. -/
structure Reachable (s : Stock φ) : Prop where
  plugins : s.plugins.Reachable
  hosts : s.hosts.Reachable
  jdks : s.jdks.Reachable

/-- Since `before` the handles named have been lent from the caches. -/
structure Lends (before : Stock φ) (plugins : List (Handle String PluginDescriptor))
    (hosts : List (Handle String HostDescriptor)) (jdks : List (Handle Path.Parts JdkDescriptor))
    (s : Stock φ) : Prop where
  plugins : Lent before.plugins plugins s.plugins
  hosts : Lent before.hosts hosts s.hosts
  jdks : Lent before.jdks jdks s.jdks

theorem Reachable.lends {s : Stock φ} (h : s.Reachable) : Lends s [] [] [] s :=
  ⟨h.plugins.lent, h.hosts.lent, h.jdks.lent⟩

variable {before : Stock φ} {plugins : List (Handle String PluginDescriptor)}
  {hosts : List (Handle String HostDescriptor)} {jdks : List (Handle Path.Parts JdkDescriptor)}

/-- What is done at the workplace does not concern the caches. -/
theorem lends_atWorkplace (work : StateM (Workplace φ) β) :
    Ensures (Lends before plugins hosts jdks) (atWorkplace work) fun _ =>
      Lends before plugins hosts jdks :=
  fun _ hs => ⟨hs.plugins, hs.hosts, hs.jdks⟩

section Providers

variable {cancelled : StateM (Workplace φ) (Option String)}

theorem lends_getPlugin (p : Provider (Workplace φ) String String PluginDescriptor) (id : String) :
    Ensures (Lends before plugins hosts jdks) (withPlugins (p.get cancelled id)) fun answer =>
      Lends before (answer.handles ++ plugins) hosts jdks :=
  fun _ hs => ⟨Provider.lent_get hs.plugins cancelled id, hs.hosts, hs.jdks⟩

theorem lends_getHost (p : Provider (Workplace φ) String String HostDescriptor) (version : String) :
    Ensures (Lends before plugins hosts jdks) (withHosts (p.get cancelled version)) fun answer =>
      Lends before plugins (answer.handles ++ hosts) jdks :=
  fun _ hs => ⟨hs.plugins, Provider.lent_get hs.hosts cancelled version, hs.jdks⟩

theorem lends_getJdk (p : Provider (Workplace φ) String Path.Parts JdkDescriptor) (path : String) :
    Ensures (Lends before plugins hosts jdks) (withJdks (p.get cancelled path)) fun answer =>
      Lends before plugins hosts (answer.handles ++ jdks) :=
  fun _ hs => ⟨hs.plugins, hs.hosts, Provider.lent_get hs.jdks cancelled path⟩

theorem lends_releasePlugin (p : Provider (Workplace φ) String String PluginDescriptor)
    (handle : Handle String PluginDescriptor) :
    Ensures (Lends before (handle :: plugins) hosts jdks) (withPlugins (p.release handle)) fun _ =>
      Lends before plugins hosts jdks :=
  fun _ hs => ⟨Provider.lent_release hs.plugins, hs.hosts, hs.jdks⟩

theorem lends_releaseHost (p : Provider (Workplace φ) String String HostDescriptor)
    (handle : Handle String HostDescriptor) :
    Ensures (Lends before plugins (handle :: hosts) jdks) (withHosts (p.release handle)) fun _ =>
      Lends before plugins hosts jdks :=
  fun _ hs => ⟨hs.plugins, Provider.lent_release hs.hosts, hs.jdks⟩

theorem lends_releaseJdk (p : Provider (Workplace φ) String Path.Parts JdkDescriptor)
    (handle : Handle Path.Parts JdkDescriptor) :
    Ensures (Lends before plugins hosts (handle :: jdks)) (withJdks (p.release handle)) fun _ =>
      Lends before plugins hosts jdks :=
  fun _ hs => ⟨hs.plugins, hs.hosts, Provider.lent_release hs.jdks⟩

end Providers

end Stock

namespace Services

open Stock (Lends)

variable (services : Services φ) {before : Stock φ} {plugins : List (Handle String PluginDescriptor)}
  {hosts : List (Handle String HostDescriptor)} {jdks : List (Handle Path.Parts JdkDescriptor)}

/-! ## Dependencies -/

/-- What is held for a dependency is the handle that the cache has answered with. -/
theorem held_dependencyAnswer (id : String) (answer : CacheAnswer String PluginDescriptor) :
    (dependencyAnswer id answer).held = answer.handles := by
  cases answer with
  | found handle => rfl
  | failed failure => cases failure <;> rfl
  | refused refusal => cases refusal <;> rfl
  | lost => rfl

/-- A dependency from the cache is held, and one that comes with the host build is not. -/
theorem lends_find (host : HostDescriptor) (cancelled : StateM (Workplace φ) (Option String))
    (d : Dependency) (held : List (Handle String PluginDescriptor)) :
    Ensures (Lends before (held ++ plugins) hosts jdks) (services.findDependency host cancelled d)
      fun answer => Lends before ((held ++ answer.held) ++ plugins) hosts jdks := by
  unfold findDependency
  cases host.bundled.get? d.id with
  | some plugin =>
      refine .pure fun s hs => ?_
      show Lends before ((held ++ []) ++ plugins) hosts jdks s
      rw [List.append_nil]
      exact hs
  | none =>
      refine Ensures.map ((Stock.lends_getPlugin services.plugins d.id).weaken (fun _ hs => hs) ?_)
      intro answer s hs
      rw [held_dependencyAnswer, List.append_assoc]
      refine ⟨hs.plugins.perm ?_, hs.hosts, hs.jdks⟩
      exact List.perm_append_comm_assoc _ _ _

theorem lends_releasePlugins (handles : List (Handle String PluginDescriptor)) :
    Ensures (Lends before (handles ++ plugins) hosts jdks) (services.releasePlugins handles) fun _ =>
      Lends before plugins hosts jdks := by
  induction handles with
  | nil => exact .pure fun _ hs => hs
  | cons handle rest ih => exact (Stock.lends_releasePlugin services.plugins handle).bind fun _ => ih

/-! ## The task -/

/-- What the engine is run with when the stock is `s`. -/
def engineInput (target : Target) (plugin : Plugin) (host : HostDescriptor) (jdk : JdkDescriptor)
    (s : Stock φ) : VerificationInput (Stock φ) (Handle String PluginDescriptor) where
  plugin := plugin
  target := target
  host := .reliable host.classes
  jdk := .reliable jdk.classes
  finder := services.finder host s
  shouldStop := return (← Stock.atWorkplace Workplace.cancelled).isSome
  progress := fun fraction => Stock.atWorkplace (Workplace.report (engineShare fraction))

theorem run_runEngine (target : Target) (plugin : Plugin) (host : HostDescriptor)
    (jdk : JdkDescriptor) (s : Stock φ) :
    let ended := (Verification.run services.engine
      (services.engineInput target plugin host jdk s)).run s
    (services.runEngine target plugin host jdk).run s =
      (ended.1.answer, ((services.releasePlugins ended.1.keepalives).run ended.2).2) := rfl

theorem guards_lends (target : Target) (plugin : Plugin) (host : HostDescriptor)
    (jdk : JdkDescriptor) (s : Stock φ) :
    (services.engineInput target plugin host jdk s).Guards
      (fun held => Lends before (held ++ plugins) hosts jdks) (fun _ => True) (fun _ => True) where
  find := services.lends_find host Workplace.cancelled
  look := fun held s hs => ⟨Stock.lends_atWorkplace Workplace.cancelled s hs, by split <;> trivial⟩
  progress := fun fraction held s hs => ⟨Stock.lends_atWorkplace _ s hs.1, trivial⟩

/-- The engine gives back what its search for dependencies has taken. -/
theorem lends_runEngine (target : Target) (plugin : Plugin) (host : HostDescriptor)
    (jdk : JdkDescriptor) :
    Ensures (Lends before plugins hosts jdks) (services.runEngine target plugin host jdk) fun _ =>
      Lends before plugins hosts jdks := by
  intro s hs
  have hrun := (services.guards_lends target plugin host jdk s).run services.engine s ⟨hs, trivial⟩
  rw [run_runEngine]
  exact services.lends_releasePlugins _ _ hrun.1

/-- Of the ways in which one goes on after a lookup only one has a handle, and it gives it back. -/
theorem ensures_withTaken {κ α : Type} {I : List (Handle κ α) → Stock φ → Prop}
    (answer : CacheAnswer κ α) (result : Verdict → VerificationResult)
    {use : Handle κ α → StockWork φ (TaskResult VerificationResult)}
    (huse : ∀ handle, Ensures (I [handle]) (use handle) fun _ => I []) :
    Ensures (I answer.handles) (withTaken answer result use) fun _ => I [] := by
  cases answer with
  | found handle => exact huse handle
  | failed failure => cases failure <;> exact .pure fun _ hs => hs
  | refused refusal => cases refusal <;> exact .pure fun _ hs => hs
  | lost => exact .pure fun _ hs => hs

theorem lends_verifyLoaded (target : Target) (plugin : Plugin) (host : HostDescriptor)
    (jdk : JdkDescriptor) :
    Ensures (Lends before plugins hosts jdks) (services.verifyLoaded target plugin host jdk) fun _ =>
      Lends before plugins hosts jdks := by
  unfold verifyLoaded
  refine (Stock.lends_atWorkplace _).bind fun _ => (Stock.lends_atWorkplace _).bind fun reason => ?_
  cases reason with
  | some reason => exact .pure fun _ hs => hs
  | none =>
      refine (services.lends_runEngine target plugin host jdk).bind fun answer => ?_
      cases answer with
      | ok result => exact .pure fun _ hs => hs
      | error failure =>
          cases failure with
          | interrupted => exact fun _ hs => hs
          | classpathUnavailable failure => exact .pure fun _ hs => hs

theorem lends_verifyOnHost (request : VerificationRequest) (plugin : Plugin) (host : HostDescriptor) :
    Ensures (Lends before plugins hosts []) (services.verifyOnHost request plugin host) fun _ =>
      Lends before plugins hosts [] := by
  unfold verifyOnHost
  refine (Stock.lends_getJdk services.jdks request.jdk).bind fun answer => ?_
  simp only [List.append_nil]
  refine ensures_withTaken (I := fun held => Lends before plugins hosts held) answer _ fun jdk => ?_
  exact (services.lends_verifyLoaded _ plugin host jdk.value).bind fun _ =>
    (Stock.lends_releaseJdk services.jdks jdk).bind fun _ => .pure fun _ hs => hs

theorem lends_verifyPlugin (request : VerificationRequest) (plugin : Plugin) :
    Ensures (Lends before plugins [] []) (services.verifyPlugin request plugin) fun _ =>
      Lends before plugins [] [] := by
  unfold verifyPlugin
  refine (Stock.lends_getHost services.hosts request.hostVersion).bind fun answer => ?_
  simp only [List.append_nil]
  refine ensures_withTaken (I := fun held => Lends before plugins held []) answer _ fun host => ?_
  exact (services.lends_verifyOnHost request plugin host.value).bind fun _ =>
    (Stock.lends_releaseHost services.hosts host).bind fun _ => .pure fun _ hs => hs

theorem lends_execute (request : VerificationRequest) :
    Ensures (Lends before [] [] []) (services.execute request) fun _ => Lends before [] [] [] := by
  unfold execute
  refine (Stock.lends_getPlugin services.plugins request.pluginId).bind fun answer => ?_
  simp only [List.append_nil]
  refine ensures_withTaken (I := fun held => Lends before held [] []) answer _ fun plugin => ?_
  exact (Stock.lends_atWorkplace _).bind fun _ =>
    (services.lends_verifyPlugin request plugin.value.plugin).bind fun _ =>
    (Stock.lends_releasePlugin services.plugins plugin).bind fun _ => .pure fun _ hs => hs

/-- Whatever the builders come to, whenever the token is cancelled and whatever depends on what: after
a task has ended, in any way, each of the three caches is owed what it was owed before. -/
theorem execute_restores (services : Services φ) (request : VerificationRequest) (s : Stock φ)
    (hs : s.Reachable) :
    let s' := ((services.execute request).run s).2
    Restored s.plugins s'.plugins ∧ Restored s.hosts s'.hosts ∧ Restored s.jdks s'.jdks := by
  intro s'
  have h : Lends s [] [] [] s' := services.lends_execute request s hs.lends
  exact ⟨h.plugins.restored, h.hosts.restored, h.jdks.restored⟩

/-- A plugin with the id `q` that is kept under the key `p`. It needs what stands under that key, which
is itself, and a library. -/
def circular : Plugin where
  info := ⟨"q", "1.0", none⟩
  classes := .empty "q"
  dependencies := [⟨"p", false⟩, ⟨"lib", false⟩, ⟨"gone", true⟩]

/-- The library needs itself and the plugin under both its names. -/
def circularLibrary : Plugin where
  info := ⟨"lib", "1.0", none⟩
  classes := .empty "lib"
  dependencies := [⟨"q", false⟩, ⟨"p", false⟩, ⟨"lib", false⟩]

/-- Providers that can build the library, any host build and any JDK. -/
def circularServices : Services Unit where
  engine := {}
  plugins :=
    { options := ⟨"plugins", 1, none⟩
      key := fun id => id
      build := fun id =>
        return if id = "lib" then .ok ⟨circularLibrary, .inMemory⟩ else .error (.notFound id)
      now := Workplace.now }
  hosts :=
    { options := ⟨"hosts", 1, none⟩
      key := fun version => version
      build := fun version => return .ok ⟨version, .empty "host", Table.empty, .inMemory⟩
      now := Workplace.now }
  jdks :=
    { options := ⟨"jdks", 1, none⟩
      key := Path.parts
      build := fun _ => return .ok ⟨"jdk", .empty "jdk"⟩
      now := Workplace.now }
  pluginsAt := fun _ => 1

/-- Someone holds the plugin, someone else is building the host build, and a third one waits for it. -/
def circularStock : Stock Unit where
  workplace := { place := () }
  plugins := (({ options := ⟨"plugins", 1, none⟩ } : CacheSystem String PluginDescriptor).run
    [.request 0 "p", .complete 0 (.ok ⟨circular, .inMemory⟩)]).cache
  hosts := (({ options := ⟨"hosts", 1, none⟩ } : CacheSystem String HostDescriptor).run
    [.request 0 "241.1", .request 1 "241.1"]).cache

theorem execute_restores_circular :
    circularStock.Reachable ∧
      let s' := ((circularServices.execute ⟨"p", "241.1", "jdk"⟩).run circularStock).2
      s'.plugins.counts.hits = 2 ∧ s'.plugins.outstanding "p" = 1 ∧
        s'.plugins.outstanding "lib" = 0 ∧ s'.hosts.outstanding "241.1" = 2 ∧
        s'.jdks.outstanding (Path.parts "jdk") = 0 := by
  have hreach : circularStock.Reachable :=
    ⟨⟨_, _, rfl⟩, ⟨_, _, rfl⟩, ⟨⟨"jdks", 1, none⟩, [], rfl⟩⟩
  refine ⟨hreach, ?_⟩
  intro s'
  obtain ⟨hplugins, -, hjdks⟩ :=
    execute_restores circularServices ⟨"p", "241.1", "jdk"⟩ circularStock hreach
  refine ⟨by decide +kernel, ?_, ?_, by decide +kernel, ?_⟩
  · exact (hplugins.references "p" (by decide +kernel)).2.trans (by decide +kernel)
  · exact (hplugins.references "lib" (by decide +kernel)).2.trans (by decide +kernel)
  · exact (hjdks.references (Path.parts "jdk") (by decide +kernel)).2.trans (by decide +kernel)

end Services

end Linkage

import Linkage.Cache.Provider
import Linkage.Task.Token
import Linkage.Verification

/-!
# What verification tasks work with

Plugins, host builds and JDKs come from three caches. Their builders work at a workplace: a place of
any kind, the token of the task that is at work, which others may cancel meanwhile, and the fractions
of its work that it has reported.
-/

namespace Linkage

/-- Where a task works; `φ` is whatever descriptors are built from. -/
structure Workplace (φ : Type) where
  place : φ
  /-- The token of the task at work. -/
  token : Token := {}
  /-- That somebody else cancels the token, if anybody does: for what reason, and after how many more
  looks at it. -/
  cancellation : Option (Nat × String) := none
  /-- The fractions that the task has reported, in order. -/
  raised : List Float := []
  /-- The time in milliseconds. -/
  now : Nat := 0

namespace Workplace

variable {φ : Type}

/-- The next look at the token comes: if somebody else cancels it before, that happens now. -/
def overtaken (w : Workplace φ) : Workplace φ :=
  match w.cancellation with
  | none => w
  | some (0, reason) => { w with token := w.token.cancel reason, cancellation := none }
  | some (looks + 1, reason) => { w with cancellation := some (looks, reason) }

/-- Looks at the token; gives the reason if it is cancelled. -/
def cancelled : StateM (Workplace φ) (Option String) := do
  let w := (← get).overtaken
  let token := w.token.poll w.now
  set { w with token := token }
  return token.reason

/-- Reports a fraction of the work. -/
def report (fraction : Float) : StateM (Workplace φ) Unit :=
  modify fun w => { w with raised := w.raised ++ [fraction] }

end Workplace

/-- The caches and the workplace. -/
structure Stock (φ : Type) where
  workplace : Workplace φ
  plugins : Cache String PluginDescriptor := {}
  hosts : Cache String HostDescriptor := {}
  jdks : Cache Path.Parts JdkDescriptor := {}

/-- The engine and the providers that tasks share. -/
structure Services (φ : Type) where
  engine : Engine
  plugins : Provider (Workplace φ) String String PluginDescriptor
  hosts : Provider (Workplace φ) String String HostDescriptor
  jdks : Provider (Workplace φ) String Path.Parts JdkDescriptor
  /-- At most so many plugins can be built at a place. -/
  pluginsAt : φ → Nat

/-- Work with the caches. -/
abbrev StockWork (φ β : Type) := StateM (Stock φ) β

namespace Stock

variable {φ β : Type}

/-- Works at the workplace. -/
def atWorkplace (work : StateM (Workplace φ) β) : StockWork φ β := fun s =>
  let (x, w) := work.run s.workplace
  (x, { s with workplace := w })

/-- Works with the cache of plugins. -/
def withPlugins (work : CacheWork (Workplace φ) String PluginDescriptor β) : StockWork φ β := fun s =>
  let (x, t) := work.run ⟨s.workplace, s.plugins⟩
  (x, { s with workplace := t.outside, plugins := t.cache })

/-- Works with the cache of host builds. -/
def withHosts (work : CacheWork (Workplace φ) String HostDescriptor β) : StockWork φ β := fun s =>
  let (x, t) := work.run ⟨s.workplace, s.hosts⟩
  (x, { s with workplace := t.outside, hosts := t.cache })

/-- Works with the cache of JDKs. -/
def withJdks (work : CacheWork (Workplace φ) Path.Parts JdkDescriptor β) : StockWork φ β := fun s =>
  let (x, t) := work.run ⟨s.workplace, s.jdks⟩
  (x, { s with workplace := t.outside, jdks := t.cache })

end Stock

namespace Services

variable {φ : Type}

/-- Closes the caches. -/
def close (services : Services φ) : StockWork φ Unit := do
  Stock.withPlugins services.plugins.close
  Stock.withHosts services.hosts.close
  Stock.withJdks services.jdks.close

/-- Evicts from the caches what is idle for too long; gives how many plugins, host builds and JDKs that
were. -/
def evictExpired (services : Services φ) : StockWork φ (List Nat) := do
  let plugins ← Stock.withPlugins services.plugins.evictExpired
  let hosts ← Stock.withHosts services.hosts.evictExpired
  let jdks ← Stock.withJdks services.jdks.evictExpired
  return [plugins, hosts, jdks]

end Services

end Linkage

import Linkage.Files.Access
import Linkage.Json.Reader
import Linkage.Json.Value
import Linkage.Text.Natural

/-!
# Configuration

What the verifier is run with, read from a JSON text or from the variables of the environment. A
configuration is checked after it has been read: everything that is counted must be at least one.
-/

namespace Linkage

open Json (Reader Value)

/-- The settings of the verifier. -/
structure Config where
  /-- Where the repositories and the extracted artifacts are; nothing for the machine's own place. -/
  home : Option String := none
  /-- How many tasks run at a time; nothing for as many as the machine has processors. -/
  workers : Option Nat := none
  hostCapacity : Nat := 4
  jdkCapacity : Nat := 2
  pluginCapacity : Nat := 64
  /-- After how many milliseconds an idle descriptor is evicted. -/
  idleTtl : Option Nat := none
  /-- After how many milliseconds a task is cancelled. -/
  taskTimeout : Option Nat := none
  /-- The packages provided by the environment. -/
  externalPrefixes : List String := []
  /-- How many milliseconds lie between two rounds of re-checking. -/
  recheckInterval : Option Nat := none
  deriving DecidableEq, Repr

namespace Config

/-- What a configuration must not say. -/
inductive Defect where
  | zeroWorkers
  /-- A cache, by the name of its setting, that may hold nothing. -/
  | zeroCapacity (setting : String)
  | zeroInterval
  deriving DecidableEq, Repr

def Defect.message (d : Defect) : String :=
  "Invalid configuration: " ++
    match d with
    | .zeroWorkers => "worker_threads must be at least 1"
    | .zeroCapacity setting => setting ++ " must be at least 1"
    | .zeroInterval => "recheck_interval_ms must be positive"

/-- The first defect of a configuration. -/
def defect? (c : Config) : Option Defect :=
  if c.workers = some 0 then some .zeroWorkers
  else if c.hostCapacity = 0 then some (.zeroCapacity "host_cache_capacity")
  else if c.jdkCapacity = 0 then some (.zeroCapacity "jdk_cache_capacity")
  else if c.pluginCapacity = 0 then some (.zeroCapacity "plugin_cache_capacity")
  else if c.recheckInterval = some 0 then some .zeroInterval
  else none

/-! ## Places -/

/-- The repository of plugins below a home. -/
def pluginsDir (home : String) : String := Path.join home "plugins"

/-- The repository of host builds below a home. -/
def hostsDir (home : String) : String := Path.join home "hosts"

/-- Where plugins are extracted below a home. -/
def extractedDir (home : String) : String := Path.join home "extracted"

/-! ## JSON -/

/-- The fields of a configuration, in order; each may be left out. -/
def fields : List (Reader.Field Config) :=
  [⟨"home_dir", fun c => return { c with home := some (← Reader.text) }, false, false⟩,
    ⟨"worker_threads", fun c => return { c with workers := some (← Reader.natural) }, false, false⟩,
    ⟨"host_cache_capacity", fun c => return { c with hostCapacity := ← Reader.natural }, false, false⟩,
    ⟨"jdk_cache_capacity", fun c => return { c with jdkCapacity := ← Reader.natural }, false, false⟩,
    ⟨"plugin_cache_capacity", fun c => return { c with pluginCapacity := ← Reader.natural },
      false, false⟩,
    ⟨"cache_idle_ttl_ms", fun c => return { c with idleTtl := ← Reader.optional Reader.natural },
      false, false⟩,
    ⟨"task_timeout_ms", fun c => return { c with taskTimeout := ← Reader.optional Reader.natural },
      false, false⟩,
    ⟨"external_prefixes", fun c => return { c with externalPrefixes := ← Reader.list Reader.text },
      false, false⟩,
    ⟨"recheck_interval_ms", fun c =>
      return { c with recheckInterval := ← Reader.optional Reader.natural }, false, false⟩]

/-- The configuration as a record; what is left to the machine is written as `default`. -/
def toJson (c : Config) : Value :=
  let number := Value.ofOption Value.count
  .record [("home_dir", .text (c.home.getD "default")),
    ("worker_threads", (c.workers.map Value.count).getD (.text "default")),
    ("host_cache_capacity", .count c.hostCapacity), ("jdk_cache_capacity", .count c.jdkCapacity),
    ("plugin_cache_capacity", .count c.pluginCapacity), ("cache_idle_ttl_ms", number c.idleTtl),
    ("task_timeout_ms", number c.taskTimeout), ("external_prefixes", .texts c.externalPrefixes),
    ("recheck_interval_ms", number c.recheckInterval)]

/-- Reads a configuration from a JSON text. -/
def ofJson (text : String) : Except Json.Fault Config :=
  Reader.run (Reader.record fields {}) text

/-- Why there is no configuration in a file. -/
inductive Failure where
  | unreadable (path : String) (fault : FileFault)
  | unparsable (path : String) (fault : Json.Fault)
  | invalid (defect : Defect)
  deriving DecidableEq, Repr

def Failure.message : Failure → String
  | .unreadable path fault => "Failed to read config file " ++ path ++ ": " ++ fault.message
  | .unparsable path fault => "Failed to parse config file " ++ path ++ ": " ++ fault.message
  | .invalid defect => defect.message

def Failure.toJson : Failure → Value
  | .unparsable _ fault => .record [("error", .text "Parse"), ("category", .text fault.word)]
  | .unreadable path fault => .failure "Io" (Failure.unreadable path fault).message
  | .invalid defect => .failure "Invalid" defect.message

/-- Reads the configuration in a file and checks it. -/
def load (t : FileTree) (path : String) : Except Failure Config :=
  match t.readText path with
  | .error fault => .error (.unreadable path fault)
  | .ok text =>
    match ofJson text with
    | .error fault => .error (.unparsable path fault)
    | .ok c =>
      match c.defect? with
      | some defect => .error (.invalid defect)
      | none => .ok c

/-! ## Environment -/

/-- The entries of a list with commas; blanks around them and empty entries do not count. -/
def commaList (s : String) : List String :=
  ((Text.splitOn ',' s.toList).map fun piece => Text.trim (String.ofList piece)).filter (· ≠ "")

/-- Reads a configuration from variables; `var` gives the text of a variable that is set. A number
that cannot be read leaves its setting as it is. -/
def ofVariables (var : String → Option String) : Config :=
  let number (name : String) : Option Nat := (var name).bind Text.natural?
  { home := var "PLUGVERIFY_HOME"
    workers := number "PLUGVERIFY_WORKERS"
    hostCapacity := (number "PLUGVERIFY_HOST_CACHE").getD 4
    jdkCapacity := (number "PLUGVERIFY_JDK_CACHE").getD 2
    pluginCapacity := (number "PLUGVERIFY_PLUGIN_CACHE").getD 64
    idleTtl := number "PLUGVERIFY_CACHE_TTL_MS"
    taskTimeout := number "PLUGVERIFY_TASK_TIMEOUT_MS"
    externalPrefixes := ((var "PLUGVERIFY_EXTERNAL_PREFIXES").map commaList).getD []
    recheckInterval := number "PLUGVERIFY_RECHECK_INTERVAL_MS" }

end Config

end Linkage

import Linkage.Class.Index
import Linkage.Text.Blank

/-!
# Class paths

A class path asks its layers in turn, and the first one that knows a class supplies it. A layer is
an index of classes that may fail: whether the `n`-th question put to it fails is part of it, so a
question and the questions before it settle the answer. What was asked of each layer is kept.
-/

namespace Linkage

/-- A layer of a class path that can no longer be asked. -/
structure LookupFailure where
  classpath : String
  reason : String
  deriving DecidableEq, Repr

def LookupFailure.message (f : LookupFailure) : String :=
  "Classpath " ++ f.classpath ++ " is unavailable: " ++ f.reason

/-- Classes that can be asked for by name, and the questions that fail: `failing n name` is what goes
wrong when `name` is asked for after `n` other questions. -/
structure ClassSource where
  index : ClassIndex
  failing : Nat → String → Option LookupFailure

/-- A source that never fails. -/
def ClassSource.reliable (index : ClassIndex) : ClassSource := ⟨index, fun _ _ => none⟩

/-- Whose classes a layer holds. -/
inductive Origin where
  | plugin
  | dependency (id : String)
  | host
  | jdk
  deriving DecidableEq, Repr

def Origin.display : Origin → String
  | .plugin => "plugin"
  | .dependency id => "dependency " ++ id
  | .host => "host"
  | .jdk => "jdk"

/-- One layer of a class path. -/
structure Layer where
  origin : Origin
  source : ClassSource

/-- The layers, the one that is asked first in front. -/
abbrev Classpath := List Layer

/-- For each layer the names asked for, in order. -/
abbrev Traffic := List (List String)

namespace Classpath

/-- The layers in words. -/
def describe (path : Classpath) : String :=
  Text.join " -> " (path.map fun l => l.source.index.name ++ " (" ++ l.origin.display ++ ")")

/-- No layer has been asked yet. -/
def untouched (path : Classpath) : Traffic := path.map fun _ => []

/-- Asks the layers in turn for a class, until one knows it or fails. -/
def find : Classpath → String → Traffic →
    Except LookupFailure (Option (ClassDefinition × Origin)) × Traffic
  | [], _, traffic => (.ok none, traffic)
  | layer :: path, name, traffic =>
    let asked := traffic.headD []
    match layer.source.failing asked.length name with
    | some failure => (.error failure, (asked ++ [name]) :: traffic.tail)
    | none =>
      match layer.source.index.get? name with
      | some c => (.ok (some (c, layer.origin)), (asked ++ [name]) :: traffic.tail)
      | none =>
        let (answer, rest) := find path name traffic.tail
        (answer, (asked ++ [name]) :: rest)

/-- Every class of every layer. -/
def classes (path : Classpath) : List ClassDefinition :=
  path.flatMap fun l => l.source.index.classes

/-- How many classes the layers hold. -/
def size (path : Classpath) : Nat := path.classes.length

/-- How many parents the classes name, counting one superclass for each. -/
def links (path : Classpath) : Nat :=
  path.classes.foldl (fun n c => n + (1 + c.interfaces.length)) 0

end Classpath

/-! ## Classes from elsewhere -/

/-- The packages whose classes are provided by the environment. -/
structure ExternalPackages where
  packages : List String
  deriving DecidableEq, Repr

namespace ExternalPackages

/-- A package as configured, with dots or slashes, in internal form. -/
def normalize (entry : String) : String :=
  let slashed := (Text.trim entry).toList.map fun c => if c = '.' then '/' else c
  String.ofList (Text.dropEndWhile (· = '/') slashed)

/-- The packages named by the entries of a configuration; empty entries name none. -/
def ofEntries (entries : List String) : ExternalPackages :=
  ⟨(entries.map normalize).filter (· ≠ "")⟩

/-- Whether a class lies in one of the packages or below it. -/
def covers (e : ExternalPackages) (className : String) : Bool :=
  e.packages.any fun p => (p.toList ++ ['/']).isPrefixOf className.toList

end ExternalPackages

end Linkage

import Linkage.Plugin.Basic

/-!
# Dependency graphs

The plugins that a plugin depends on, directly or through others, found breadth first. Each id is
looked for once, and the root's id never. An edge to an id that was not found is a missing
dependency of the plugin that declares it.

A finder says how many ids it can find at most; only found ids are followed, so this number bounds
the search.
-/

namespace Linkage

open Json (Value)

/-- A declared dependency that was not found. -/
structure MissingDependency where
  /-- The plugin that declares it. -/
  owner : String
  dependency : Dependency
  reason : String
  deriving DecidableEq, Repr

namespace MissingDependency

def display (m : MissingDependency) : String :=
  m.dependency.display ++ " (required by " ++ m.owner ++ "): " ++ m.reason

def toJson (m : MissingDependency) : Value :=
  .record [("plugin_id", .text m.owner), ("dependency", m.dependency.toJson),
    ("reason", .text m.reason)]

end MissingDependency

/-- A plugin found for a dependency, and what has to be held as long as it is used. -/
structure ResolvedDependency (κ : Type) where
  plugin : Plugin
  keepalive : Option κ

/-- What looking for a dependency came to. -/
inductive DependencyAnswer (κ : Type) where
  | found (resolved : ResolvedDependency κ)
  | notFound (reason : String)

/-- Something that can be asked for plugins; asking may change the state `σ`. -/
structure DependencyFinder (σ κ : Type) where
  find : Dependency → StateM σ (DependencyAnswer κ)
  /-- At most so many ids are ever found. -/
  reach : Nat

/-- An edge of the graph. -/
structure DependencyEdge where
  owner : String
  dependency : Dependency
  deriving DecidableEq, Repr

/-- The dependencies of a plugin. -/
structure DependencyGraph (κ : Type) where
  root : String
  /-- The ids in the graph, in the order in which they came up. -/
  nodes : List String
  edges : List DependencyEdge
  /-- What was found, by id, in the order in which it was found. -/
  resolved : Table String (ResolvedDependency κ)
  missing : List MissingDependency

/-- A search for dependencies under way. -/
structure DependencySearch (κ : Type) where
  graph : DependencyGraph κ
  /-- Why an id was not found. -/
  reasons : Table String String
  /-- Plugins whose dependencies are still to be looked at. -/
  queue : List (String × List Dependency)

namespace DependencySearch

variable {σ κ : Type}

/-- Notes that a declared dependency was not found. -/
def miss (s : DependencySearch κ) (owner : String) (d : Dependency) (reason : String) :
    DependencySearch κ :=
  { s with graph := { s.graph with missing := s.graph.missing ++ [⟨owner, d, reason⟩] } }

/-- Looks at one dependency of a plugin. -/
def meet (finder : DependencyFinder σ κ) (owner : String) (s : DependencySearch κ)
    (d : Dependency) : StateM σ (DependencySearch κ) := do
  let edges := s.graph.edges ++ [⟨owner, d⟩]
  if s.graph.nodes.contains d.id then
    let s := { s with graph := { s.graph with edges := edges } }
    match s.reasons.get? d.id with
    | some reason => return s.miss owner d reason
    | none => return s
  else
    let s := { s with graph := { s.graph with edges := edges, nodes := s.graph.nodes ++ [d.id] } }
    match ← finder.find d with
    | .found r =>
      return { s with
        graph := { s.graph with resolved := s.graph.resolved.put d.id r }
        queue := s.queue ++ [(d.id, r.plugin.dependencies)] }
    | .notFound reason =>
      return { s with reasons := s.reasons.put d.id reason }.miss owner d reason

/-- Looks at the dependencies of one plugin in turn. -/
def meetAll (finder : DependencyFinder σ κ) (owner : String) :
    List Dependency → DependencySearch κ → StateM σ (DependencySearch κ)
  | [], s => pure s
  | d :: rest, s => do
    let s ← meet finder owner s d
    meetAll finder owner rest s

/-- Looks at the plugins in the queue, at most `bound` of them. -/
def run (finder : DependencyFinder σ κ) : Nat → DependencySearch κ → StateM σ (DependencySearch κ)
  | 0, s => pure s
  | bound + 1, s =>
    match s.queue with
    | [] => pure s
    | (owner, dependencies) :: rest => do
      let s ← meetAll finder owner dependencies { s with queue := rest }
      run finder bound s

end DependencySearch

namespace DependencyGraph

variable {σ κ : Type}

/-- Finds the dependencies of a plugin. -/
def build (finder : DependencyFinder σ κ) (p : Plugin) : StateM σ (DependencyGraph κ) := do
  let id := p.info.id
  let s ← DependencySearch.run finder (finder.reach + 1)
    ⟨⟨id, [id], [], Table.empty, []⟩, Table.empty, [(id, p.dependencies)]⟩
  return s.graph

/-- The missing dependencies that the root itself declares. -/
def directMissing (g : DependencyGraph κ) : List MissingDependency :=
  g.missing.filter (·.owner = g.root)

/-- Whether the root lacks a dependency that it needs. -/
def hasMandatoryDirectMissing (g : DependencyGraph κ) : Bool :=
  g.directMissing.any (!·.dependency.optional)

/-- The ids that a plugin of the graph depends on, ascending, one for each edge. -/
def dependenciesOf (g : DependencyGraph κ) (id : String) : List String :=
  sortedTexts ((g.edges.filter (·.owner = id)).map (·.dependency.id))

/-- What has to be held for the graph, in the order in which it was obtained. -/
def keepalives (g : DependencyGraph κ) : List κ :=
  g.resolved.values.filterMap (·.keepalive)

/-- The nodes that still have an edge to one of the nodes. -/
def peel (g : DependencyGraph κ) (nodes : List String) : List String :=
  nodes.filter fun n => g.edges.any fun e => e.owner = n && nodes.contains e.dependency.id

/-- Peels the nodes `n` times. -/
def peelTimes (g : DependencyGraph κ) : Nat → List String → List String
  | 0, nodes => nodes
  | n + 1, nodes => peelTimes g n (g.peel nodes)

/-- Whether some plugin depends on itself through one or more edges: then and only then nodes remain
however often those without a way on are taken away. -/
def hasCycles (g : DependencyGraph κ) : Bool :=
  !(g.peelTimes g.nodes.length g.nodes).isEmpty

end DependencyGraph

end Linkage

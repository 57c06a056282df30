import Linkage.Proofs.Plugin.Search
import Mathlib.Algebra.GroupWithZero.Nat
import Mathlib.Data.List.Perm.Subperm

/-!
# The dependencies of a plugin

When a finder goes by the id alone, the graph of dependencies can be told without the search that
finds it, and the search ends, whatever circles the dependencies run in.

* **`Exploration`** — the finished graph and the questions asked for it;
* **`Explored.exploration`** — a search whose queue is empty has come to that graph;
* **`directMissing_build`** — what the plugin itself lacks is settled by its own declarations;
* **`build_exploration`** — every search ends, and ends with that graph.
-/

namespace Linkage

variable {σ κ : Type} {answers : String → DependencyAnswer κ} {p : Plugin}

/-- A finished search from `p` and the questions asked for it, in order. -/
structure Exploration (answers : String → DependencyAnswer κ) (p : Plugin) (g : DependencyGraph κ)
    (asked : List Dependency) : Prop where
  root : g.root = p.info.id
  /-- The root is gone through first and then what was found, in the order in which it was found. -/
  edges : g.edges = declaredEdges p.info.id p.dependencies ++
    g.resolved.entries.flatMap fun e => declaredEdges e.1 e.2.plugin.dependencies
  /-- An id is asked for when it is first declared, and the root's is not. -/
  inOrder : p.info.id :: asked.map (·.id) = distinct (p.info.id :: g.edges.map (·.dependency.id))
  once : (asked.map (·.id)).Nodup
  asked_iff : ∀ id, id ∈ asked.map (·.id) ↔
    id ≠ p.info.id ∧ ∃ owner q, p.Supported answers owner q ∧ ∃ d ∈ q.dependencies, d.id = id
  resolved : g.resolved.entries = (asked.map (·.id)).filterMap (resolvedFor answers)
  missing : g.missing = g.edges.filterMap (missingFor answers p.info.id)
  nodeCount : g.nodes.length = 1 + asked.length
  edgeCount : g.edges.length =
    p.dependencies.length + (g.resolved.values.map (·.plugin.dependencies.length)).sum

namespace Explored

variable {done : List (String × List Dependency)} {s : DependencySearch κ} {log : List Dependency}

/-! ## Searches that have ended -/

/-- All that is in reach has been looked at when the queue is empty. -/
theorem edge_of_supported (h : Explored answers p done s log) (hend : s.queue = [])
    (hedges : s.graph.edges = done.flatMap fun o => declaredEdges o.1 o.2) {owner : String}
    {q : Plugin} (howner : p.Supported answers owner q) :
    ∀ d ∈ q.dependencies, ⟨owner, d⟩ ∈ s.graph.edges := by
  have hdone : s.owners p = done := by rw [h.queue, hend, List.append_nil]
  have hdeclared : ∀ o ∈ s.owners p, ∀ d ∈ o.2, (⟨o.1, d⟩ : DependencyEdge) ∈ s.graph.edges := by
    intro o ho d hd
    rw [hedges, ← hdone]
    exact List.mem_flatMap.mpr ⟨o, ho, List.mem_map_of_mem hd⟩
  induction howner with
  | root => exact hdeclared (p.info.id, p.dependencies) List.mem_cons_self
  | @found owner q d r _ hd hroot hfound ih =>
      -- the edge to the plugin was looked at before, so the plugin is among those resolved
      have hasked : d.id ∈ log.map (·.id) := (h.mem_log_iff d.id).mpr ⟨hroot, _, ih d hd, rfl⟩
      have hentry : (d.id, r) ∈ s.graph.resolved.entries := by
        rw [h.resolved]
        apply List.mem_filterMap.mpr
        exact ⟨d.id, hasked, by simp [resolvedFor, hfound]⟩
      have howners : (d.id, r.plugin.dependencies) ∈ s.owners p :=
        List.mem_cons_of_mem _ (List.mem_map_of_mem (f := fun e => (e.1, e.2.plugin.dependencies))
          hentry)
      exact hdeclared _ howners

theorem exploration (h : Explored answers p done s log) (hend : s.queue = [])
    (hedges : s.graph.edges = done.flatMap fun o => declaredEdges o.1 o.2) :
    Exploration answers p s.graph log := by
  have hdone : done = s.owners p := by rw [h.queue, hend, List.append_nil]
  have hall : s.graph.edges = declaredEdges p.info.id p.dependencies ++
      s.graph.resolved.entries.flatMap fun e => declaredEdges e.1 e.2.plugin.dependencies := by
    rw [hedges, hdone, DependencySearch.owners, List.flatMap_cons, List.flatMap_map]
  refine ⟨h.root, hall, h.nodes.symm.trans h.inOrder, (List.nodup_cons.mp h.nodup).2, ?_, h.resolved,
    h.missing, ?_, ?_⟩
  · intro id
    rw [h.mem_log_iff]
    apply and_congr_right
    intro _
    constructor
    · rintro ⟨e, he, rfl⟩
      obtain ⟨q, howner, hd⟩ := h.supported e he
      exact ⟨e.owner, q, howner, e.dependency, hd, rfl⟩
    · rintro ⟨owner, q, howner, d, hd, rfl⟩
      exact ⟨⟨owner, d⟩, h.edge_of_supported hend hedges howner d hd, rfl⟩
  · rw [h.nodes, List.length_cons, List.length_map]
    omega
  · rw [hall, List.length_append, List.length_flatMap, Table.values, List.map_map]
    simp [declaredEdges, Function.comp_def]

/-- Ids that were found are counted by the finder's reach. -/
theorem length_resolved_le (h : Explored answers p done s log) {finder : DependencyFinder σ κ}
    (hreach : finder.KeepsReach answers) : s.graph.resolved.entries.length ≤ finder.reach := by
  have hids : s.graph.resolved.entries.map (·.1) =
      (log.map (·.id)).filter fun id => (answers id).resolved?.isSome := by
    rw [h.resolved]
    induction log.map (·.id) with
    | nil => rfl
    | cons id rest ih =>
        cases hfound : (answers id).resolved? <;> simp [resolvedFor, hfound, ← ih]
  have hnodup : (s.graph.resolved.entries.map (·.1)).Nodup := by
    rw [hids]
    exact (List.nodup_cons.mp h.nodup).2.filter _
  have hbound := hreach _ hnodup (by rw [hids]; simp)
  simpa using hbound

end Explored

/-- A search whose queue is empty does nothing more. -/
theorem DependencySearch.run_of_ended {finder : DependencyFinder σ κ} {bound : Nat}
    {s s' : DependencySearch κ} {st st' : σ} (hrun : (run finder bound s).run st = (s', st'))
    (hend : s'.queue = []) {more : Nat} (hmore : bound ≤ more) :
    (run finder more s).run st = (s', st') := by
  induction bound generalizing s st more with
  | zero =>
      obtain ⟨rfl, rfl⟩ := Prod.mk.inj hrun
      cases more with
      | zero => rfl
      | succ more =>
          unfold run
          rw [hend]
          rfl
  | succ bound ih =>
      obtain ⟨more, rfl⟩ : ∃ m, more = m + 1 := ⟨more - 1, by omega⟩
      unfold run at hrun ⊢
      cases hqueue : s.queue with
      | nil =>
          rw [hqueue] at hrun
          exact hrun
      | cons next rest =>
          rw [hqueue] at hrun
          exact ih hrun (by omega)

namespace DependencyGraph

/-! ## What the plugin itself lacks -/

/-- Of the edges of a search only those that the root declares begin at the root's id. -/
theorem missing_filter_owner {done : List (String × List Dependency)} {s : DependencySearch κ}
    {log : List Dependency} (h : Explored answers p done s log)
    (hedges : s.graph.edges = done.flatMap fun o => declaredEdges o.1 o.2) (hdone : done ≠ []) :
    s.graph.directMissing =
      (declaredEdges p.info.id p.dependencies).filterMap (missingFor answers p.info.id) := by
  obtain ⟨first, others, rfl⟩ := List.exists_cons_of_ne_nil hdone
  have hqueue := h.queue
  rw [DependencySearch.owners, List.cons_append] at hqueue
  obtain ⟨rfl, hrest⟩ := List.cons.inj hqueue
  have hroot : ∀ e ∈ declaredEdges p.info.id p.dependencies, e.owner = p.info.id := by
    simp [declaredEdges]
  have hother : ∀ e ∈ others.flatMap fun o => declaredEdges o.1 o.2, e.owner ≠ p.info.id := by
    intro e he howner
    obtain ⟨o, ho, hdeclared⟩ := List.mem_flatMap.mp he
    obtain ⟨d, -, rfl⟩ := List.mem_map.mp hdeclared
    have hmem : o ∈ s.graph.resolved.entries.map fun e => (e.1, e.2.plugin.dependencies) := by
      rw [hrest]
      exact List.mem_append_left _ ho
    obtain ⟨⟨id, r⟩, hr, rfl⟩ := List.mem_map.mp hmem
    rw [h.resolved] at hr
    obtain ⟨id', hasked, hfor⟩ := List.mem_filterMap.mp hr
    obtain ⟨r', -, heq⟩ := Option.map_eq_some_iff.mp hfor
    -- the root's id was never asked for, so nothing stands under it
    apply h.root_not_asked
    rw [← howner, ← (Prod.mk.inj heq).1]
    exact hasked
  have howned : ∀ {e : DependencyEdge} {m : MissingDependency},
      missingFor answers p.info.id e = some m → m.owner = e.owner := by
    intro e m hfor
    unfold missingFor at hfor
    split at hfor
    · cases hfor
    · obtain ⟨reason, -, rfl⟩ := Option.map_eq_some_iff.mp hfor
      rfl
  unfold directMissing
  rw [h.missing, h.root, hedges, List.flatMap_cons, List.filterMap_append, List.filter_append,
    List.filter_eq_self.mpr, List.filter_eq_nil_iff.mpr, List.append_nil]
  · intro m hm
    obtain ⟨e, he, hfor⟩ := List.mem_filterMap.mp hm
    simpa [howned hfor] using hother e he
  · intro m hm
    obtain ⟨e, he, hfor⟩ := List.mem_filterMap.mp hm
    simpa [howned hfor] using hroot e he

/-- What the root lacks is settled by its own declarations, in their order, however far the search
goes. -/
theorem directMissing_build {finder : DependencyFinder σ κ} (hanswers : finder.AnswersBy answers)
    (p : Plugin) (s : σ) :
    ((build finder p).run s).1.directMissing =
      (declaredEdges p.info.id p.dependencies).filterMap (missingFor answers p.info.id) := by
  obtain ⟨done, search, s', asked, hrun, hexplored, hedges, -, hend⟩ :=
    (explored_start answers p).run hanswers (finder.reach + 1) rfl s
  have hdone : done ≠ [] := by
    rintro rfl
    rcases hend with hend | hend
    · have hqueue := hexplored.queue
      rw [hend] at hqueue
      cases hqueue
    · simp at hend
  have hplain := (finder.echoes_run (finder.reach + 1) (.start κ p) s []).1
  rw [hrun] at hplain
  have hgraph : ((build finder p).run s).1 = search.graph :=
    congrArg DependencySearch.graph hplain.symm
  rw [hgraph]
  exact missing_filter_owner hexplored hedges hdone

/-! ## Whole searches -/

/-- A finder that answers by the id, and finds no more ids than it says, is asked for the dependencies
in reach of a plugin and for nothing else. However long the search may go on, it ends with the same
graph and an empty queue. -/
theorem build_exploration (finder : DependencyFinder σ κ) (p : Plugin)
    (answers : String → DependencyAnswer κ) (hanswers : finder.AnswersBy answers)
    (hreach : finder.KeepsReach answers) (s : σ) :
    ∃ g asked s', (build finder p).run s = (g, s') ∧
      (build finder.logged p).run (s, []) = (g, s', asked) ∧ Exploration answers p g asked ∧
      ∀ bound, finder.reach < bound → ∃ search : DependencySearch κ,
        (DependencySearch.run finder.logged bound (.start κ p)).run (s, []) = (search, s', asked) ∧
          search.graph = g ∧ search.queue = [] := by
  obtain ⟨done, search, s', asked, hrun, hexplored, hedges, -, hend⟩ :=
    (explored_start answers p).run hanswers (finder.reach + 1) rfl s
  have hqueue : search.queue = [] := by
    rcases hend with hend | hend
    · exact hend
    · -- as many plugins have been taken from the queue as there can be
      have hlength := congrArg List.length hexplored.queue
      have hresolved := hexplored.length_resolved_le hreach
      simp only [DependencySearch.owners, List.length_cons, List.length_map,
        List.length_append] at hlength
      apply List.eq_nil_of_length_eq_zero
      simp only [List.length_nil] at hend
      omega
  have hbuild : (build finder.logged p).run (s, []) = (search.graph, s', asked) := by
    show ((DependencySearch.run finder.logged (finder.reach + 1) (.start κ p) >>= fun s =>
      pure s.graph : StateM _ _)).run (s, []) = _
    rw [StateT.run_bind, hrun]
    rfl
  have hplain := finder.echoes_run (finder.reach + 1) (.start κ p) s []
  rw [hrun] at hplain
  refine ⟨search.graph, asked, s', ?_, hbuild, hexplored.exploration hqueue hedges, ?_⟩
  · show ((DependencySearch.run finder (finder.reach + 1) (.start κ p) >>= fun s =>
      pure s.graph : StateM _ _)).run s = _
    rw [StateT.run_bind]
    exact Prod.ext (congrArg DependencySearch.graph hplain.1.symm) hplain.2.symm
  · intro bound hbound
    exact ⟨search, DependencySearch.run_of_ended hrun hqueue hbound, rfl, hqueue⟩

/-- Two libraries that need each other, themselves, the plugin `p` and a third one that is nowhere. -/
def tangledAnswers (id : String) : DependencyAnswer Unit :=
  if id = "a" then
    .found ⟨⟨⟨"a", "1.0", none⟩, .empty "a", [⟨"b", false⟩, ⟨"gone", true⟩, ⟨"p", false⟩],
      Table.empty, [], [], [], []⟩, none⟩
  else if id = "b" then
    .found ⟨⟨⟨"b", "1.0", none⟩, .empty "b", [⟨"a", false⟩, ⟨"b", true⟩, ⟨"gone", false⟩],
      Table.empty, [], [], [], []⟩, none⟩
  else .notFound (id ++ " is nowhere")

def tangledFinder : DependencyFinder Unit Unit := ⟨fun d => return tangledAnswers d.id, 2⟩

def tangled : Plugin :=
  ⟨⟨"p", "1.0", none⟩, .empty "p", [⟨"gone", true⟩, ⟨"a", false⟩, ⟨"gone", false⟩], Table.empty, [],
    [], [], []⟩

theorem build_tangled :
    tangledFinder.AnswersBy tangledAnswers ∧ tangledFinder.KeepsReach tangledAnswers ∧
      ∃ g asked, Exploration tangledAnswers tangled g asked ∧
        asked = [⟨"gone", true⟩, ⟨"a", false⟩, ⟨"b", false⟩] ∧
        g.missing.map (fun m => (m.owner, m.dependency)) =
          [("p", ⟨"gone", true⟩), ("p", ⟨"gone", false⟩), ("a", ⟨"gone", true⟩),
            ("b", ⟨"gone", false⟩)] := by
  have hanswers : tangledFinder.AnswersBy tangledAnswers := fun _ _ => rfl
  have hreach : tangledFinder.KeepsReach tangledAnswers := by
    intro ids hnodup hfound
    have hsubset : ids ⊆ ["a", "b"] := by
      intro id hid
      have hresolved := hfound id hid
      unfold tangledAnswers at hresolved
      split at hresolved
      · simp [*]
      · split at hresolved
        · simp [*]
        · cases hresolved
    exact (List.subperm_of_subset hnodup hsubset).length_le
  obtain ⟨g, asked, s', -, hlogged, hexploration, -⟩ :=
    build_exploration tangledFinder tangled tangledAnswers hanswers hreach ()
  refine ⟨hanswers, hreach, g, asked, hexploration, ?_, ?_⟩
  · have hasked : _ = asked := congrArg (fun r => r.2.2) hlogged
    rw [← hasked]
    decide +kernel
  · have hgraph : _ = g := congrArg (fun r => r.1) hlogged
    rw [← hgraph]
    decide +kernel

end DependencyGraph

end Linkage

import Linkage.Plugin.DependencyGraph
import Linkage.Proofs.Table

/-!
# Searches for dependencies

A search goes through the plugins in a queue and asks for the ids that they declare. If answers go by
the id alone, then what a search knows depends only on the edges it has seen.

* **`DependencyFinder.logged`** — a finder that keeps a list of what it is asked;
* **`Plugin.Supported`** — the plugins that a plugin builds on, directly or through others;
* **`Explored`** — the state of a search: what the edges seen so far come to, and what is in the queue;
* **`Explored.again`**, **`Explored.learn`** — one edge more, to an id known before or to a new one;
* **`Explored.run`** — a search goes on until the queue is empty or its bound is used up.
-/

namespace Linkage

variable {σ τ κ α β : Type}

/-! ## Finders -/

def DependencyAnswer.resolved? : DependencyAnswer κ → Option (ResolvedDependency κ)
  | .found r => some r
  | .notFound _ => none

def DependencyAnswer.reason? : DependencyAnswer κ → Option String
  | .found _ => none
  | .notFound reason => some reason

namespace DependencyFinder

/-- Answers go by the id alone: neither the flag of a dependency nor what was asked before matters. -/
def AnswersBy (finder : DependencyFinder σ κ) (answers : String → DependencyAnswer κ) : Prop :=
  ∀ d s, ((finder.find d).run s).1 = answers d.id

/-- No more ids are found than the finder says. -/
def KeepsReach (finder : DependencyFinder σ κ) (answers : String → DependencyAnswer κ) : Prop :=
  ∀ ids : List String, ids.Nodup → (∀ id ∈ ids, (answers id).resolved?.isSome) →
    ids.length ≤ finder.reach

/-- The same finder with a list of what it has been asked. -/
def logged (finder : DependencyFinder σ κ) : DependencyFinder (σ × List Dependency) κ where
  find d := fun (s, log) =>
    let (answer, s') := (finder.find d).run s
    (answer, (s', log ++ [d]))
  reach := finder.reach

/-- What is kept beside the state changes neither the value nor the state of a computation. -/
def Echoes (m' : StateM (σ × τ) α) (m : StateM σ α) : Prop :=
  ∀ s log, (m'.run (s, log)).1 = (m.run s).1 ∧ (m'.run (s, log)).2.1 = (m.run s).2

theorem Echoes.pure (x : α) : Echoes (Pure.pure x : StateM (σ × τ) α) (Pure.pure x) :=
  fun _ _ => ⟨rfl, rfl⟩

theorem Echoes.bind {m' : StateM (σ × τ) α} {m : StateM σ α} {f' : α → StateM (σ × τ) β}
    {f : α → StateM σ β} (hm : Echoes m' m) (hf : ∀ x, Echoes (f' x) (f x)) :
    Echoes (m' >>= f') (m >>= f) := by
  intro s log
  obtain ⟨hvalue, hstate⟩ := hm s log
  have hrest := hf (m.run s).1 (m.run s).2 (m'.run (s, log)).2.2
  rw [← hstate] at hrest
  show ((f' (m'.run (s, log)).1).run (m'.run (s, log)).2).1 = _ ∧
    ((f' (m'.run (s, log)).1).run (m'.run (s, log)).2).2.1 = _
  rw [hvalue]
  exact ⟨hrest.1.trans (by rw [hstate]; rfl), hrest.2.trans (by rw [hstate]; rfl)⟩

section Searches

variable {finder' : DependencyFinder (σ × τ) κ} {finder : DependencyFinder σ κ}

theorem echoes_meet (hfind : ∀ d, Echoes (finder'.find d) (finder.find d)) (owner : String)
    (s : DependencySearch κ) (d : Dependency) :
    Echoes (DependencySearch.meet finder' owner s d) (DependencySearch.meet finder owner s d) := by
  unfold DependencySearch.meet
  simp only
  split
  · split
    · exact .pure _
    · exact .pure _
  · refine (hfind d).bind ?_
    intro answer
    cases answer with
    | found r => exact .pure _
    | notFound reason => exact .pure _

theorem echoes_meetAll (hfind : ∀ d, Echoes (finder'.find d) (finder.find d)) (owner : String)
    (ds : List Dependency) (s : DependencySearch κ) :
    Echoes (DependencySearch.meetAll finder' owner ds s)
      (DependencySearch.meetAll finder owner ds s) := by
  induction ds generalizing s with
  | nil => exact .pure s
  | cons d rest ih => exact (echoes_meet hfind owner s d).bind ih

theorem echoes_search (hfind : ∀ d, Echoes (finder'.find d) (finder.find d)) (bound : Nat)
    (s : DependencySearch κ) :
    Echoes (DependencySearch.run finder' bound s) (DependencySearch.run finder bound s) := by
  induction bound generalizing s with
  | zero => exact .pure s
  | succ bound ih =>
      unfold DependencySearch.run
      split
      · exact .pure s
      · exact (echoes_meetAll hfind _ _ _).bind ih

end Searches

/-- A search with a finder that keeps a list is the same search. -/
theorem echoes_run (finder : DependencyFinder σ κ) (bound : Nat) (s : DependencySearch κ) :
    Echoes (DependencySearch.run finder.logged bound s) (DependencySearch.run finder bound s) :=
  echoes_search (fun _ _ _ => ⟨rfl, rfl⟩) bound s

end DependencyFinder

/-! ## What there is to be explored -/

variable {answers : String → DependencyAnswer κ} {p : Plugin}

/-- The edges that a plugin declares. -/
def declaredEdges (owner : String) (dependencies : List Dependency) : List DependencyEdge :=
  dependencies.map (DependencyEdge.mk owner)

/-- The plugin that an id stands for: the root itself, or what is found for an id other than the
root's that a plugin further up declares. -/
inductive Plugin.Supported (answers : String → DependencyAnswer κ) (p : Plugin) :
    String → Plugin → Prop where
  | root : Supported answers p p.info.id p
  | found {owner : String} {q : Plugin} {d : Dependency} {r : ResolvedDependency κ}
      (howner : Supported answers p owner q) (hd : d ∈ q.dependencies) (hroot : d.id ≠ p.info.id)
      (hfound : (answers d.id).resolved? = some r) : Supported answers p d.id r.plugin

/-- What an edge adds to the missing dependencies; an edge back to the root is never missing. -/
def missingFor (answers : String → DependencyAnswer κ) (root : String) (e : DependencyEdge) :
    Option MissingDependency :=
  if e.dependency.id = root then none
  else (answers e.dependency.id).reason?.map fun reason => ⟨e.owner, e.dependency, reason⟩

/-- What asking for an id adds to what is resolved. -/
def resolvedFor (answers : String → DependencyAnswer κ) (id : String) :
    Option (String × ResolvedDependency κ) :=
  (answers id).resolved?.map fun r => (id, r)

/-! ## Searches under way -/

/-- The search before anything is looked at. -/
def DependencySearch.start (κ : Type) (p : Plugin) : DependencySearch κ :=
  ⟨⟨p.info.id, [p.info.id], [], Table.empty, []⟩, Table.empty, [(p.info.id, p.dependencies)]⟩

/-- The plugins whose dependencies a search looks at, in order: the root and what is resolved. -/
def DependencySearch.owners (p : Plugin) (s : DependencySearch κ) :
    List (String × List Dependency) :=
  (p.info.id, p.dependencies) ::
    s.graph.resolved.entries.map fun e => (e.1, e.2.plugin.dependencies)

/-- The search after an edge to an id that came up before. -/
def DependencySearch.again (s : DependencySearch κ) (owner : String) (d : Dependency) :
    DependencySearch κ :=
  let s' := { s with graph := { s.graph with edges := s.graph.edges ++ [⟨owner, d⟩] } }
  match s.reasons.get? d.id with
  | some reason => s'.miss owner d reason
  | none => s'

/-- The search after an edge to a new id, with the answer to the question for it. -/
def DependencySearch.learn (s : DependencySearch κ) (owner : String) (d : Dependency) :
    DependencyAnswer κ → DependencySearch κ
  | .found r =>
    { s with
      graph := { s.graph with
        edges := s.graph.edges ++ [⟨owner, d⟩], nodes := s.graph.nodes ++ [d.id]
        resolved := s.graph.resolved.put d.id r }
      queue := s.queue ++ [(d.id, r.plugin.dependencies)] }
  | .notFound reason =>
    { s with
      graph := { s.graph with
        edges := s.graph.edges ++ [⟨owner, d⟩], nodes := s.graph.nodes ++ [d.id]
        missing := s.graph.missing ++ [⟨owner, d, reason⟩] }
      reasons := s.reasons.put d.id reason }

theorem DependencySearch.meet_eq (finder : DependencyFinder σ κ) (owner : String)
    (s : DependencySearch κ) (d : Dependency) :
    meet finder owner s d =
      if s.graph.nodes.contains d.id then pure (s.again owner d)
      else do return s.learn owner d (← finder.find d) := by
  unfold meet again
  split
  · simp only
    cases s.reasons.get? d.id <;> rfl
  · refine bind_congr ?_
    intro answer
    cases answer <;> rfl

/-- A search from `p` that has taken the plugins `done` from its queue and asked what the log says. -/
structure Explored (answers : String → DependencyAnswer κ) (p : Plugin)
    (done : List (String × List Dependency)) (s : DependencySearch κ) (log : List Dependency) :
    Prop where
  root : s.graph.root = p.info.id
  nodes : s.graph.nodes = p.info.id :: log.map (·.id)
  inOrder : s.graph.nodes = distinct (p.info.id :: s.graph.edges.map (·.dependency.id))
  reasons : ∀ id, s.reasons.get? id = if id ∈ log.map (·.id) then (answers id).reason? else none
  resolved : s.graph.resolved.entries = (log.map (·.id)).filterMap (resolvedFor answers)
  missing : s.graph.missing = s.graph.edges.filterMap (missingFor answers p.info.id)
  queue : s.owners p = done ++ s.queue
  supported : ∀ e ∈ s.graph.edges, ∃ q, p.Supported answers e.owner q ∧ e.dependency ∈ q.dependencies

theorem explored_start (answers : String → DependencyAnswer κ) (p : Plugin) :
    Explored answers p [] (.start κ p) [] := by
  refine ⟨rfl, rfl, rfl, ?_, rfl, rfl, rfl, ?_⟩
  · intro id
    simp [DependencySearch.start, Table.empty, Table.get?]
  · intro e he
    simp [DependencySearch.start] at he

namespace Explored

variable {done : List (String × List Dependency)} {s : DependencySearch κ} {log : List Dependency}

theorem nodup (h : Explored answers p done s log) : (p.info.id :: log.map (·.id)).Nodup := by
  rw [← h.nodes, h.inOrder]
  exact nodup_distinct _

theorem root_not_asked (h : Explored answers p done s log) : p.info.id ∉ log.map (·.id) :=
  (List.nodup_cons.mp h.nodup).1

/-- An id is asked for if an edge leads to it that is not one back to the root. -/
theorem mem_log_iff (h : Explored answers p done s log) (id : String) :
    id ∈ log.map (·.id) ↔ id ≠ p.info.id ∧ ∃ e ∈ s.graph.edges, e.dependency.id = id := by
  have hmem : id ∈ p.info.id :: log.map (·.id) ↔
      id ∈ p.info.id :: s.graph.edges.map (·.dependency.id) := by
    rw [← h.nodes, h.inOrder, mem_distinct]
  have hroot := h.root_not_asked
  constructor
  · intro hid
    have hne : id ≠ p.info.id := fun heq => hroot (heq ▸ hid)
    have hedge := hmem.mp (List.mem_cons_of_mem _ hid)
    rcases List.mem_cons.mp hedge with heq | hedge
    · exact absurd heq hne
    · exact ⟨hne, List.mem_map.mp hedge⟩
  · rintro ⟨hne, hedge⟩
    have hid := hmem.mpr (List.mem_cons_of_mem _ (List.mem_map.mpr hedge))
    exact (List.mem_cons.mp hid).resolve_left hne

/-- What is in the table is what was found for an id that some plugin in reach declares. -/
theorem supported_of_resolved (h : Explored answers p done s log) {id : String}
    {r : ResolvedDependency κ} (hr : (id, r) ∈ s.graph.resolved.entries) :
    p.Supported answers id r.plugin := by
  rw [h.resolved] at hr
  obtain ⟨id', hid, hfor⟩ := List.mem_filterMap.mp hr
  obtain ⟨r', hfound, heq⟩ := Option.map_eq_some_iff.mp hfor
  obtain ⟨rfl, rfl⟩ := Prod.mk.inj heq
  obtain ⟨hne, e, he, rfl⟩ := (h.mem_log_iff id').mp hid
  obtain ⟨q, howner, hd⟩ := h.supported e he
  exact .found howner hd hne hfound

theorem supported_of_owner (h : Explored answers p done s log) {owner : String}
    {dependencies : List Dependency} (howner : (owner, dependencies) ∈ s.owners p) :
    ∃ q, p.Supported answers owner q ∧ q.dependencies = dependencies := by
  rcases List.mem_cons.mp howner with heq | hmem
  · obtain ⟨rfl, rfl⟩ := Prod.mk.inj heq
    exact ⟨p, .root, rfl⟩
  · obtain ⟨⟨id, r⟩, hr, heq⟩ := List.mem_map.mp hmem
    obtain ⟨rfl, rfl⟩ := Prod.mk.inj heq
    exact ⟨r.plugin, h.supported_of_resolved hr, rfl⟩

theorem supported_concat (h : Explored answers p done s log) {owner : String} {d : Dependency}
    (hd : ∃ q, p.Supported answers owner q ∧ d ∈ q.dependencies) :
    ∀ e ∈ s.graph.edges ++ [⟨owner, d⟩],
      ∃ q, p.Supported answers e.owner q ∧ e.dependency ∈ q.dependencies := by
  intro e he
  rcases List.mem_append.mp he with he | he
  · exact h.supported e he
  · rw [List.mem_singleton.mp he]
    exact hd

theorem edges_again (s : DependencySearch κ) (owner : String) (d : Dependency) :
    (s.again owner d).graph.edges = s.graph.edges ++ [⟨owner, d⟩] := by
  unfold DependencySearch.again
  cases s.reasons.get? d.id <;> rfl

theorem edges_learn (s : DependencySearch κ) (owner : String) (d : Dependency)
    (answer : DependencyAnswer κ) :
    (s.learn owner d answer).graph.edges = s.graph.edges ++ [⟨owner, d⟩] := by
  cases answer <;> rfl

/-- The ids in order with those of one more edge. -/
theorem distinct_edges_concat (h : Explored answers p done s log) (e : DependencyEdge) :
    distinct (p.info.id :: (s.graph.edges ++ [e]).map (·.dependency.id)) =
      insertNew s.graph.nodes e.dependency.id := by
  rw [h.inOrder, List.map_append, ← List.cons_append]
  exact distinct_concat _ _

/-- What is missing with one more edge. -/
theorem missing_concat (h : Explored answers p done s log) (e : DependencyEdge) :
    (s.graph.edges ++ [e]).filterMap (missingFor answers p.info.id) =
      s.graph.missing ++ (missingFor answers p.info.id e).toList := by
  rw [h.missing, List.filterMap_append]
  cases hfor : missingFor answers p.info.id e <;> simp [hfor]

/-- What is on record for an id that came up before: nothing for the root's, else why it is missing. -/
theorem reason_of_known (h : Explored answers p done s log) {id : String}
    (hknown : id ∈ s.graph.nodes) :
    s.reasons.get? id = if id = p.info.id then none else (answers id).reason? := by
  rw [h.reasons]
  rw [h.nodes, List.mem_cons] at hknown
  by_cases hroot : id = p.info.id
  · rw [if_pos hroot, if_neg (hroot ▸ h.root_not_asked)]
  · rw [if_neg hroot, if_pos (hknown.resolve_left hroot)]

theorem again (h : Explored answers p done s log) {owner : String} {d : Dependency}
    (hd : ∃ q, p.Supported answers owner q ∧ d ∈ q.dependencies) (hknown : d.id ∈ s.graph.nodes) :
    Explored answers p done (s.again owner d) log := by
  have hreason := h.reason_of_known hknown
  have horder := h.distinct_edges_concat ⟨owner, d⟩
  rw [insertNew_of_mem hknown] at horder
  have hmissing := h.missing_concat ⟨owner, d⟩
  have hfor : missingFor answers p.info.id ⟨owner, d⟩ =
      (s.reasons.get? d.id).map fun reason => ⟨owner, d, reason⟩ := by
    rw [hreason]
    unfold missingFor
    split <;> rfl
  rw [hfor] at hmissing
  unfold DependencySearch.again
  cases hget : s.reasons.get? d.id with
  | some reason =>
      rw [hget] at hmissing
      exact ⟨h.root, h.nodes, horder.symm, h.reasons, h.resolved, hmissing.symm, h.queue,
        h.supported_concat hd⟩
  | none =>
      -- an edge to the root or to a plugin that was found: nothing is missing
      rw [hget] at hmissing
      refine ⟨h.root, h.nodes, horder.symm, h.reasons, h.resolved, ?_, h.queue,
        h.supported_concat hd⟩
      simpa using hmissing.symm

/-- What is on record once the answer for a new id is. -/
theorem reasons_concat (h : Explored answers p done s log) (d : Dependency) (id : String) :
    (if id ∈ (log ++ [d]).map (·.id) then (answers id).reason? else none) =
      if id = d.id then (answers d.id).reason? else s.reasons.get? id := by
  rw [h.reasons]
  by_cases hself : id = d.id
  · subst hself
    simp
  · simp [hself]

theorem resolved_concat (h : Explored answers p done s log) (d : Dependency) :
    ((log ++ [d]).map (·.id)).filterMap (resolvedFor answers) =
      s.graph.resolved.entries ++ (resolvedFor answers d.id).toList := by
  rw [h.resolved, List.map_append, List.filterMap_append]
  cases hfor : resolvedFor answers d.id <;> simp [hfor]

theorem get?_resolved_of_new (h : Explored answers p done s log) {id : String}
    (hnew : id ∉ log.map (·.id)) : s.graph.resolved.get? id = none := by
  apply Table.get?_eq_none_iff.mpr
  intro hmem
  obtain ⟨e, he, rfl⟩ := List.mem_map.mp hmem
  rw [h.resolved] at he
  obtain ⟨id, hid, hfor⟩ := List.mem_filterMap.mp he
  obtain ⟨r, -, rfl⟩ := Option.map_eq_some_iff.mp hfor
  exact hnew hid

theorem learn (h : Explored answers p done s log) {owner : String} {d : Dependency}
    (hd : ∃ q, p.Supported answers owner q ∧ d ∈ q.dependencies) (hnew : d.id ∉ s.graph.nodes) :
    Explored answers p done (s.learn owner d (answers d.id)) (log ++ [d]) := by
  have horder := h.distinct_edges_concat ⟨owner, d⟩
  rw [insertNew_of_not_mem hnew] at horder
  have hnodes : s.graph.nodes ++ [d.id] = p.info.id :: (log ++ [d]).map (·.id) := by
    rw [h.nodes, List.map_append]
    rfl
  rw [h.nodes, List.mem_cons, not_or] at hnew
  have hreasons := h.reasons_concat d
  have hresolved := h.resolved_concat d
  have hmissing := h.missing_concat ⟨owner, d⟩
  cases hanswer : answers d.id with
  | found r =>
      -- what is found goes to the end of the table and to the end of the queue
      have hput := Table.entries_put_of_new (h.get?_resolved_of_new hnew.2) r
      refine ⟨h.root, hnodes, horder.symm, ?_, ?_, ?_, ?_, h.supported_concat hd⟩
      · intro id
        show s.reasons.get? id = _
        rw [hreasons]
        split
        · next heq => rw [heq, h.reasons, if_neg hnew.2, hanswer]; rfl
        · rfl
      · show (s.graph.resolved.put d.id r).entries = _
        rw [hput, hresolved]
        simp [resolvedFor, hanswer, DependencyAnswer.resolved?]
      · show s.graph.missing = _
        rw [DependencySearch.learn, hmissing]
        simp [missingFor, hanswer, DependencyAnswer.reason?]
      · show (p.info.id, p.dependencies) ::
          (s.graph.resolved.put d.id r).entries.map _ = done ++ (s.queue ++ [_])
        rw [hput, List.map_append, ← List.append_assoc, ← h.queue]
        rfl
  | notFound reason =>
      -- the reason is kept for the edges to come
      refine ⟨h.root, hnodes, horder.symm, ?_, ?_, ?_, h.queue, h.supported_concat hd⟩
      · intro id
        show (s.reasons.put d.id reason).get? id = _
        rw [Table.get?_put, hreasons, hanswer]
        rfl
      · show s.graph.resolved.entries = _
        rw [hresolved]
        simp [resolvedFor, hanswer, DependencyAnswer.resolved?]
      · show s.graph.missing ++ [_] = _
        rw [DependencySearch.learn, hmissing]
        simp [missingFor, hnew.1, hanswer, DependencyAnswer.reason?]

/-! ## Runs of a search -/

section Runs

variable {finder : DependencyFinder σ κ}

theorem meet (hfinder : finder.AnswersBy answers) (h : Explored answers p done s log)
    {owner : String} {d : Dependency}
    (hd : ∃ q, p.Supported answers owner q ∧ d ∈ q.dependencies) (st : σ) :
    ∃ s' st' log', (DependencySearch.meet finder.logged owner s d).run (st, log) = (s', st', log') ∧
      Explored answers p done s' log' ∧ s'.graph.edges = s.graph.edges ++ [⟨owner, d⟩] := by
  rw [DependencySearch.meet_eq]
  split
  · next hknown =>
      exact ⟨_, st, log, rfl, h.again hd (by simpa using hknown), edges_again s owner d⟩
  · next hnew =>
      have hanswer := hfinder d st
      refine ⟨_, ((finder.find d).run st).2, log ++ [d], ?_, h.learn hd (by simpa using hnew),
        edges_learn s owner d _⟩
      rw [← hanswer]
      rfl

theorem meetAll (hfinder : finder.AnswersBy answers) (h : Explored answers p done s log)
    {owner : String} {ds : List Dependency}
    (hds : ∃ q, p.Supported answers owner q ∧ ∀ d ∈ ds, d ∈ q.dependencies) (st : σ) :
    ∃ s' st' log',
      (DependencySearch.meetAll finder.logged owner ds s).run (st, log) = (s', st', log') ∧
      Explored answers p done s' log' ∧ s'.graph.edges = s.graph.edges ++ declaredEdges owner ds := by
  induction ds generalizing s st log with
  | nil => exact ⟨s, st, log, rfl, h, by simp [declaredEdges]⟩
  | cons d rest ih =>
      obtain ⟨q, howner, hmem⟩ := hds
      obtain ⟨s₁, st₁, log₁, hmeet, h₁, hedges₁⟩ :=
        h.meet hfinder ⟨q, howner, hmem d List.mem_cons_self⟩ st
      obtain ⟨s', st', log', hrest, h', hedges⟩ :=
        ih h₁ ⟨q, howner, fun d' hd' => hmem d' (List.mem_cons_of_mem _ hd')⟩ st₁
      refine ⟨s', st', log', ?_, h', ?_⟩
      · unfold DependencySearch.meetAll
        rw [StateT.run_bind, hmeet]
        exact hrest
      · rw [hedges, hedges₁, List.append_assoc]
        rfl

/-- A search takes plugins from its queue until there is none or its bound is used up; the edges are
those that the plugins taken declare. -/
theorem run (hfinder : finder.AnswersBy answers) (bound : Nat) (h : Explored answers p done s log)
    (hedges : s.graph.edges = done.flatMap fun o => declaredEdges o.1 o.2) (st : σ) :
    ∃ done' s' st' log',
      (DependencySearch.run finder.logged bound s).run (st, log) = (s', st', log') ∧
      Explored answers p done' s' log' ∧
      s'.graph.edges = (done'.flatMap fun o => declaredEdges o.1 o.2) ∧ done <+: done' ∧
      (s'.queue = [] ∨ done'.length = done.length + bound) := by
  -- on the bound: each step takes one plugin from the queue and looks at all that it declares
  induction bound generalizing done s st log with
  | zero => exact ⟨done, s, st, log, rfl, h, hedges, List.prefix_refl _, Or.inr rfl⟩
  | succ bound ih =>
      unfold DependencySearch.run
      cases hqueue : s.queue with
      | nil => exact ⟨done, s, st, log, rfl, h, hedges, List.prefix_refl _, Or.inl hqueue⟩
      | cons next rest =>
          obtain ⟨owner, ds⟩ := next
          -- the next plugin moves from the queue to those that are done
          have howners : s.owners p = (done ++ [(owner, ds)]) ++ rest := by
            rw [h.queue, hqueue, List.append_assoc]
            rfl
          have htaken : Explored answers p (done ++ [(owner, ds)]) { s with queue := rest } log :=
            ⟨h.root, h.nodes, h.inOrder, h.reasons, h.resolved, h.missing, howners, h.supported⟩
          have hmem : (owner, ds) ∈ s.owners p := by
            rw [howners]
            simp
          obtain ⟨q, howner, hq⟩ := h.supported_of_owner hmem
          obtain ⟨s₁, st₁, log₁, hmeet, h₁, hedges₁⟩ :=
            htaken.meetAll hfinder ⟨q, howner, fun d hd => hq ▸ hd⟩ st
          have hdeclared : s₁.graph.edges =
              (done ++ [(owner, ds)]).flatMap fun o => declaredEdges o.1 o.2 := by
            rw [hedges₁, List.flatMap_append, ← hedges]
            simp
          obtain ⟨done', s', st', log', hrun, h', hedges', hbefore, hend⟩ := ih h₁ hdeclared st₁
          refine ⟨done', s', st', log', ?_, h', hedges', ?_, ?_⟩
          · simp only
            rw [StateT.run_bind, hmeet]
            exact hrun
          · exact (List.prefix_append _ _).trans hbefore
          · rcases hend with hend | hend
            · exact Or.inl hend
            · apply Or.inr
              rw [hend, List.length_append, List.length_singleton]
              omega

end Runs

end Explored

end Linkage

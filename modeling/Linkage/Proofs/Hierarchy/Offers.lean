import Linkage.Hierarchy.Walk
import Mathlib.Data.List.Nodup

/-!
# What walks offer

A visitor can be made to keep a log of what it was offered, and walks do not notice it. Whatever the
class path answers and whatever the visitor does, a walker marks what it offers and offers nothing
that is marked.

* **`Visitor.logged`**, **`walk_logged`** — a walk with a log is the walk, and the log is what the
  walker has marked, in order;
* **`Visitor.Alike`**, **`walk_alike`** — what visitors carry along makes no difference to walks;
* **`Visitor.relentless`**, **`walk_relentless`** — a walk that its visitor stops has offered the
  beginning of what it offers when the visitor's wish is ignored.
-/

namespace Linkage

variable {σ : Type} {env : Setting} {visit : Visitor σ}

/-! ## Walks, step by step -/

/-- What is done first gives its result, its state and its session to what is done next. -/
theorem run_bind {α β : Type} (m : StateT σ Check α) (next : α → StateT σ Check β) (x : σ)
    (s : Session) : (m >>= next) x s = next (m x s).1.1 (m x s).1.2 (m x s).2 :=
  rfl

/-- A check leaves the state of a visitor alone. -/
theorem run_check {α : Type} (m : Check α) (x : σ) (s : Session) :
    (liftM m : StateT σ Check α) x s = (((m s).1, x), (m s).2) :=
  rfl

/-- The parents of a class are offered one after the other. -/
theorem offerParents_cons (c : ClassDefinition) (name : String) (rest : List String) (w : Walker)
    (offered : List ClassDefinition) (x : σ) (s : Session) :
    offerParents env visit c (name :: rest) w offered x s =
      if w.hasVisited name then offerParents env visit c rest w offered x s
      else match resolveAt env (.inClass c.name) name s with
        | (none, s) => offerParents env visit c rest w offered x s
        | (some parent, s) =>
          if w.hasVisited parent.name then offerParents env visit c rest w offered x s
          else match visit parent x s with
            | ((true, x), s) =>
              offerParents env visit c rest (w.mark parent.name) (parent :: offered) x s
            | ((false, x), s) => (((none, w.mark parent.name), x), s) := by
  rw [offerParents]
  split
  · rfl
  · rw [run_bind, run_check]
    rcases resolveAt env (.inClass c.name) name s with ⟨_ | parent, s⟩
    · rfl
    · simp only
      split
      · rfl
      · rw [run_bind]
        rcases visit parent x s with ⟨⟨_ | _, x⟩, s⟩ <;> rfl

/-- Pending classes are expanded one after the other. -/
theorem expand_cons (bound : Nat) (c : ClassDefinition) (pending : List ClassDefinition) (w : Walker)
    (x : σ) (s : Session) :
    expand env visit (bound + 1) (c :: pending) w x s =
      match offerParents env visit c (w.parents c) w [] x s with
      | (((none, w), x), s) => (((.stopped, w), x), s)
      | (((some offered, w), x), s) => expand env visit bound (offered ++ pending) w x s := by
  rw [expand, run_bind]
  rcases offerParents env visit c (w.parents c) w [] x s with ⟨⟨⟨_ | offered, w⟩, x⟩, s⟩ <;> rfl

/-- A walk that includes its start offers it first. -/
theorem walk_eq (w : Walker) (start : ClassDefinition) (includeSelf : Bool) (x : σ) (s : Session) :
    w.walk env visit start includeSelf x s =
      if includeSelf then
        if w.hasVisited start.name then (((.completed, w), x), s)
        else match visit start x s with
          | ((true, x), s) =>
            expand env visit (env.classpath.size + 1) [start] (w.mark start.name) x s
          | ((false, x), s) => (((.stopped, w.mark start.name), x), s)
      else expand env visit (env.classpath.size + 1) [start] w x s := by
  unfold Walker.walk
  split
  · split
    · rfl
    · rw [run_bind]
      rcases visit start x s with ⟨⟨_ | _, x⟩, s⟩ <;> rfl
  · rfl

/-! ## Logs -/

/-- A class that was offered, with the problems that the visitor has found in it. -/
structure Offer where
  offered : ClassDefinition
  found : List Problem

/-- A visitor that keeps a log of what it is offered. -/
def Visitor.logged (visit : Visitor σ) : Visitor (List Offer × σ) := fun c x s =>
  match visit c x.2 s with
  | ((goesOn, y), s') =>
    ((goesOn, (x.1 ++ [⟨c, s'.problems.filter (· ∉ s.problems)⟩], y)), s')

/-- What has been done, with a log. -/
def withLog {α : Type} (log : List Offer) (r : (α × σ) × Session) : (α × (List Offer × σ)) × Session :=
  ((r.1.1, (log, r.1.2)), r.2)

/-- A walker has gone on to offer the classes `new`. -/
structure Marks (w w' : Walker) (new : List ClassDefinition) : Prop where
  interfaces : w'.interfaces = w.interfaces
  visited : w'.visited = w.visited ++ new.map (·.name)
  nodup : (new.map (·.name)).Nodup
  fresh : ∀ d ∈ new, d.name ∉ w.visited

theorem Marks.refl (w : Walker) : Marks w w [] :=
  ⟨rfl, (List.append_nil _).symm, List.nodup_nil, by simp⟩

theorem Marks.mark {w : Walker} {d : ClassDefinition} (h : ¬ w.hasVisited d.name = true) :
    Marks w (w.mark d.name) [d] := by
  refine ⟨rfl, rfl, List.nodup_singleton _, ?_⟩
  intro e he
  rw [List.mem_singleton.mp he]
  exact fun hmem => h (List.contains_iff_mem.mpr hmem)

theorem Marks.trans {w₁ w₂ w₃ : Walker} {new new' : List ClassDefinition} (h : Marks w₁ w₂ new)
    (h' : Marks w₂ w₃ new') : Marks w₁ w₃ (new ++ new') := by
  have hfresh : ∀ d ∈ new', d.name ∉ w₁.visited ∧ d.name ∉ new.map (·.name) := by
    intro d hd
    have hnot := h'.fresh d hd
    rw [h.visited, List.mem_append, not_or] at hnot
    exact hnot
  refine ⟨h'.interfaces.trans h.interfaces, ?_, ?_, ?_⟩
  · rw [h'.visited, h.visited, List.map_append, List.append_assoc]
  · rw [List.map_append]
    refine List.nodup_append.mpr ⟨h.nodup, h'.nodup, ?_⟩
    rintro n hn n' hn' rfl
    obtain ⟨d, hd, rfl⟩ := List.mem_map.mp hn'
    exact (hfresh d hd).2 hn
  · intro d hd
    rcases List.mem_append.mp hd with hd | hd
    · exact h.fresh d hd
    · exact (hfresh d hd).1

section Logs

variable (env : Setting) (visit : Visitor σ)

/-- Offering with a log. -/
theorem offerParents_logged (c : ClassDefinition) (names : List String) (w : Walker)
    (offered : List ClassDefinition) (log : List Offer) (x : σ) (s : Session) :
    ∃ new, offerParents env visit.logged c names w offered (log, x) s =
        withLog (log ++ new) (offerParents env visit c names w offered x s) ∧
      Marks w (offerParents env visit c names w offered x s).1.1.2 (new.map (·.offered)) := by
  induction names generalizing w offered log x s with
  | nil => exact ⟨[], by rw [List.append_nil]; rfl, Marks.refl w⟩
  | cons name rest ih =>
      rw [offerParents_cons, offerParents_cons]
      split
      · exact ih w offered log x s
      · rcases resolveAt env (.inClass c.name) name s with ⟨_ | parent, s⟩
        · exact ih w offered log x s
        · simp only
          split
          · exact ih w offered log x s
          · rename_i hnew
            unfold Visitor.logged
            rcases hvisit : visit parent x s with ⟨⟨_ | _, x'⟩, s'⟩
            · refine ⟨[⟨parent, s'.problems.filter (· ∉ s.problems)⟩], ?_, Marks.mark hnew⟩
              simp only
              rfl
            · obtain ⟨new, hrun, hmarks⟩ := ih (w.mark parent.name) (parent :: offered)
                (log ++ [⟨parent, s'.problems.filter (· ∉ s.problems)⟩]) x' s'
              refine ⟨⟨parent, s'.problems.filter (· ∉ s.problems)⟩ :: new, ?_,
                (Marks.mark hnew).trans hmarks⟩
              simp only
              rw [← List.append_cons] at hrun
              exact hrun

theorem expand_logged (bound : Nat) (pending : List ClassDefinition) (w : Walker) (log : List Offer)
    (x : σ) (s : Session) :
    ∃ new, expand env visit.logged bound pending w (log, x) s =
        withLog (log ++ new) (expand env visit bound pending w x s) ∧
      Marks w (expand env visit bound pending w x s).1.1.2 (new.map (·.offered)) := by
  induction bound generalizing pending w log x s with
  | zero => exact ⟨[], by rw [List.append_nil]; rfl, Marks.refl w⟩
  | succ bound ih =>
      cases pending with
      | nil => exact ⟨[], by rw [List.append_nil]; rfl, Marks.refl w⟩
      | cons c pending =>
          rw [expand_cons, expand_cons]
          obtain ⟨new, hrun, hmarks⟩ :=
            offerParents_logged env visit c (w.parents c) w [] log x s
          rw [hrun]
          generalize offerParents env visit c (w.parents c) w [] x s = r at hmarks
          rcases r with ⟨⟨⟨_ | offered, w'⟩, x'⟩, s'⟩
          · exact ⟨new, rfl, hmarks⟩
          · obtain ⟨new', hrun', hmarks'⟩ := ih (offered ++ pending) w' (log ++ new) x' s'
            refine ⟨new ++ new', ?_, ?_⟩
            · rw [← List.append_assoc]
              exact hrun'
            · rw [List.map_append]
              exact hmarks.trans hmarks'

/-- A walk with a log is the walk. The log has become longer by what the walker has marked. -/
theorem walk_logged (w : Walker) (start : ClassDefinition) (includeSelf : Bool) (log : List Offer)
    (x : σ) (s : Session) :
    ∃ new, w.walk env visit.logged start includeSelf (log, x) s =
        withLog (log ++ new) (w.walk env visit start includeSelf x s) ∧
      Marks w (w.walk env visit start includeSelf x s).1.1.2 (new.map (·.offered)) := by
  rw [walk_eq, walk_eq]
  split
  · split
    · exact ⟨[], by rw [List.append_nil]; rfl, Marks.refl w⟩
    · rename_i hnew
      unfold Visitor.logged
      rcases visit start x s with ⟨⟨_ | _, x'⟩, s'⟩
      · exact ⟨[⟨start, s'.problems.filter (· ∉ s.problems)⟩], rfl, Marks.mark hnew⟩
      · obtain ⟨new, hrun, hmarks⟩ := expand_logged env visit
          (env.classpath.size + 1) [start] (w.mark start.name)
          (log ++ [⟨start, s'.problems.filter (· ∉ s.problems)⟩]) x' s'
        refine ⟨⟨start, s'.problems.filter (· ∉ s.problems)⟩ :: new, ?_,
          (Marks.mark hnew).trans hmarks⟩
        rw [← List.append_cons] at hrun
        exact hrun
  · exact expand_logged env visit (env.classpath.size + 1) [start] w log x s

end Logs

/-- What a walk offers. -/
def offers (env : Setting) (visit : Visitor σ) (w : Walker) (start : ClassDefinition)
    (includeSelf : Bool) (x : σ) (s : Session) : List ClassDefinition :=
  (w.walk env visit.logged start includeSelf ([], x) s).1.2.1.map (·.offered)

/-! ## Visitors that do the same -/

section Alike

variable (env : Setting) {τ : Type} {visit' : Visitor τ}

/-- What has been done with one state and with another comes to the same. -/
def SameRun {α : Type} (r : (α × σ) × Session) (r' : (α × τ) × Session) : Prop :=
  r.1.1 = r'.1.1 ∧ r.2 = r'.2

/-- Two visitors do the same to sessions and want the same, whatever they carry along. -/
def Visitor.Alike (visit : Visitor σ) (visit' : Visitor τ) : Prop :=
  ∀ c x y s, SameRun (visit c x s) (visit' c y s)

theorem offerParents_alike (h : visit.Alike visit') (c : ClassDefinition) (names : List String)
    (w : Walker) (offered : List ClassDefinition) (x : σ) (y : τ) (s : Session) :
    SameRun (offerParents env visit c names w offered x s)
      (offerParents env visit' c names w offered y s) := by
  induction names generalizing w offered x y s with
  | nil => exact ⟨rfl, rfl⟩
  | cons name rest ih =>
      rw [offerParents_cons, offerParents_cons]
      split
      · exact ih w offered x y s
      · rcases resolveAt env (.inClass c.name) name s with ⟨_ | parent, s⟩
        · exact ih w offered x y s
        · simp only
          split
          · exact ih w offered x y s
          · have hsame := h parent x y s
            generalize visit parent x s = r at hsame ⊢
            generalize visit' parent y s = r' at hsame ⊢
            obtain ⟨⟨goesOn, x'⟩, s'⟩ := r
            obtain ⟨⟨goesOn', y'⟩, s''⟩ := r'
            obtain ⟨rfl, rfl⟩ := hsame
            cases goesOn with
            | true => exact ih (w.mark parent.name) (parent :: offered) x' y' s'
            | false => exact ⟨rfl, rfl⟩

theorem expand_alike (h : visit.Alike visit') (bound : Nat) (pending : List ClassDefinition)
    (w : Walker) (x : σ) (y : τ) (s : Session) :
    SameRun (expand env visit bound pending w x s) (expand env visit' bound pending w y s) := by
  induction bound generalizing pending w x y s with
  | zero => exact ⟨rfl, rfl⟩
  | succ bound ih =>
      cases pending with
      | nil => exact ⟨rfl, rfl⟩
      | cons c pending =>
          rw [expand_cons, expand_cons]
          have hsame := offerParents_alike env h c (w.parents c) w [] x y s
          generalize offerParents env visit c (w.parents c) w [] x s = r at hsame ⊢
          generalize offerParents env visit' c (w.parents c) w [] y s = r' at hsame ⊢
          obtain ⟨⟨⟨offered, w'⟩, x'⟩, s'⟩ := r
          obtain ⟨⟨parents, y'⟩, s''⟩ := r'
          obtain ⟨rfl, rfl⟩ := hsame
          cases offered with
          | none => exact ⟨rfl, rfl⟩
          | some offered => exact ih (offered ++ pending) w' x' y' s'

/-- Walks with visitors that do the same end in the same way, and leave the same walker and the same
session. -/
theorem walk_alike (h : visit.Alike visit') (w : Walker) (start : ClassDefinition)
    (includeSelf : Bool) (x : σ) (y : τ) (s : Session) :
    SameRun (w.walk env visit start includeSelf x s) (w.walk env visit' start includeSelf y s) := by
  rw [walk_eq, walk_eq]
  split
  · split
    · exact ⟨rfl, rfl⟩
    · have hsame := h start x y s
      generalize visit start x s = r at hsame ⊢
      generalize visit' start y s = r' at hsame ⊢
      obtain ⟨⟨goesOn, x'⟩, s'⟩ := r
      obtain ⟨⟨goesOn', y'⟩, s''⟩ := r'
      obtain ⟨rfl, rfl⟩ := hsame
      cases goesOn with
      | true => exact expand_alike env h _ _ _ x' y' s'
      | false => exact ⟨rfl, rfl⟩
  · exact expand_alike env h _ _ _ x y s

end Alike

/-! ## Visitors that go on -/

/-- The visitor that does the same, but never wants a walk to end. -/
def Visitor.relentless (visit : Visitor σ) : Visitor σ := fun c x s =>
  ((true, (visit c x s).1.2), (visit c x s).2)

section Relentless

variable (env : Setting) (visit : Visitor σ)

/-- A log only grows. -/
theorem prefix_expand (bound : Nat) (pending : List ClassDefinition) (w : Walker) (log : List Offer)
    (x : σ) (s : Session) : log <+: (expand env visit.logged bound pending w (log, x) s).1.2.1 := by
  obtain ⟨new, hrun, -⟩ := expand_logged env visit bound pending w log x s
  rw [hrun]
  exact List.prefix_append log new

theorem prefix_offerParents (c : ClassDefinition) (names : List String) (w : Walker)
    (offered : List ClassDefinition) (log : List Offer) (x : σ) (s : Session) :
    log <+: (offerParents env visit.logged c names w offered (log, x) s).1.2.1 := by
  obtain ⟨new, hrun, -⟩ :=
    offerParents_logged env visit c names w offered log x s
  rw [hrun]
  exact List.prefix_append log new

/-- A visitor that never stops is offered the same parents as long as the other one goes on, and then
more. -/
theorem offerParents_relentless (c : ClassDefinition) (names : List String) (w : Walker)
    (offered : List ClassDefinition) (log : List Offer) (x : σ) (s : Session) :
    (offerParents env visit.relentless.logged c names w offered (log, x) s =
        offerParents env visit.logged c names w offered (log, x) s) ∨
      ((offerParents env visit.logged c names w offered (log, x) s).1.1.1 = none ∧
        (offerParents env visit.logged c names w offered (log, x) s).1.2.1 <+:
          (offerParents env visit.relentless.logged c names w offered (log, x) s).1.2.1) := by
  induction names generalizing w offered log x s with
  | nil => exact Or.inl rfl
  | cons name rest ih =>
      rw [offerParents_cons, offerParents_cons]
      split
      · exact ih w offered log x s
      · rcases resolveAt env (.inClass c.name) name s with ⟨_ | parent, s⟩
        · exact ih w offered log x s
        · simp only
          split
          · exact ih w offered log x s
          · rcases hvisit : visit parent x s with ⟨⟨goesOn, x'⟩, s'⟩
            have hlogged : visit.logged parent (log, x) s =
                ((goesOn, (log ++ [⟨parent, s'.problems.filter (· ∉ s.problems)⟩], x')), s') := by
              simp only [Visitor.logged, hvisit]
            have hrelentless : visit.relentless.logged parent (log, x) s =
                ((true, (log ++ [⟨parent, s'.problems.filter (· ∉ s.problems)⟩], x')), s') := by
              simp only [Visitor.logged, Visitor.relentless, hvisit]
            rw [hlogged, hrelentless]
            cases goesOn with
            | true => exact ih _ _ _ _ _
            | false => exact Or.inr ⟨rfl, prefix_offerParents env visit.relentless c rest _ _ _ x' s'⟩

theorem expand_relentless (bound : Nat) (pending : List ClassDefinition) (w : Walker)
    (log : List Offer) (x : σ) (s : Session) :
    (expand env visit.logged bound pending w (log, x) s).1.2.1 <+:
      (expand env visit.relentless.logged bound pending w (log, x) s).1.2.1 := by
  induction bound generalizing pending w log x s with
  | zero => exact List.prefix_rfl
  | succ bound ih =>
      cases pending with
      | nil => exact List.prefix_rfl
      | cons c pending =>
          rw [expand_cons, expand_cons]
          rcases offerParents_relentless env visit c (w.parents c) w [] log x s
            with heq | ⟨hstopped, hprefix⟩
          · rw [heq]
            rcases offerParents env visit.logged c (w.parents c) w [] (log, x) s with
              ⟨⟨⟨_ | offered, w'⟩, ⟨log', x'⟩⟩, s'⟩
            · exact List.prefix_rfl
            · exact ih _ _ _ _ _
          · generalize offerParents env visit.logged c (w.parents c) w [] (log, x) s = r
              at hstopped hprefix
            generalize offerParents env visit.relentless.logged c (w.parents c) w [] (log, x) s = r'
              at hprefix
            rcases r with ⟨⟨⟨answer, w'⟩, ⟨log', x'⟩⟩, s'⟩
            cases hstopped
            rcases r' with ⟨⟨⟨_ | offered, w''⟩, ⟨log'', x''⟩⟩, s''⟩
            · exact hprefix
            · exact hprefix.trans (prefix_expand env visit.relentless bound _ w'' log'' x'' s'')

/-- A walk offers a beginning of what it offers to a visitor that does the same and never stops. -/
theorem walk_relentless (w : Walker) (start : ClassDefinition) (includeSelf : Bool) (x : σ)
    (s : Session) : offers env visit w start includeSelf x s <+:
      offers env visit.relentless w start includeSelf x s := by
  unfold offers
  refine List.IsPrefix.map _ ?_
  rw [walk_eq, walk_eq]
  split
  · split
    · exact List.prefix_rfl
    · rcases hvisit : visit start x s with ⟨⟨goesOn, x'⟩, s'⟩
      have hlogged : visit.logged start ([], x) s =
          ((goesOn, ([⟨start, s'.problems.filter (· ∉ s.problems)⟩], x')), s') := by
        simp only [Visitor.logged, hvisit, List.nil_append]
      have hrelentless : visit.relentless.logged start ([], x) s =
          ((true, ([⟨start, s'.problems.filter (· ∉ s.problems)⟩], x')), s') := by
        simp only [Visitor.logged, Visitor.relentless, hvisit, List.nil_append]
      rw [hlogged, hrelentless]
      cases goesOn with
      | true => exact expand_relentless env visit _ _ _ _ _ _
      | false => exact prefix_expand env visit.relentless _ _ _ _ _ _
  · exact expand_relentless env visit _ _ _ _ _ _

end Relentless

end Linkage

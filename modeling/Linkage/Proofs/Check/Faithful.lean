import Linkage.Proofs.Check.Regular
import Linkage.Proofs.Table

/-!
# Checks and what was checked before

As long as the class path does not fail, what a check finds does not depend on the session in which it
runs: the session may remember names, but what it remembers is what the class path says.

* **`Classpath.definition?`** — the class that a class path holds under a name;
* **`Faithful`** — a session that remembers nothing else;
* **`Regular.faithful`** — in a faithful session a regular check gives what it gives in a fresh one,
  adds the findings that it adds there, and leaves the session faithful;
* **`Regular.finds_each`** — what is found in checks one after the other is found in each by itself;
* **`Yields`** — the checks that only ask, with what they come to.
-/

namespace Linkage

/-! ## Class paths that never fail -/

namespace ClassIndex

theorem name_of_get? {i : ClassIndex} {name : String} {c : ClassDefinition}
    (h : i.get? name = some c) : c.name = name := by
  simpa using List.find?_some h

theorem mem_of_get? {i : ClassIndex} {name : String} {c : ClassDefinition}
    (h : i.get? name = some c) : c ∈ i.classes := List.mem_of_find?_eq_some h

end ClassIndex

namespace Classpath

/-- The class of that name in the first layer that has one. -/
def definition? (path : Classpath) (name : String) : Option ClassDefinition :=
  path.findSome? fun layer => layer.source.index.get? name

/-- No layer ever fails. -/
def Reliable (path : Classpath) : Prop :=
  ∀ layer ∈ path, ∀ n name, layer.source.failing n name = none

variable {path : Classpath} {name : String} {c : ClassDefinition}

theorem definition?_cases (h : path.definition? name = some c) :
    ∃ layer ∈ path, layer.source.index.get? name = some c :=
  List.exists_of_findSome?_eq_some h

theorem name_of_definition? (h : path.definition? name = some c) : c.name = name := by
  obtain ⟨layer, -, hget⟩ := definition?_cases h
  exact ClassIndex.name_of_get? hget

/-- A class that can be found is one of the classes of the class path. -/
theorem mem_classes_of_definition? (h : path.definition? name = some c) : c ∈ path.classes := by
  obtain ⟨layer, hlayer, hget⟩ := definition?_cases h
  exact List.mem_flatMap.mpr ⟨layer, hlayer, ClassIndex.mem_of_get? hget⟩

/-- A class path that never fails answers with the class of its first layer that has one. -/
theorem find_of_reliable (h : path.Reliable) (name : String) (traffic : Traffic) :
    ∃ answer traffic', path.find name traffic = (.ok answer, traffic') ∧
      answer.map Prod.fst = path.definition? name := by
  induction path generalizing traffic with
  | nil => exact ⟨none, traffic, rfl, rfl⟩
  | cons layer rest ih =>
      unfold find definition?
      simp only [h layer (List.mem_cons_self ..), List.findSome?_cons]
      cases hget : layer.source.index.get? name with
      | some c => exact ⟨some (c, layer.origin), _, rfl, rfl⟩
      | none =>
          obtain ⟨answer, traffic', hfind, hanswer⟩ :=
            ih (fun l hl => h l (List.mem_cons_of_mem _ hl)) traffic.tail
          refine ⟨answer, (traffic.headD [] ++ [name]) :: traffic', ?_, hanswer⟩
          simp only [hfind]

end Classpath

/-! ## Faithful sessions -/

/-- The class path has not failed, and what the session knows is what the class path says. -/
structure Faithful (env : Setting) (s : Session) : Prop where
  unfailed : s.failure = none
  known : ∀ name answer, s.known.get? name = some answer →
    answer = env.classpath.definition? name

section Faithful

variable {env : Setting} {s : Session}

theorem faithful_start (env : Setting) : Faithful env (Session.start env) :=
  ⟨rfl, fun name answer h => by cases h⟩

theorem Faithful.of_eq {s' : Session} (h : Faithful env s) (hknown : s'.known = s.known)
    (hfailure : s'.failure = s.failure) : Faithful env s' := by
  refine ⟨hfailure.trans h.unfailed, ?_⟩
  rw [hknown]
  exact h.known

/-- A look-up in a faithful session gives what the class path says, and finds no fault. -/
theorem Faithful.lookup (hpath : env.classpath.Reliable) (h : Faithful env s) (name : String) :
    ∃ s', s.lookup env name = (env.classpath.definition? name, s') ∧ Faithful env s' ∧
      s'.problems = s.problems ∧ s'.warnings = s.warnings := by
  unfold Session.lookup
  cases hknown : s.known.get? name with
  | some answer =>
      refine ⟨s, ?_, h, rfl, rfl⟩
      rw [h.known name answer hknown]
  | none =>
      obtain ⟨answer, traffic', hfind, hanswer⟩ :=
        Classpath.find_of_reliable hpath name s.traffic
      refine ⟨{ s with traffic := traffic', known := s.known.put name (answer.map Prod.fst) }, ?_,
        ⟨h.unfailed, ?_⟩, rfl, rfl⟩
      · rw [h.unfailed, hfind, ← hanswer]
        rfl
      · intro name' answer' hget
        rcases Table.get?_put_cases hget with ⟨rfl, rfl⟩ | ⟨-, hold⟩
        · exact hanswer
        · exact h.known name' answer' hold

/-- A session has the findings of two others, and no more. -/
structure FindsBoth (s s₁ s₂ : Session) : Prop where
  problems : ∀ p, p ∈ s.problems ↔ p ∈ s₁.problems ∨ p ∈ s₂.problems
  warnings : ∀ w, w ∈ s.warnings ↔ w ∈ s₁.warnings ∨ w ∈ s₂.warnings

/-- Two steps whose findings are added one after the other. -/
theorem FindsBoth.trans {a b b' c c' d : Session} (h₁ : FindsBoth b a b') (h₂ : FindsBoth c b c')
    (h₃ : FindsBoth d b' c') : FindsBoth c a d := by
  refine ⟨?_, ?_⟩
  · intro p
    rw [h₂.problems, h₁.problems, h₃.problems, or_assoc]
  · intro w
    rw [h₂.warnings, h₁.warnings, h₃.warnings, or_assoc]

/-- A step without findings. -/
theorem FindsBoth.of_eq {s s₁ s₂ : Session} (hproblems : s.problems = s₁.problems)
    (hwarnings : s.warnings = s₁.warnings) (hnone : s₂.problems = []) (hnone' : s₂.warnings = []) :
    FindsBoth s s₁ s₂ := by
  refine ⟨?_, ?_⟩
  · intro p
    rw [hproblems, hnone]
    simp
  · intro w
    rw [hwarnings, hnone']
    simp

/-- A step that adds a problem. -/
theorem FindsBoth.addProblem (s : Session) (p : Problem) :
    FindsBoth (s.addProblem p) s ((Session.start env).addProblem p) := by
  refine ⟨?_, ?_⟩
  · intro q
    show q ∈ insertNew s.problems p ↔ _ ∨ q ∈ insertNew [] p
    rw [mem_insertNew, mem_insertNew]
    simp
  · intro w
    show w ∈ s.warnings ↔ _ ∨ w ∈ []
    simp

/-- A step that adds a warning. -/
theorem FindsBoth.addWarning (s : Session) (w : Warning) :
    FindsBoth (s.addWarning w) s ((Session.start env).addWarning w) := by
  refine ⟨?_, ?_⟩
  · intro p
    show p ∈ s.problems ↔ _ ∨ p ∈ []
    simp
  · intro v
    show v ∈ insertNew s.warnings w ↔ _ ∨ v ∈ insertNew [] w
    rw [mem_insertNew, mem_insertNew]
    simp

/-- In a faithful session a regular check does what it does in a fresh one. -/
theorem Regular.faithful (hpath : env.classpath.Reliable) {α : Type} {m : Check α}
    (hm : Regular env m) (h : Faithful env s) :
    (m s).1 = (m (Session.start env)).1 ∧ Faithful env (m s).2 ∧
      FindsBoth (m s).2 s (m (Session.start env)).2 := by
  have hfresh := faithful_start env
  induction hm generalizing s with
  | pure x => exact ⟨rfl, h, .of_eq rfl rfl rfl rfl⟩
  | @bind α β m f _ _ ihm ihf =>
      -- the second part runs in the session the first one leaves, which is faithful as well
      obtain ⟨hvalue, hfaithful, hboth⟩ := ihm h
      obtain ⟨-, hfaithful', -⟩ := ihm hfresh
      obtain ⟨hvalue', hfaithful'', hboth'⟩ := ihf (m s).1 hfaithful
      obtain ⟨hvalue₀, -, hboth₀⟩ := ihf (m (Session.start env)).1 hfaithful'
      rw [hvalue] at hvalue' hfaithful'' hboth'
      refine ⟨?_, ?_, ?_⟩
      · show (f (m s).1 (m s).2).1 = (f (m (Session.start env)).1 (m (Session.start env)).2).1
        rw [hvalue, hvalue', hvalue₀]
      · show Faithful env (f (m s).1 (m s).2).2
        rw [hvalue]
        exact hfaithful''
      · show FindsBoth (f (m s).1 (m s).2).2 s
          (f (m (Session.start env)).1 (m (Session.start env)).2).2
        rw [hvalue]
        exact hboth.trans hboth' hboth₀
  | lookup name =>
      obtain ⟨s', hlookup, hfaithful, hproblems, hwarnings⟩ := h.lookup hpath name
      obtain ⟨s₀, hlookup₀, -, hproblems₀, hwarnings₀⟩ := hfresh.lookup hpath name
      show (s.lookup env name).1 = ((Session.start env).lookup env name).1 ∧
        Faithful env (s.lookup env name).2 ∧
          FindsBoth (s.lookup env name).2 s ((Session.start env).lookup env name).2
      rw [hlookup, hlookup₀]
      exact ⟨rfl, hfaithful, .of_eq hproblems hwarnings hproblems₀ hwarnings₀⟩
  | missed location plain =>
      -- neither session has failed, so both report the miss or neither does
      rw [missed_eq, missed_eq, h.unfailed]
      refine ⟨rfl, ?_, ?_⟩
      · show Faithful env (if _ then _ else s)
        split
        · exact h.of_eq rfl rfl
        · exact h
      · show FindsBoth (if (Option.isNone none && !env.external.covers plain) = true then _ else s) s
          (if (Option.isNone none && !env.external.covers plain) = true then _ else _)
        split
        · exact .addProblem s _
        · exact .of_eq rfl rfl rfl rfl
  | problem p => exact ⟨rfl, h.of_eq rfl rfl, .addProblem s p⟩
  | warning w => exact ⟨rfl, h.of_eq rfl rfl, .addWarning s w⟩

/-- Checks one after the other find what each of them finds in a fresh session. -/
theorem Regular.finds_each (hpath : env.classpath.Reliable) {α : Type} {xs : List α}
    {check : α → Check Unit} (h : ∀ x, Regular env (check x)) (hs : Faithful env s) :
    (∀ p, p ∈ (Check.each xs check s).2.problems ↔
      p ∈ s.problems ∨ ∃ x ∈ xs, p ∈ (check x (Session.start env)).2.problems) ∧
    (∀ w, w ∈ (Check.each xs check s).2.warnings ↔
      w ∈ s.warnings ∨ ∃ x ∈ xs, w ∈ (check x (Session.start env)).2.warnings) := by
  induction xs generalizing s with
  | nil =>
      show (∀ p, p ∈ s.problems ↔ _) ∧ (∀ w, w ∈ s.warnings ↔ _)
      simp
  | cons x rest ih =>
      obtain ⟨-, hfaithful, hboth⟩ := (h x).faithful hpath hs
      obtain ⟨hproblems, hwarnings⟩ := ih hfaithful
      refine ⟨?_, ?_⟩
      · intro p
        show p ∈ (Check.each rest check (check x s).2).2.problems ↔ _
        rw [hproblems, hboth.problems, or_assoc]
        simp
      · intro w
        show w ∈ (Check.each rest check (check x s).2).2.warnings ↔ _
        rw [hwarnings, hboth.warnings, or_assoc]
        simp

/-! ## Names at a location -/

/-- The class that a name stands for, which may be that of an array. -/
def Setting.resolved (env : Setting) (name : String) : Option ClassDefinition :=
  (ClassName.element? name).bind env.classpath.definition?

/-- It is a problem that a name at a location stands for no class: nothing holds its class, and the
environment does not provide it. -/
def Misses (env : Setting) (location : Location) (name : String) (p : Problem) : Prop :=
  ∃ plain, ClassName.element? name = some plain ∧ env.classpath.definition? plain = none ∧
    env.external.covers plain = false ∧ p = .classNotFound plain location

/-- A name that stands for a class is not missed. -/
theorem not_misses_of_resolved {location : Location} {name : String} {c : ClassDefinition}
    {p : Problem} (h : env.resolved name = some c) : ¬ Misses env location name p := by
  rintro ⟨plain, hplain, hnone, -⟩
  unfold Setting.resolved at h
  rw [hplain, Option.bind_some, hnone] at h
  cases h

theorem Faithful.resolveAt (hpath : env.classpath.Reliable) (h : Faithful env s)
    (location : Location) (name : String) :
    ∃ s', resolveAt env location name s = (env.resolved name, s') ∧ Faithful env s' ∧
      (∀ p, p ∈ s'.problems ↔ p ∈ s.problems ∨ Misses env location name p) ∧
      s'.warnings = s.warnings := by
  cases helement : ClassName.element? name with
  | none =>
      refine ⟨s, ?_, h, ?_, rfl⟩
      · unfold Linkage.resolveAt Setting.resolved
        rw [helement]
        rfl
      · intro p
        unfold Misses
        simp [helement]
  | some plain =>
      obtain ⟨s', hlookup, hfaithful, hproblems, hwarnings⟩ := h.lookup hpath plain
      have hresolved : env.resolved name = env.classpath.definition? plain := by
        unfold Setting.resolved
        rw [helement, Option.bind_some]
      have hbind : ∀ f : Option ClassDefinition → Check (Option ClassDefinition),
          ((fun s => s.lookup env plain : Check (Option ClassDefinition)) >>= f) s =
            f (env.classpath.definition? plain) s' := by
        intro f
        show f (s.lookup env plain).1 (s.lookup env plain).2 = _
        rw [hlookup]
      cases hfound : env.classpath.definition? plain with
      | some c =>
          refine ⟨s', ?_, hfaithful, ?_, hwarnings⟩
          · unfold Linkage.resolveAt
            rw [helement, hresolved]
            refine (hbind _).trans ?_
            rw [hfound]
            rfl
          · intro p
            have hnot : ¬ Misses env location name p :=
              not_misses_of_resolved (hresolved.trans hfound)
            rw [hproblems, or_iff_left hnot]
      | none =>
          have hresolve : Linkage.resolveAt env location name s =
              missed env location plain s' := by
            unfold Linkage.resolveAt
            rw [helement]
            refine (hbind _).trans ?_
            rw [hfound]
            rfl
          have hmisses : ∀ p, Misses env location name p ↔
              env.external.covers plain = false ∧ p = .classNotFound plain location := by
            intro p
            unfold Misses
            rw [helement]
            simp [hfound]
          rw [hresolve, missed_eq, hfaithful.unfailed, hresolved, hfound]
          refine ⟨_, rfl, ?_, ?_, ?_⟩
          · split
            · exact hfaithful.of_eq rfl rfl
            · exact hfaithful
          · intro p
            rw [hmisses]
            cases hcovers : env.external.covers plain with
            | true => simp [hproblems]
            | false =>
                show p ∈ insertNew s'.problems _ ↔ _
                rw [mem_insertNew, hproblems]
                simp
          · split
            · exact hwarnings
            · exact hwarnings

end Faithful

/-! ## Checks without findings -/

/-- In a faithful session the check comes to `x`, and finds nothing. -/
def Yields (env : Setting) {α : Type} (m : Check α) (x : α) : Prop :=
  ∀ s, Faithful env s → ∃ s', m s = (x, s') ∧ Faithful env s' ∧
    s'.problems = s.problems ∧ s'.warnings = s.warnings

namespace Yields

variable {env : Setting} {α β : Type} {m : Check α} {f : α → Check β} {x : α} {y : β}

theorem pure (x : α) : Yields env (Pure.pure x) x := fun s hs => ⟨s, rfl, hs, rfl, rfl⟩

theorem bind (hm : Yields env m x) (hf : Yields env (f x) y) : Yields env (m >>= f) y := by
  intro s hs
  obtain ⟨s₁, hrun, hs₁, hproblems, hwarnings⟩ := hm s hs
  obtain ⟨s₂, hrun', hs₂, hproblems', hwarnings'⟩ := hf s₁ hs₁
  refine ⟨s₂, ?_, hs₂, hproblems'.trans hproblems, hwarnings'.trans hwarnings⟩
  show f (m s).1 (m s).2 = _
  rw [hrun]
  exact hrun'

theorem resolve (hpath : env.classpath.Reliable) (name : String) :
    Yields env (resolve env name) (env.resolved name) := by
  intro s hs
  unfold Linkage.resolve Setting.resolved
  cases ClassName.element? name with
  | none => exact ⟨s, rfl, hs, rfl, rfl⟩
  | some plain => exact hs.lookup hpath plain

theorem value (h : Yields env m x) {s : Session} (hs : Faithful env s) : (m s).1 = x := by
  obtain ⟨s', hrun, -⟩ := h s hs
  rw [hrun]

/-- What comes after such a check runs in a session without new findings. -/
theorem exists_bind (h : Yields env m x) {s : Session} (hs : Faithful env s) :
    ∃ s', Faithful env s' ∧ s'.problems = s.problems ∧ s'.warnings = s.warnings ∧
      ∀ f : α → Check β, (m >>= f) s = f x s' := by
  obtain ⟨s', hrun, hfaithful, hproblems, hwarnings⟩ := h s hs
  refine ⟨s', hfaithful, hproblems, hwarnings, ?_⟩
  intro f
  show f (m s).1 (m s).2 = _
  rw [hrun]

end Yields

end Linkage

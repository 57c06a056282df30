import Linkage.Proofs.Check.Regular
import Linkage.Proofs.Table

/-!
# What a session asks the class path

A session asks the class path for one name after the other, and for nothing more once a question has
failed. The names it knows are the ones it has asked for, in order, so what was asked of each layer can
be told from them.

* **`Traced`** — the traffic of a session is that of asking for the names it knows, and then for one
  more if a question failed;
* **`Regular.traced`** — every regular check, and so every rule and every walk, keeps it so.
-/

namespace Linkage

/-- Asks for names in turn, until a question fails. -/
def Classpath.findAll (path : Classpath) : List String → Traffic → Option LookupFailure × Traffic
  | [], traffic => (none, traffic)
  | name :: rest, traffic =>
    match path.find name traffic with
    | (.ok _, traffic) => findAll path rest traffic
    | (.error failure, traffic) => (some failure, traffic)

/-- One name more after names that could be asked for. -/
theorem Classpath.findAll_concat (path : Classpath) {names : List String} {before between : Traffic}
    (h : path.findAll names before = (none, between)) (name : String) :
    path.findAll (names ++ [name]) before = path.findAll [name] between := by
  induction names generalizing before with
  | nil =>
      injection h with _ h
      rw [← h]
      rfl
  | cons first rest ih =>
      unfold findAll at h
      show (match path.find first before with
        | (.ok _, traffic) => path.findAll (rest ++ [name]) traffic
        | (.error failure, traffic) => (some failure, traffic)) = _
      rcases hfind : path.find first before with ⟨answer | answer, traffic⟩
      · rw [hfind] at h
        cases h
      · rw [hfind] at h
        exact ih h

/-- The session has asked for the names that it knows, in their order, and none of the questions
failed; if the class path has failed, then at the one question after these. -/
def Session.Traced (env : Setting) (s : Session) : Prop :=
  ∃ traffic, env.classpath.findAll s.known.keys env.classpath.untouched = (none, traffic) ∧
    match s.failure with
    | none => s.traffic = traffic
    | some failure => ∃ name, env.classpath.find name traffic = (.error failure, s.traffic)

section Traced

variable {env : Setting} {s : Session}

theorem traced_start (env : Setting) : (Session.start env).Traced env :=
  ⟨env.classpath.untouched, rfl, rfl⟩

/-- Findings leave the trace alone. -/
theorem Session.Traced.of_eq {s' : Session} (h : s.Traced env) (htraffic : s'.traffic = s.traffic)
    (hknown : s'.known = s.known) (hfailure : s'.failure = s.failure) : s'.Traced env := by
  unfold Session.Traced
  rw [htraffic, hknown, hfailure]
  exact h

theorem Session.Traced.lookup (h : s.Traced env) (name : String) :
    (s.lookup env name).2.Traced env := by
  unfold Session.lookup
  cases hknown : s.known.get? name with
  | some answer => exact h
  | none =>
      cases hfailure : s.failure with
      | some failure => exact h
      | none =>
          obtain ⟨traffic, hasked, htraffic⟩ := h
          rw [hfailure] at htraffic
          simp only [Option.isSome_none, Bool.false_eq_true, if_false]
          rcases hfind : env.classpath.find name s.traffic with ⟨failure | answer, traffic'⟩
          · refine ⟨traffic, hasked, name, ?_⟩
            rw [← htraffic]
            exact hfind
          · refine ⟨traffic', ?_, ?_⟩
            · have hkeys : (s.known.put name (answer.map (·.1))).keys = s.known.keys ++ [name] := by
                unfold Table.keys
                rw [Table.entries_put_of_new hknown, List.map_append]
                rfl
              show env.classpath.findAll (s.known.put name (answer.map (·.1))).keys _ = _
              rw [hkeys, env.classpath.findAll_concat hasked, ← htraffic]
              unfold Classpath.findAll
              rw [hfind]
              rfl
            · rfl

/-- Every regular check keeps a session traced. -/
theorem Regular.traced {α : Type} {m : Check α} (hm : Regular env m) (h : s.Traced env) :
    (m s).2.Traced env := by
  induction hm generalizing s with
  | pure x => exact h
  | bind _ _ ihm ihf => exact ihf _ (ihm h)
  | lookup name => exact h.lookup name
  | missed location plain =>
      rw [missed_eq]
      simp only
      split
      · exact h.of_eq rfl rfl rfl
      · exact h
  | problem p => exact h.of_eq rfl rfl rfl
  | warning w => exact h.of_eq rfl rfl rfl

end Traced

end Linkage

import Linkage.Proofs.Check.Lawful

/-!
# One call to a session

Whatever its look-up does, a call is lawful, and the session keeps what has come of it.

* **`Keeps.remembered`**, **`Keeps.givenUp`**, **`Keeps.answered`**, **`Keeps.failed`** — by what the
  look-up does;
* **`Keeps.unnamed`**, **`Keeps.taken`** — the calls that look nothing up;
* **`Keeps.exchange`** — all calls.
-/

namespace Linkage

variable {env : Setting} {s : Session} {past : List Exchange} {call : SessionCall}
  {name plain : String}

section Named

variable {after : Session} (h : Keeps env past s) (hname : call.name? = some name)
  (hplain : StandsFor name plain)

include h hname hplain

/-- The answer is remembered. -/
theorem Keeps.remembered {answer : Option ClassDefinition} (hold : s.known.get? plain = some answer)
    (hc : Concluded env call plain answer s after) :
    Keeps env (past ++ [⟨call, s, .resolved answer, after⟩]) after ∧
      Lawful env past ⟨call, s, .resolved answer, after⟩ := by
  have hanswer := h.get?_iff.mp hold
  obtain ⟨hasked, hanswers, -⟩ :=
    Exchange.quiet (e := ⟨call, s, .resolved answer, after⟩) env hc.traffic
  have hreports : ∀ p, p ∈ after.problems ↔ p ∈ s.problems ∨
      Reports env past ⟨call, s, .resolved answer, after⟩ p := by
    intro p
    rw [hc.problems, Keeps.reports_iff hname hplain, answers_concat, hanswers, List.append_nil,
      h.failure, ← h.get?_iff, hold, Option.some.injEq]
  refine ⟨h.quiet rfl hname hc.traffic hc.known hc.failure hreports (hc.nodup h.nodup) hc.warnings,
    .named hname hplain (Or.inl hasked) ?_ ?_ ?_⟩
  · intro other hother
    rw [← h.get?_iff, hold] at hother
    injection hother with hother
    rw [hother]
  · intro failure hpending
    refine ⟨?_, fun hnew => absurd (List.mem_map_of_mem hanswer) hnew⟩
    rw [hc.silent failure (h.failure.trans hpending)]
  · intro _ hnew
    exact absurd (List.mem_map_of_mem hanswer) hnew

/-- There is no answer, and no question while a failure is pending. -/
theorem Keeps.givenUp {failure : LookupFailure} (hnew : s.known.get? plain = none)
    (hpending : s.failure = some failure) (hc : Concluded env call plain none s after) :
    Keeps env (past ++ [⟨call, s, .resolved none, after⟩]) after ∧
      Lawful env past ⟨call, s, .resolved none, after⟩ := by
  obtain ⟨hasked, hanswers, -⟩ :=
    Exchange.quiet (e := ⟨call, s, .resolved none, after⟩) env hc.traffic
  have hreports : ∀ p, p ∈ after.problems ↔ p ∈ s.problems ∨
      Reports env past ⟨call, s, .resolved none, after⟩ p := by
    intro p
    rw [hc.problems, Keeps.reports_iff hname hplain, ← h.failure, hpending]
    simp
  refine ⟨h.quiet rfl hname hc.traffic hc.known hc.failure hreports (hc.nodup h.nodup) hc.warnings,
    .named hname hplain (Or.inl hasked) ?_ ?_ ?_⟩
  · intro answer hother
    exact absurd (List.mem_map_of_mem hother) (h.new_iff.mp hnew)
  · intro _ _
    rw [hc.silent failure hpending]
    exact ⟨rfl, fun _ => rfl⟩
  · intro hnone
    rw [← h.failure, hpending] at hnone
    cases hnone

/-- The class path answers. -/
theorem Keeps.answered (hpath : env.classpath ≠ []) {answer : Option (ClassDefinition × Origin)}
    {traffic : Traffic} (hnew : s.known.get? plain = none) (hnone : s.failure = none)
    (hfind : env.classpath.find plain s.traffic = (.ok answer, traffic))
    (hc : Concluded env call plain (answer.map (·.1))
      { s with traffic := traffic, known := s.known.put plain (answer.map (·.1)) } after) :
    Keeps env (past ++ [⟨call, s, .resolved (answer.map (·.1)), after⟩]) after ∧
      Lawful env past ⟨call, s, .resolved (answer.map (·.1)), after⟩ := by
  have htraffic : after.traffic = traffic := hc.traffic
  rw [← htraffic] at hfind
  obtain ⟨hasked, hresponses, hanswers, hunfailed⟩ :=
    Exchange.answered (e := ⟨call, s, .resolved (answer.map (·.1)), after⟩) hpath hfind
  refine ⟨h.concat ?_ ?_ ?_ ?_ (hc.nodup h.nodup) hc.warnings, .named hname hplain
    (Or.inr ⟨hasked, h.new_iff.mp hnew, h.failure ▸ hnone⟩) ?_ ?_ ?_⟩
  · rw [hc.known, hanswers]
    exact Table.entries_put_of_new hnew _
  · rw [hc.known]
    exact h.distinct.put hnew _
  · rw [pending_concat_named hname, hunfailed, Option.none_or, hc.failure]
    exact h.failure
  · intro p
    -- the class is missing if that is what the class path has just said
    have hmissing : (plain, none) ∈ answers env past ++ [(plain, answer.map (·.1))] ↔
        answer.map (·.1) = none := by
      rw [List.mem_append, ← h.get?_iff, hnew]
      simp [eq_comm]
    rw [hc.problems, Keeps.reports_iff hname hplain, answers_concat, hanswers, hmissing, ← h.failure]
  · intro other hother
    exact absurd (List.mem_map_of_mem hother) (h.new_iff.mp hnew)
  · intro failure hpending
    rw [← h.failure, hnone] at hpending
    cases hpending
  · intro _ _
    exact ⟨_, hresponses, by cases answer <;> rfl⟩

/-- The class path fails. -/
theorem Keeps.failed (hpath : env.classpath ≠ []) {failure : LookupFailure} {traffic : Traffic}
    (hnew : s.known.get? plain = none) (hnone : s.failure = none)
    (hfind : env.classpath.find plain s.traffic = (.error failure, traffic))
    (hc : Concluded env call plain none { s with traffic := traffic, failure := some failure } after) :
    Keeps env (past ++ [⟨call, s, .resolved none, after⟩]) after ∧
      Lawful env past ⟨call, s, .resolved none, after⟩ := by
  have htraffic : after.traffic = traffic := hc.traffic
  rw [← htraffic] at hfind
  obtain ⟨hasked, hresponses, hanswers, hfailed⟩ :=
    Exchange.failed (e := ⟨call, s, .resolved none, after⟩) hpath hfind
  refine ⟨h.concat ?_ ?_ ?_ ?_ (hc.nodup h.nodup) hc.warnings, .named hname hplain
    (Or.inr ⟨hasked, h.new_iff.mp hnew, h.failure ▸ hnone⟩) ?_ ?_ ?_⟩
  · rw [hc.known, hanswers, List.append_nil]
  · rw [hc.known]
    exact h.distinct
  · rw [pending_concat_named hname, hfailed, Option.some_or, hc.failure]
  · intro p
    -- a name whose question failed is not one that has been answered
    rw [hc.problems, Keeps.reports_iff hname hplain, answers_concat, hanswers, List.append_nil,
      ← h.get?_iff, hnew]
    simp
  · intro answer hother
    exact absurd (List.mem_map_of_mem hother) (h.new_iff.mp hnew)
  · intro other hpending
    rw [← h.failure, hnone] at hpending
    cases hpending
  · intro _ _
    exact ⟨_, hresponses, rfl⟩

/-- A call that gives the name of a class. -/
theorem Keeps.named (hpath : env.classpath ≠ []) :
    Keeps env (past ++ [call.exchange env s]) (call.exchange env s).after ∧
      Lawful env past (call.exchange env s) := by
  have hlooks := looksUp_lookup env s plain
  rw [exchange_named hname (element?_eq_some_iff.mpr hplain)]
  generalize (s.lookup env plain).1 = found at hlooks ⊢
  generalize (s.lookup env plain).2 = left at hlooks ⊢
  have hc := concluded env call plain found left
  cases hlooks with
  | remembered hknown => exact h.remembered hname hplain hknown hc
  | givenUp hnew hfailure => exact h.givenUp hname hplain hnew hfailure hc
  | answered hnew hfailure hfind => exact h.answered hname hplain hpath hnew hfailure hfind hc
  | failed hnew hfailure hfind => exact h.failed hname hplain hpath hnew hfailure hfind hc

end Named

/-- A call whose name stands for no class. -/
theorem Keeps.unnamed (h : Keeps env past s) (hname : call.name? = some name)
    (hnone : ∀ plain, ¬ StandsFor name plain) :
    Keeps env (past ++ [call.exchange env s]) (call.exchange env s).after ∧
      Lawful env past (call.exchange env s) := by
  have helement : ClassName.element? name = none := by
    cases helement : ClassName.element? name with
    | none => rfl
    | some plain => exact absurd (element?_eq_some_iff.mp helement) (hnone plain)
  rw [exchange_unnamed hname helement]
  have hother : ∀ given plain, call.name? = some given → ¬ StandsFor given plain := by
    intro given plain hgiven
    rw [hname] at hgiven
    injection hgiven with hgiven
    exact hgiven ▸ hnone plain
  obtain ⟨hasked, -⟩ := Exchange.quiet (e := ⟨call, s, .resolved none, s⟩) env rfl
  refine ⟨h.quiet rfl hname rfl rfl rfl ?_ h.nodup rfl, ?_⟩
  · intro p
    refine ⟨Or.inl, ?_⟩
    rintro (hold | ⟨location, given, plain, hcall, hstands, -⟩)
    · exact hold
    · have hcall : call = .resolveAt location given := hcall
      exact absurd hstands (hother given plain (by rw [hcall]; rfl))
  · refine
      { single := by rw [hasked]; exact Nat.zero_le _
        stripped := by rw [hasked]; intro plain hmem; cases hmem
        nameless := fun _ _ _ => ⟨rfl, rfl⟩
        remembered := ?_
        silent := ?_
        asks := fun given plain _ hgiven hstands => absurd hstands (hother given plain hgiven)
        taken := ?_ }
    · intro plain answer _
      refine ⟨by rw [hasked]; exact List.not_mem_nil, ?_⟩
      intro given hgiven hstands
      exact absurd hstands (hother given plain hgiven)
    · intro failure _
      exact ⟨hasked, rfl, fun given plain hgiven hstands =>
        absurd hstands (hother given plain hgiven)⟩
    · intro hcall
      have hcall : call = .takeFailure := hcall
      rw [hcall] at hname
      cases hname

/-- The failure is taken. -/
theorem Keeps.taken (h : Keeps env past s) :
    Keeps env (past ++ [SessionCall.takeFailure.exchange env s])
        (SessionCall.takeFailure.exchange env s).after ∧
      Lawful env past (SessionCall.takeFailure.exchange env s) := by
  have hexchange : SessionCall.takeFailure.exchange env s =
      ⟨.takeFailure, s, .taken s.failure, { s with failure := none }⟩ := rfl
  rw [hexchange]
  obtain ⟨hasked, hanswers, -⟩ := Exchange.quiet
    (e := ⟨.takeFailure, s, .taken s.failure, { s with failure := none }⟩) env rfl
  refine ⟨h.concat ?_ h.distinct ?_ ?_ h.nodup rfl, ?_⟩
  · rw [hanswers, List.append_nil]
  · rw [pending_concat_taken rfl]
  · intro p
    refine ⟨Or.inl, ?_⟩
    rintro (hold | ⟨location, name, plain, hcall, -⟩)
    · exact hold
    · cases hcall
  · refine
      { single := by rw [hasked]; exact Nat.zero_le _
        stripped := by rw [hasked]; intro plain hmem; cases hmem
        nameless := fun name hname => by cases hname
        remembered := ?_
        silent := fun _ _ => ⟨hasked, rfl, fun name plain hname => by cases hname⟩
        asks := fun name plain _ hname => by cases hname
        taken := ?_ }
    · intro plain answer _
      refine ⟨by rw [hasked]; exact List.not_mem_nil, ?_⟩
      intro name hname
      cases hname
    · intro _
      exact ⟨hasked, congrArg SessionReply.taken h.failure, rfl⟩

/-- Whatever is called for, the call is lawful, and the session keeps what came of it. -/
theorem Keeps.exchange (h : Keeps env past s) (hpath : env.classpath ≠ []) (call : SessionCall) :
    Keeps env (past ++ [call.exchange env s]) (call.exchange env s).after ∧
      Lawful env past (call.exchange env s) := by
  cases hname : call.name? with
  | none =>
      cases call with
      | takeFailure => exact h.taken
      | resolve name => cases hname
      | resolveAt location name => cases hname
  | some name =>
      by_cases hplain : ∃ plain, StandsFor name plain
      · obtain ⟨plain, hplain⟩ := hplain
        exact h.named hname hplain hpath
      · exact h.unnamed hname (not_exists.mp hplain)

end Linkage

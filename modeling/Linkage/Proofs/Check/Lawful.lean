import Linkage.Proofs.Check.Calls

/-!
# What a session keeps

After some calls a session knows what the class path has answered, has the failure that is pending, and
has reported what was missed. A call after them is lawful if it goes by just that.

* **`Keeps`** — what a session knows, has pending and has reported after some calls;
* **`Lawful`** — what can be said of a call after others;
* **`Concluded`**, **`concluded`** — what a call adds to what its look-up leaves;
* **`Keeps.concat`**, **`Lawful.named`** — what has to be known of a call for the one and the other.
-/

namespace Linkage

/-- What a session knows, has pending and has reported after some calls. -/
structure Keeps (env : Setting) (past : List Exchange) (s : Session) : Prop where
  known : s.known.entries = answers env past
  distinct : s.known.Distinct
  failure : s.failure = pending env past
  problems : ∀ p, p ∈ s.problems ↔ ∃ before e, before ++ [e] <+: past ∧ Reports env before e p
  nodup : s.problems.Nodup
  warnings : s.warnings = []

/-- What can be said of a call after others. -/
structure Lawful (env : Setting) (past : List Exchange) (e : Exchange) : Prop where
  /-- At most one name is asked for, that of the class that the name given stands for. -/
  single : e.asked.length ≤ 1
  stripped : ∀ plain ∈ e.asked, ∃ name, e.call.name? = some name ∧ StandsFor name plain
  /-- A name that stands for no class, such as that of an array of numbers, is not found. -/
  nameless : ∀ name, e.call.name? = some name → (∀ plain, ¬ StandsFor name plain) →
    e.reply = .resolved none ∧ e.after = e.before
  /-- A name that has been answered is not asked for again, and the answer stays. -/
  remembered : ∀ plain answer, (plain, answer) ∈ answers env past →
    plain ∉ e.asked ∧
      ∀ name, e.call.name? = some name → StandsFor name plain → e.reply = .resolved answer
  /-- While a failure is pending, nothing is asked, nothing is reported, and a name that has not been
  answered is not found. -/
  silent : ∀ failure, pending env past = some failure →
    e.asked = [] ∧ e.after.problems = e.before.problems ∧
      ∀ name plain, e.call.name? = some name → StandsFor name plain →
        plain ∉ (answers env past).map (·.1) → e.reply = .resolved none
  /-- Else a name that has not been answered is asked for, and the reply is what the class path says. -/
  asks : ∀ name plain, pending env past = none → e.call.name? = some name → StandsFor name plain →
    plain ∉ (answers env past).map (·.1) →
    ∃ response, e.responses env = [(plain, response)] ∧
      e.reply = .resolved (response.toOption.bind id)
  /-- The failure that is pending is the one that is taken, and it is so once. -/
  taken : e.call = .takeFailure →
    e.asked = [] ∧ e.reply = .taken (pending env past) ∧ e.after.failure = none

variable {env : Setting} {s : Session} {past : List Exchange} {call : SessionCall}
  {name plain : String}

theorem answers_concat (env : Setting) (past : List Exchange) (e : Exchange) :
    answers env (past ++ [e]) = answers env past ++ e.answers env := by
  unfold answers
  rw [List.flatMap_append, List.flatMap_singleton]

theorem pending_concat_named {e : Exchange} (h : e.call.name? = some name) :
    pending env (past ++ [e]) = (e.failure? env).or (pending env past) := by
  unfold pending
  rw [List.foldl_append, List.foldl_cons, List.foldl_nil]
  cases hcall : e.call with
  | takeFailure => rw [hcall] at h; cases h
  | resolve _ => rfl
  | resolveAt _ _ => rfl

theorem pending_concat_taken {e : Exchange} (h : e.call = .takeFailure) :
    pending env (past ++ [e]) = none := by
  unfold pending
  rw [List.foldl_append, List.foldl_cons, List.foldl_nil, h]

/-- A call concludes that a class is missing if it gives a location, the class is not external, and
there is no failure that might be the reason. -/
theorem conclude_cases (env : Setting) (call : SessionCall) (plain : String)
    (found : Option ClassDefinition) (s : Session) :
    (call.conclude env plain found s = s ∧ ∀ location name, call = .resolveAt location name →
        found = none → s.failure = none → env.external.covers plain = true) ∨
      ∃ location name, call = .resolveAt location name ∧ found = none ∧ s.failure = none ∧
        env.external.covers plain = false ∧
          call.conclude env plain found s = s.addProblem (.classNotFound plain location) := by
  unfold SessionCall.conclude
  split
  · next location name =>
      rw [missed_eq]
      cases hfailure : s.failure with
      | some failure => exact Or.inl ⟨rfl, fun _ _ _ _ hnone => by cases hnone⟩
      | none =>
          cases hcovers : env.external.covers plain with
          | true => exact Or.inl ⟨rfl, fun _ _ _ _ _ => rfl⟩
          | false => exact Or.inr ⟨location, name, rfl, rfl, rfl, rfl, rfl⟩
  · next hother =>
      exact Or.inl ⟨rfl, fun location name hcall hnone => absurd hnone (hother location name hcall)⟩

/-- The session that a call leaves, after a look-up that has found something or nothing. -/
structure Concluded (env : Setting) (call : SessionCall) (plain : String)
    (found : Option ClassDefinition) (left after : Session) : Prop where
  traffic : after.traffic = left.traffic
  known : after.known = left.known
  failure : after.failure = left.failure
  warnings : after.warnings = left.warnings
  problems : ∀ p, p ∈ after.problems ↔ p ∈ left.problems ∨
    found = none ∧ left.failure = none ∧ env.external.covers plain = false ∧
      ∃ location name, call = .resolveAt location name ∧ p = .classNotFound plain location
  nodup : left.problems.Nodup → after.problems.Nodup
  /-- While a failure is pending, nothing is said to be missing. -/
  silent : ∀ failure, left.failure = some failure → after = left

theorem concluded (env : Setting) (call : SessionCall) (plain : String)
    (found : Option ClassDefinition) (left : Session) :
    Concluded env call plain found left (call.conclude env plain found left) := by
  rcases conclude_cases env call plain found left with
    ⟨hsame, hnot⟩ | ⟨location, name, hcall, hfound, hfailure, hcovers, hadded⟩
  · rw [hsame]
    refine ⟨rfl, rfl, rfl, rfl, ?_, fun hnodup => hnodup, fun _ _ => rfl⟩
    intro p
    refine ⟨Or.inl, ?_⟩
    rintro (hold | ⟨hfound, hfailure, hcovers, location, name, hcall, -⟩)
    · exact hold
    · rw [hnot location name hcall hfound hfailure] at hcovers
      cases hcovers
  · rw [hadded]
    refine ⟨rfl, rfl, rfl, rfl, ?_, fun hnodup => nodup_insertNew hnodup _, ?_⟩
    · intro p
      show p ∈ insertNew left.problems _ ↔ _
      rw [mem_insertNew]
      constructor
      · rintro (hold | rfl)
        · exact Or.inl hold
        · exact Or.inr ⟨hfound, hfailure, hcovers, location, name, hcall, rfl⟩
      · rintro (hold | ⟨-, -, -, location', name', hcall', rfl⟩)
        · exact Or.inl hold
        · rw [hcall] at hcall'
          injection hcall' with hlocation
          exact Or.inr (hlocation ▸ rfl)
    · intro failure hpending
      rw [hfailure] at hpending
      cases hpending

/-- Without a question there is no answer and no failure. -/
theorem Exchange.quiet {e : Exchange} (env : Setting) (h : e.after.traffic = e.before.traffic) :
    e.asked = [] ∧ e.answers env = [] ∧ e.failure? env = none := by
  have hasked : e.asked = [] := by
    unfold asked Session.asked
    rw [h]
    exact List.drop_length
  unfold answers failure? responses
  rw [hasked]
  exact ⟨rfl, rfl, rfl⟩

/-- With a question there is a response. -/
theorem Exchange.questioned {e : Exchange} (hpath : env.classpath ≠ []) (plain : String)
    (h : e.after.traffic = (env.classpath.find plain e.before.traffic).2) :
    e.asked = [plain] ∧ e.responses env =
      [(plain, (env.classpath.find plain e.before.traffic).1.map (·.map (·.1)))] := by
  have hasked : e.asked = [plain] := by
    unfold asked Session.asked
    rw [h, asked_find hpath]
    exact List.drop_left
  unfold responses
  rw [hasked]
  exact ⟨rfl, rfl⟩

/-- With a question that is answered there is an answer. -/
theorem Exchange.answered {e : Exchange} (hpath : env.classpath ≠ [])
    {answer : Option (ClassDefinition × Origin)}
    (hfind : env.classpath.find plain e.before.traffic = (.ok answer, e.after.traffic)) :
    e.asked = [plain] ∧ e.responses env = [(plain, .ok (answer.map (·.1)))] ∧
      e.answers env = [(plain, answer.map (·.1))] ∧ e.failure? env = none := by
  obtain ⟨hasked, hresponses⟩ := questioned hpath plain (by rw [hfind])
  rw [hfind] at hresponses
  unfold answers failure?
  rw [hresponses]
  exact ⟨hasked, rfl, rfl, rfl⟩

/-- With a question that fails there is a failure. -/
theorem Exchange.failed {e : Exchange} (hpath : env.classpath ≠ []) {failure : LookupFailure}
    (hfind : env.classpath.find plain e.before.traffic = (.error failure, e.after.traffic)) :
    e.asked = [plain] ∧ e.responses env = [(plain, .error failure)] ∧
      e.answers env = [] ∧ e.failure? env = some failure := by
  obtain ⟨hasked, hresponses⟩ := questioned hpath plain (by rw [hfind])
  rw [hfind] at hresponses
  unfold answers failure?
  rw [hresponses]
  exact ⟨hasked, rfl, rfl, rfl⟩

/-- A session keeps what it has kept, and in addition what a call has brought about. -/
theorem Keeps.concat (h : Keeps env past s) {e : Exchange}
    (hknown : e.after.known.entries = s.known.entries ++ e.answers env)
    (hdistinct : e.after.known.Distinct) (hfailure : e.after.failure = pending env (past ++ [e]))
    (hproblems : ∀ p, p ∈ e.after.problems ↔ p ∈ s.problems ∨ Reports env past e p)
    (hnodup : e.after.problems.Nodup) (hwarnings : e.after.warnings = s.warnings) :
    Keeps env (past ++ [e]) e.after := by
  refine ⟨?_, hdistinct, hfailure, ?_, hnodup, hwarnings.trans h.warnings⟩
  · rw [hknown, h.known, answers_concat]
  · intro p
    rw [hproblems, h.problems]
    constructor
    · rintro (⟨before, x, hprefix, hreports⟩ | hreports)
      · exact ⟨before, x, hprefix.trans (List.prefix_append ..), hreports⟩
      · exact ⟨past, e, List.prefix_rfl, hreports⟩
    · rintro ⟨before, x, hprefix, hreports⟩
      rcases List.prefix_concat_iff.mp hprefix with heq | hprefix
      · obtain ⟨rfl, hx⟩ := List.append_inj' heq rfl
        injection hx with hx
        subst hx
        exact Or.inr hreports
      · exact Or.inl ⟨before, x, hprefix, hreports⟩

namespace Keeps

theorem get?_iff (h : Keeps env past s) {answer : Option ClassDefinition} :
    s.known.get? plain = some answer ↔ (plain, answer) ∈ answers env past := by
  rw [← h.known]
  exact ⟨Table.mem_of_get?, Table.get?_of_mem h.distinct⟩

theorem new_iff (h : Keeps env past s) :
    s.known.get? plain = none ↔ plain ∉ (answers env past).map (·.1) := by
  rw [← h.known]
  exact Table.get?_eq_none_iff

/-- When a name stands for a class, its call reports the class if it is missing. -/
theorem reports_iff {e : Exchange} (hname : e.call.name? = some name) (hplain : StandsFor name plain)
    (p : Problem) :
    Reports env past e p ↔ (plain, none) ∈ answers env (past ++ [e]) ∧ pending env past = none ∧
      env.external.covers plain = false ∧
        ∃ location name, e.call = .resolveAt location name ∧ p = .classNotFound plain location := by
  constructor
  · rintro ⟨location, given, other, hcall, hother, hanswer, hcovers, hpending, rfl⟩
    have hgiven : given = name := by
      rw [hcall] at hname
      injection hname
    subst hgiven
    rw [hplain.unique hother] at hanswer hcovers ⊢
    exact ⟨hanswer, hpending, hcovers, location, given, hcall, rfl⟩
  · rintro ⟨hanswer, hpending, hcovers, location, given, hcall, rfl⟩
    have hgiven : given = name := by
      rw [hcall] at hname
      injection hname
    subst hgiven
    exact ⟨location, given, plain, hcall, hplain, hanswer, hcovers, hpending, rfl⟩

/-- A call that asks for nothing leaves what is kept as it is, apart from what it reports. -/
theorem quiet (h : Keeps env past s) {e : Exchange} (hbefore : e.before = s)
    (hname : e.call.name? = some name) (htraffic : e.after.traffic = s.traffic)
    (hknown : e.after.known = s.known) (hfailure : e.after.failure = s.failure)
    (hproblems : ∀ p, p ∈ e.after.problems ↔ p ∈ s.problems ∨ Reports env past e p)
    (hnodup : e.after.problems.Nodup) (hwarnings : e.after.warnings = s.warnings) :
    Keeps env (past ++ [e]) e.after := by
  subst hbefore
  obtain ⟨-, hanswers, hnone⟩ := Exchange.quiet env htraffic
  refine h.concat ?_ ?_ ?_ hproblems hnodup hwarnings
  · rw [hknown, hanswers, List.append_nil]
  · rw [hknown]
    exact h.distinct
  · rw [pending_concat_named hname, hnone, Option.none_or, hfailure, h.failure]

end Keeps

/-- A call that gives the name of a class is lawful if what it asks for and replies goes by what has
been answered and what is pending. -/
theorem Lawful.named {e : Exchange} (hname : e.call.name? = some name) (hplain : StandsFor name plain)
    (hasked : e.asked = [] ∨
      e.asked = [plain] ∧ plain ∉ (answers env past).map (·.1) ∧ pending env past = none)
    (hremembered : ∀ answer, (plain, answer) ∈ answers env past → e.reply = .resolved answer)
    (hsilent : ∀ failure, pending env past = some failure →
      e.after.problems = e.before.problems ∧
        (plain ∉ (answers env past).map (·.1) → e.reply = .resolved none))
    (hasks : pending env past = none → plain ∉ (answers env past).map (·.1) →
      ∃ response, e.responses env = [(plain, response)] ∧
        e.reply = .resolved (response.toOption.bind id)) :
    Lawful env past e where
  single := by
    rcases hasked with h | ⟨h, -⟩
    · rw [h]
      exact Nat.zero_le _
    · rw [h]
      exact Nat.le_refl _
  stripped := by
    intro asked hmem
    rcases hasked with h | ⟨h, -⟩
    · rw [h] at hmem
      cases hmem
    · rw [h, List.mem_singleton] at hmem
      subst hmem
      exact ⟨name, hname, hplain⟩
  nameless := by
    intro given hgiven hnone
    rw [hname] at hgiven
    injection hgiven with hgiven
    subst hgiven
    exact absurd hplain (hnone plain)
  remembered := by
    intro other answer hanswer
    refine ⟨?_, ?_⟩
    · intro hmem
      rcases hasked with h | ⟨h, hnew, -⟩
      · rw [h] at hmem
        cases hmem
      · rw [h, List.mem_singleton] at hmem
        subst hmem
        exact hnew (List.mem_map_of_mem hanswer)
    · intro given hgiven hother
      rw [hname] at hgiven
      injection hgiven with hgiven
      subst hgiven
      rw [hplain.unique hother] at hanswer
      exact hremembered answer hanswer
  silent := by
    intro failure hpending
    refine ⟨?_, (hsilent failure hpending).1, ?_⟩
    · rcases hasked with h | ⟨-, -, hnone⟩
      · exact h
      · rw [hpending] at hnone
        cases hnone
    · intro given other hgiven hother hnew
      rw [hname] at hgiven
      injection hgiven with hgiven
      subst hgiven
      rw [hplain.unique hother] at hnew
      exact (hsilent failure hpending).2 hnew
  asks := by
    intro given other hpending hgiven hother hnew
    rw [hname] at hgiven
    injection hgiven with hgiven
    subst hgiven
    rw [hplain.unique hother] at hnew ⊢
    exact hasks hpending hnew
  taken := by
    intro hcall
    rw [hcall] at hname
    cases hname

end Linkage

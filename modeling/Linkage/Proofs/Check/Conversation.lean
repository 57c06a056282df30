import Linkage.Proofs.Check.OneCall

/-!
# What a session remembers

What one call preserves, all calls do. The calls are made on a class path with a watcher in front, so
that what is asked of it can be read off, whatever its layers are.

* **`Keeps.conversation`** — all calls of a conversation are lawful, and the session keeps what comes of
  them;
* **`conversation_watched`** — a watcher changes nothing but what it is asked;
* **`ConversationLaws`**, **`conversationLaws`** — what can be said of every conversation, on every class
  path.
-/

namespace Linkage

/-! ## All calls -/

theorem keeps_start (env : Setting) : Keeps env [] (Session.start env) where
  known := rfl
  distinct := List.nodup_nil
  failure := rfl
  problems p := by
    constructor
    · intro h
      cases h
    · rintro ⟨before, e, hprefix, -⟩
      exact absurd (List.prefix_nil.mp hprefix) (by simp)
  nodup := List.nodup_nil
  warnings := rfl

/-- Calls after others are lawful as those are. -/
theorem Keeps.conversation {env : Setting} (hpath : env.classpath ≠ []) {past : List Exchange}
    {s : Session} (h : Keeps env past s)
    (hlawful : ∀ before e, before ++ [e] <+: past → Lawful env before e) (calls : List SessionCall) :
    Keeps env (past ++ (Linkage.conversation env calls s).1) (Linkage.conversation env calls s).2 ∧
      ∀ before e, before ++ [e] <+: past ++ (Linkage.conversation env calls s).1 →
        Lawful env before e := by
  induction calls generalizing past s with
  | nil =>
      show Keeps env (past ++ []) s ∧ ∀ before e, before ++ [e] <+: past ++ [] → _
      rw [List.append_nil]
      exact ⟨h, hlawful⟩
  | cons call rest ih =>
      obtain ⟨hkeeps, hcall⟩ := h.exchange hpath call
      have hnext := ih hkeeps (by
        intro before e hprefix
        rcases List.prefix_concat_iff.mp hprefix with heq | hprefix
        · obtain ⟨rfl, he⟩ := List.append_inj' heq rfl
          injection he with he
          exact he ▸ hcall
        · exact hlawful before e hprefix)
      rw [List.append_assoc] at hnext
      exact hnext

/-! ## Watched class paths -/

/-- A layer that holds nothing and never fails: all it does is be asked. -/
def Layer.watcher : Layer := ⟨.plugin, .reliable ⟨"", []⟩⟩

/-- The same setting, with a watcher in front of the class path. -/
def Setting.watched (env : Setting) : Setting :=
  { env with classpath := Layer.watcher :: env.classpath }

/-- The session without the watcher. -/
def Session.unwatched (s : Session) : Session := { s with traffic := s.traffic.tail }

def Exchange.unwatched (e : Exchange) : Exchange :=
  ⟨e.call, e.before.unwatched, e.reply, e.after.unwatched⟩

section Watched

variable (env : Setting) (s : Session)

theorem find_watched (name : String) (traffic : Traffic) :
    env.watched.classpath.find name traffic =
      ((env.classpath.find name traffic.tail).1,
        (traffic.headD [] ++ [name]) :: (env.classpath.find name traffic.tail).2) := rfl

/-- The watcher changes nothing but what it is asked. -/
theorem lookup_watched (name : String) :
    s.unwatched.lookup env name =
      ((s.lookup env.watched name).1, (s.lookup env.watched name).2.unwatched) := by
  obtain ⟨traffic, known, failure, problems, warnings⟩ := s
  unfold Session.lookup Session.unwatched
  simp only
  rw [find_watched]
  cases known.get? name with
  | some answer => rfl
  | none =>
      cases failure with
      | some failure => rfl
      | none =>
          rcases env.classpath.find name traffic.tail with ⟨failure | answer, traffic'⟩
          · rfl
          · rfl

theorem conclude_watched (call : SessionCall) (plain : String) (found : Option ClassDefinition) :
    call.conclude env plain found s.unwatched = (call.conclude env.watched plain found s).unwatched := by
  unfold SessionCall.conclude
  split
  · rw [missed_eq, missed_eq]
    show (if (s.failure.isNone && !env.external.covers plain) = true then _ else _) =
      (if (s.failure.isNone && !env.external.covers plain) = true then _ else _ : Session).unwatched
    split
    · rfl
    · rfl
  · rfl

theorem exchange_watched (call : SessionCall) :
    call.exchange env s.unwatched = (call.exchange env.watched s).unwatched := by
  cases hname : call.name? with
  | none =>
      cases call with
      | takeFailure => rfl
      | resolve name => cases hname
      | resolveAt location name => cases hname
  | some name =>
      cases hplain : ClassName.element? name with
      | none =>
          rw [exchange_unnamed hname hplain, exchange_unnamed hname hplain]
          rfl
      | some plain =>
          rw [exchange_named hname hplain, exchange_named hname hplain, lookup_watched,
            conclude_watched]
          rfl

theorem conversation_watched (calls : List SessionCall) :
    conversation env calls s.unwatched =
      ((conversation env.watched calls s).1.map Exchange.unwatched,
        (conversation env.watched calls s).2.unwatched) := by
  induction calls generalizing s with
  | nil => rfl
  | cons call rest ih =>
      have hrest := ih (call.exchange env.watched s).after
      unfold conversation
      rw [exchange_watched]
      show ((call.exchange env.watched s).unwatched ::
        (conversation env rest (call.exchange env.watched s).after.unwatched).1,
        (conversation env rest (call.exchange env.watched s).after.unwatched).2) = _
      rw [hrest]
      rfl

end Watched

/-! ## The laws of conversations -/

/-- What can be said of calls to a session that starts afresh, on a class path that is watched. -/
structure ConversationLaws (env : Setting) (calls : List SessionCall) (history : List Exchange)
    (s : Session) : Prop where
  /-- That the class path is watched changes nothing. -/
  same : conversation env calls (.start env) = (history.map Exchange.unwatched, s.unwatched)
  /-- Every call is lawful, after those before it. -/
  lawful : ∀ past e, past ++ [e] <+: history → Lawful env.watched past e
  /-- The classes that are reported are the ones that were missed, each once for each location. -/
  problems : ∀ p, p ∈ s.problems ↔ ∃ past e, past ++ [e] <+: history ∧ Reports env.watched past e p
  nodup : s.problems.Nodup
  warnings : s.warnings = []
  /-- As many names are known as the class path has answered. -/
  size : s.known.size = (distinct ((answers env.watched history).map (·.1))).length
  pending : s.failure = pending env.watched history

/-- Whatever the class path answers and wherever it fails, conversations obey the laws. -/
theorem conversationLaws (env : Setting) (calls : List SessionCall) :
    ConversationLaws env calls (conversation env.watched calls (.start env.watched)).1
      (conversation env.watched calls (.start env.watched)).2 := by
  obtain ⟨hkeeps, hlawful⟩ := (keeps_start env.watched).conversation (List.cons_ne_nil _ _)
    (fun before e hprefix => absurd (List.prefix_nil.mp hprefix) (by simp)) calls
  rw [List.nil_append] at hkeeps hlawful
  refine
    { same := conversation_watched env (.start env.watched) calls
      lawful := hlawful
      problems := hkeeps.problems
      nodup := hkeeps.nodup
      warnings := hkeeps.warnings
      size := ?_
      pending := hkeeps.failure }
  have hnames : ((answers env.watched
      (conversation env.watched calls (.start env.watched)).1).map (·.1)).Nodup := by
    rw [← hkeeps.known]
    exact hkeeps.distinct
  rw [distinct_of_nodup hnames, ← hkeeps.known, List.length_map]
  rfl

end Linkage

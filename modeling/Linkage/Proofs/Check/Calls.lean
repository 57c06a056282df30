import Linkage.Proofs.Check.Regular
import Linkage.Proofs.Table

/-!
# Calls to a session

A session is asked for one class after the other, with and without a report when there is none, and its
failure is taken from it in between. What it asks the class path is what the front layer is asked.

* **`StandsFor`**, **`element?_eq_some_iff`** — the class that a name stands for, also that of an array;
* **`conversation`** — calls to a session in turn, each with the session before and after it;
* **`answers`**, **`pending`** — what the class path has answered in the course of some calls, and the
  failure that has not been taken since;
* **`exchange_named`**, **`exchange_unnamed`** — a call looks a name up, and then says what is missing;
* **`LooksUp`**, **`looksUp_lookup`** — the four things that a look-up can do.
-/

namespace Linkage

/-! ## Names of arrays -/

/-- A name stands for a class: it is the name of the class, or of an array of any depth of it. -/
def StandsFor (name plain : String) : Prop :=
  (name.toList.head? ≠ some '[' ∧ plain = name) ∨
    ∃ depth, name.toList = List.replicate (depth + 1) '[' ++ 'L' :: (plain.toList ++ [';'])

/-- Characters of one kind at the beginning of a text. -/
theorem eq_replicate_append_dropWhile (a : Char) (xs : List Char) :
    ∃ depth, xs = List.replicate depth a ++ xs.dropWhile (· = a) := by
  induction xs with
  | nil => exact ⟨0, rfl⟩
  | cons x rest ih =>
      by_cases hx : x = a
      · obtain ⟨depth, hrest⟩ := ih
        refine ⟨depth + 1, ?_⟩
        rw [List.dropWhile_cons_of_pos (by simpa using hx), List.replicate_succ, List.cons_append,
          ← hrest, hx]
      · exact ⟨0, by rw [List.dropWhile_cons_of_neg (by simpa using hx)]; rfl⟩

theorem element?_eq_some_iff {name plain : String} :
    ClassName.element? name = some plain ↔ StandsFor name plain := by
  unfold ClassName.element? StandsFor
  split
  · next rest hname =>
      rw [hname]
      simp only [List.head?_cons, ne_eq, not_true_eq_false, false_and, false_or]
      constructor
      · intro h
        split at h
        · next body hbody =>
            split at h
            · next hlast =>
                -- the body of the name is what stands between `L` and the last `;`
                obtain ⟨depth, hrest⟩ := eq_replicate_append_dropWhile '[' rest
                refine ⟨depth, ?_⟩
                have hplain : plain.toList = body.dropLast := by
                  injection h with h
                  rw [← h, String.toList_ofList]
                rw [hplain, List.dropLast_append_getLast? _ hlast, List.replicate_succ,
                  List.cons_append, ← hbody, ← hrest]
            · cases h
        · cases h
      · rintro ⟨depth, h⟩
        rw [List.replicate_succ, List.cons_append, List.cons.injEq] at h
        have hdrop : rest.dropWhile (· = '[') = 'L' :: (plain.toList ++ [';']) := by
          rw [h.2, List.dropWhile_append_of_pos (by simp), List.dropWhile_cons_of_neg (by decide)]
        rw [hdrop]
        simp
  · next hname =>
      constructor
      · intro h
        injection h with h
        refine Or.inl ⟨?_, h.symm⟩
        intro hhead
        obtain ⟨rest, hrest⟩ := List.head?_eq_some_iff.mp hhead
        exact hname rest hrest
      · rintro (⟨-, rfl⟩ | ⟨depth, h⟩)
        · rfl
        · exact absurd h (hname _)

/-- A name stands for one class at most. -/
theorem StandsFor.unique {name plain plain' : String} (h : StandsFor name plain)
    (h' : StandsFor name plain') : plain' = plain := by
  have hsame := (element?_eq_some_iff.mpr h').symm.trans (element?_eq_some_iff.mpr h)
  injection hsame

/-! ## Calls -/

/-- What a session can be called for. -/
inductive SessionCall where
  | resolve (name : String)
  | resolveAt (location : Location) (name : String)
  | takeFailure

/-- What a session replies. -/
inductive SessionReply where
  | resolved (found : Option ClassDefinition)
  | taken (failure : Option LookupFailure)

namespace SessionCall

/-- The name that a call gives. -/
def name? : SessionCall → Option String
  | resolve name => some name
  | resolveAt _ name => some name
  | takeFailure => none

def run (env : Setting) : SessionCall → Check SessionReply
  | resolve name => SessionReply.resolved <$> Linkage.resolve env name
  | resolveAt location name => SessionReply.resolved <$> Linkage.resolveAt env location name
  | takeFailure => SessionReply.taken <$> Linkage.takeFailure

end SessionCall

/-- A call to a session, and what came of it. -/
structure Exchange where
  call : SessionCall
  before : Session
  reply : SessionReply
  after : Session

/-- A call to a session, with what comes of it. -/
def SessionCall.exchange (env : Setting) (call : SessionCall) (s : Session) : Exchange :=
  ⟨call, s, (call.run env s).1, (call.run env s).2⟩

/-- Calls to a session in turn, and the session in the end. -/
def conversation (env : Setting) : List SessionCall → Session → List Exchange × Session
  | [], s => ([], s)
  | call :: rest, s =>
    let e := call.exchange env s
    let (later, last) := conversation env rest e.after
    (e :: later, last)

/-- The names that the front layer of the class path has been asked for: it is asked for every name
that the class path is asked for. -/
def Session.asked (s : Session) : List String := s.traffic.headD []

namespace Exchange

/-- The names that the class path was asked for in the course of a call. -/
def asked (e : Exchange) : List String := e.after.asked.drop e.before.asked.length

/-- What the class path said to each of them. -/
def responses (env : Setting) (e : Exchange) :
    List (String × Except LookupFailure (Option ClassDefinition)) :=
  e.asked.map fun name => (name, (env.classpath.find name e.before.traffic).1.map (·.map (·.1)))

/-- What the class path answered in the course of a call, where it did not fail. -/
def answers (env : Setting) (e : Exchange) : List (String × Option ClassDefinition) :=
  (e.responses env).filterMap fun r => r.2.toOption.map (r.1, ·)

/-- How the class path failed in the course of a call. -/
def failure? (env : Setting) (e : Exchange) : Option LookupFailure :=
  (e.responses env).findSome? fun r =>
    match r.2 with
    | .error failure => some failure
    | .ok _ => none

end Exchange

/-- What the class path has answered in the course of some calls: what names are the names of. -/
def answers (env : Setting) (past : List Exchange) : List (String × Option ClassDefinition) :=
  past.flatMap (·.answers env)

/-- The failure that is pending after some calls: the last one that has not been taken since. -/
def pending (env : Setting) (past : List Exchange) : Option LookupFailure :=
  past.foldl (fun failure e =>
    match e.call with
    | .takeFailure => none
    | _ => (e.failure? env).or failure) none

/-- A call after others reports a problem: at the location it gives, its name stands for a class that is
not there, as the class path has answered by then; the class is not external, and no failure is
pending. -/
def Reports (env : Setting) (past : List Exchange) (e : Exchange) (p : Problem) : Prop :=
  ∃ location name plain, e.call = .resolveAt location name ∧ StandsFor name plain ∧
    (plain, none) ∈ answers env (past ++ [e]) ∧ env.external.covers plain = false ∧
    pending env past = none ∧ p = .classNotFound plain location

/-! ## The parts of a call -/

section Calls

variable {env : Setting} {s : Session} {call : SessionCall} {name plain : String}

theorem resolve_plain (hplain : ClassName.element? name = some plain) (s : Session) :
    resolve env name s = s.lookup env plain := by
  unfold resolve
  rw [hplain]

theorem resolveAt_plain (location : Location) (hplain : ClassName.element? name = some plain)
    (s : Session) :
    resolveAt env location name s =
      match (s.lookup env plain).1 with
      | some c => (some c, (s.lookup env plain).2)
      | none => missed env location plain (s.lookup env plain).2 := by
  unfold resolveAt
  rw [hplain]
  show (match (s.lookup env plain).1 with
    | some c => _
    | none => _ : Check (Option ClassDefinition)) (s.lookup env plain).2 = _
  cases (s.lookup env plain).1 with
  | some c => rfl
  | none => rfl

/-- What a call does with what it has found: it may say that the class is missing. -/
def SessionCall.conclude (env : Setting) (call : SessionCall) (plain : String)
    (found : Option ClassDefinition) (s : Session) : Session :=
  match call, found with
  | .resolveAt location _, none => (missed env location plain s).2
  | _, _ => s

/-- A call that gives a name looks it up, and then says what is missing. -/
theorem exchange_named (hname : call.name? = some name)
    (hplain : ClassName.element? name = some plain) (s : Session) :
    call.exchange env s = ⟨call, s, .resolved (s.lookup env plain).1,
      call.conclude env plain (s.lookup env plain).1 (s.lookup env plain).2⟩ := by
  cases call with
  | takeFailure => cases hname
  | resolve given =>
      injection hname with hname
      subst hname
      show Exchange.mk _ _ (.resolved (resolve env given s).1) (resolve env given s).2 = _
      rw [resolve_plain hplain]
      rfl
  | resolveAt location given =>
      injection hname with hname
      subst hname
      show Exchange.mk _ _ (.resolved (resolveAt env location given s).1)
        (resolveAt env location given s).2 = _
      rw [resolveAt_plain location hplain]
      cases (s.lookup env plain).1 with
      | some c => rfl
      | none => simp only [missed_eq, SessionCall.conclude]

/-- A call whose name stands for no class does nothing. -/
theorem exchange_unnamed (hname : call.name? = some name)
    (hplain : ClassName.element? name = none) (s : Session) :
    call.exchange env s = ⟨call, s, .resolved none, s⟩ := by
  cases call with
  | takeFailure => cases hname
  | resolve given =>
      injection hname with hname
      subst hname
      show Exchange.mk _ _ (.resolved (resolve env given s).1) (resolve env given s).2 = _
      unfold resolve
      rw [hplain]
      rfl
  | resolveAt location given =>
      injection hname with hname
      subst hname
      show Exchange.mk _ _ (.resolved (resolveAt env location given s).1)
        (resolveAt env location given s).2 = _
      unfold resolveAt
      rw [hplain]
      rfl

end Calls

/-! ## Questions to the class path -/

section Questions

variable {env : Setting} {s : Session} {call : SessionCall} {name plain : String}

variable (env s plain) in
/-- What a look-up can do: answer from memory, give up while a failure is pending, and put a question
to the class path, which answers or fails. -/
inductive LooksUp : Option ClassDefinition → Session → Prop where
  | remembered {answer : Option ClassDefinition} (hknown : s.known.get? plain = some answer) :
      LooksUp answer s
  | givenUp {failure : LookupFailure} (hnew : s.known.get? plain = none)
      (hfailure : s.failure = some failure) : LooksUp none s
  | answered {answer : Option (ClassDefinition × Origin)} {traffic : Traffic}
      (hnew : s.known.get? plain = none) (hfailure : s.failure = none)
      (hfind : env.classpath.find plain s.traffic = (.ok answer, traffic)) :
      LooksUp (answer.map (·.1))
        { s with traffic := traffic, known := s.known.put plain (answer.map (·.1)) }
  | failed {failure : LookupFailure} {traffic : Traffic}
      (hnew : s.known.get? plain = none) (hfailure : s.failure = none)
      (hfind : env.classpath.find plain s.traffic = (.error failure, traffic)) :
      LooksUp none { s with traffic := traffic, failure := some failure }

theorem looksUp_lookup (env : Setting) (s : Session) (plain : String) :
    LooksUp env s plain (s.lookup env plain).1 (s.lookup env plain).2 := by
  unfold Session.lookup
  cases hknown : s.known.get? plain with
  | some answer => exact .remembered hknown
  | none =>
      simp only
      split
      · next hfailure =>
          obtain ⟨failure, hfailure⟩ := Option.isSome_iff_exists.mp hfailure
          exact .givenUp hknown hfailure
      · next hfailure =>
          have hnone : s.failure = none := by simpa using hfailure
          rcases hfind : env.classpath.find plain s.traffic with ⟨failure | answer, traffic⟩
          · exact .failed hknown hnone hfind
          · exact .answered hknown hnone hfind

/-- The front layer of a class path is asked for whatever the class path is asked for. -/
theorem asked_find {path : Classpath} (h : path ≠ []) (name : String) (traffic : Traffic) :
    (path.find name traffic).2.headD [] = traffic.headD [] ++ [name] := by
  cases path with
  | nil => exact absurd rfl h
  | cons layer rest =>
      unfold Classpath.find
      simp only
      split
      · rfl
      · split
        · rfl
        · rfl

end Questions

end Linkage

import Linkage.Service.RecheckSystem
import Linkage.Proofs.Table

/-!
# Rounds that nothing comes between

* **`GoesTo`**, **`Reaches`** — how a round goes on by itself, and what it comes to;
* **`reaches_submit`** — the steps of a round for one request do what `Recheck.submit` says;
* **`reaches_round`** — those of a whole round do what `Recheck.round` says;
* **`hears`** — the steps of what hears of a task do what `Recheck.hear` says.
-/

namespace Linkage.RecheckSystem

variable {s s' s'' : RecheckSystem} {round : Nat}

/-- A round goes on from one system to the other, and nothing comes between. -/
def GoesTo (round : Nat) (s s' : RecheckSystem) : Prop :=
  ∃ times, s.run (.replicate times (.advance round)) = s'

theorem GoesTo.refl (round : Nat) (s : RecheckSystem) : GoesTo round s s := ⟨0, rfl⟩

theorem GoesTo.trans (h : GoesTo round s s') (h' : GoesTo round s' s'') : GoesTo round s s'' := by
  obtain ⟨times, rfl⟩ := h
  obtain ⟨times', rfl⟩ := h'
  refine ⟨times + times', ?_⟩
  rw [List.replicate_add]
  exact List.foldl_append

theorem GoesTo.advance {r : RecheckRound} (hr : s.rounds.get? round = some r) :
    GoesTo round s (s.advance round r) := by
  refine ⟨1, ?_⟩
  show s.step (.advance round) = _
  simp only [step, hr]

@[simp] theorem get?_move (s : RecheckSystem) (round : Nat) (r : RecheckRound) :
    (s.move round r).rounds.get? round = some r := by
  show (s.rounds.put round r).get? round = some r
  rw [Table.get?_put, if_pos rfl]

/-- What a round comes to with a request: what is left, and how many it has submitted. -/
def after (n : Nat) (left : List VerificationRequest) : TaskResult Bool → RecheckRound
  | .ok submitted => ⟨.testing left, n + submitted.toNat⟩
  | .error _ => ⟨.testing [], n⟩

/-- A round has come on to `r`, with a re-check and a queue, and nothing has come between. -/
def Reaches (s : RecheckSystem) (round : Nat) (r : RecheckRound) (recheck : Recheck)
    (queue : RequestQueue) : Prop :=
  ∃ s', GoesTo round s s' ∧ s'.tasks.now = s.tasks.now ∧ s'.recheck = recheck ∧
    s'.tasks.scheduler = queue ∧ s'.rounds.get? round = some r

/-- A step more, before the others. -/
theorem Reaches.of_advance {r r' : RecheckRound} {recheck : Recheck} {queue : RequestQueue}
    (hr : s.rounds.get? round = some r) (hnow : (s.advance round r).tasks.now = s.tasks.now)
    (h : (s.advance round r).Reaches round r' recheck queue) : s.Reaches round r' recheck queue := by
  obtain ⟨s', hgoes, hnow', hrest⟩ := h
  exact ⟨s', (GoesTo.advance hr).trans hgoes, hnow'.trans hnow, hrest⟩

theorem Reaches.refl {r : RecheckRound} (hr : s.rounds.get? round = some r) :
    s.Reaches round r s.recheck s.tasks.scheduler :=
  ⟨s, .refl round s, rfl, rfl, rfl, hr⟩

/-- The queue takes a request that a round has marked. -/
theorem reaches_accepted {request : VerificationRequest} {left : List VerificationRequest}
    {n id : Nat} (hr : s.rounds.get? round = some ⟨.submitting request left, n⟩)
    {queue : RequestQueue}
    (hput : RequestQueue.put s.tasks.scheduler s.tasks.now request (left.length + 1) true =
      (.ok id, queue)) :
    s.Reaches round ⟨.testing left, n + 1⟩
      { s.recheck with submitted := s.recheck.submitted.put id request.key } queue := by
  have hanswer : s.answer request (left.length + 1) = .ok id := congrArg Prod.fst hput
  have htasks : s.tasks.submit request.taskName (left.length + 1) request true =
      { s.tasks with scheduler := queue, active := s.tasks.active ++ [id] } := by
    unfold RequestQueue.put at hput
    unfold TaskSystem.submit
    rw [hput]
  have hadvance : s.advance round ⟨.submitting request left, n⟩ =
      (s.accept id request (left.length + 1)).move round ⟨.testing left, n + 1⟩ := by
    simp only [RecheckSystem.advance, hanswer]
  refine ⟨_, GoesTo.advance hr, ?_, ?_, ?_, ?_⟩ <;> rw [hadvance]
  · exact congrArg (·.now) htasks
  · rfl
  · exact congrArg (·.scheduler) htasks
  · exact get?_move _ _ _

/-- The queue takes no more, and the mark is taken away again. -/
theorem reaches_rejected {request : VerificationRequest} {left : List VerificationRequest} {n : Nat}
    (hr : s.rounds.get? round = some ⟨.submitting request left, n⟩) {e : TaskError}
    {queue : RequestQueue}
    (hput : RequestQueue.put s.tasks.scheduler s.tasks.now request (left.length + 1) true =
      (.error e, queue)) :
    s.Reaches round ⟨.testing [], n⟩ (s.recheck.retract request.key) queue := by
  have hanswer : s.answer request (left.length + 1) = .error e := congrArg Prod.fst hput
  have hqueue : queue = s.tasks.scheduler := by
    unfold RequestQueue.put Scheduler.submit at hput
    split at hput
    · exact (congrArg Prod.snd hput).symm
    · cases hput
  have hadvance : s.advance round ⟨.submitting request left, n⟩ =
      s.move round ⟨.retracting request, n⟩ := by
    simp only [RecheckSystem.advance, hanswer]
  refine Reaches.of_advance hr (by rw [hadvance]; rfl) ?_
  rw [hadvance, hqueue]
  exact .of_advance (get?_move _ _ _) rfl (.refl (get?_move _ _ _))

/-- A round that has found no result. -/
theorem reaches_marking {request : VerificationRequest} {left : List VerificationRequest} {n : Nat}
    (hr : s.rounds.get? round = some ⟨.marking request left, n⟩) {answer : TaskResult Bool}
    {recheck : Recheck} {queue : RequestQueue} (hmissing : s.recheck.isStored request.key = false)
    (hsubmit : Recheck.submit s.tasks.now s.recheck s.tasks.scheduler request (left.length + 1) =
      (answer, recheck, queue)) :
    s.Reaches round (after n left answer) recheck queue := by
  simp only [Recheck.submit, hmissing, Bool.false_eq_true, if_false] at hsubmit
  rcases hreserve : s.recheck.reserve request.key with ⟨granted, r⟩
  rw [hreserve] at hsubmit
  cases granted with
  | false =>
      have hadvance : s.advance round ⟨.marking request left, n⟩ =
          { s with recheck := r }.move round ⟨.testing left, n⟩ := by
        simp only [RecheckSystem.advance, hreserve]
      cases hsubmit
      refine .of_advance hr (by rw [hadvance]; rfl) ?_
      rw [hadvance]
      exact .refl (get?_move _ _ _)
  | true =>
      have hadvance : s.advance round ⟨.marking request left, n⟩ =
          { s with recheck := r }.move round ⟨.submitting request left, n⟩ := by
        simp only [RecheckSystem.advance, hreserve]
      refine .of_advance hr (by rw [hadvance]; rfl) ?_
      rw [hadvance]
      rcases hput : RequestQueue.put s.tasks.scheduler s.tasks.now request (left.length + 1) true with
        ⟨id | e, queue'⟩
      · simp only [hput] at hsubmit
        cases hsubmit
        exact reaches_rejected (get?_move _ _ _) hput
      · simp only [hput] at hsubmit
        cases hsubmit
        exact reaches_accepted (get?_move _ _ _) hput

/-- The steps of a round for one request. -/
theorem reaches_submit {request : VerificationRequest} {left : List VerificationRequest} {n : Nat}
    (hr : s.rounds.get? round = some ⟨.testing (request :: left), n⟩) {answer : TaskResult Bool}
    {recheck : Recheck} {queue : RequestQueue}
    (hsubmit : Recheck.submit s.tasks.now s.recheck s.tasks.scheduler request (left.length + 1) =
      (answer, recheck, queue)) :
    s.Reaches round (after n left answer) recheck queue := by
  refine .of_advance hr rfl ?_
  cases hstored : s.recheck.isStored request.key with
  | true =>
      simp only [Recheck.submit, hstored, if_true] at hsubmit
      cases hsubmit
      have hadvance : s.advance round ⟨.testing (request :: left), n⟩ =
          s.move round ⟨.testing left, n⟩ := by
        simp only [RecheckSystem.advance, hstored, if_true]
      rw [hadvance]
      exact .refl (get?_move _ _ _)
  | false =>
      have hadvance : s.advance round ⟨.testing (request :: left), n⟩ =
          s.move round ⟨.marking request left, n⟩ := by
        simp only [RecheckSystem.advance, hstored, Bool.false_eq_true, if_false]
      rw [hadvance]
      exact reaches_marking (get?_move _ _ _) hstored hsubmit

/-- The steps of a round for a plan. -/
theorem reaches_roundOver {plan : List VerificationRequest} {n : Nat}
    (hr : s.rounds.get? round = some ⟨.testing plan, n⟩) {submitted : Nat} {recheck : Recheck}
    {queue : RequestQueue}
    (hround : Recheck.roundOver s.tasks.now plan s.recheck s.tasks.scheduler =
      (submitted, recheck, queue)) :
    s.Reaches round ⟨.testing [], n + submitted⟩ recheck queue := by
  induction plan generalizing s n submitted recheck queue with
  | nil =>
      cases hround
      exact .refl hr
  | cons request left ih =>
      unfold Recheck.roundOver at hround
      rcases hsubmit : Recheck.submit s.tasks.now s.recheck s.tasks.scheduler request
        (left.length + 1) with ⟨answer, recheck', queue'⟩
      obtain ⟨s', hgoes, hnow, hrecheck, hqueue, hr'⟩ := reaches_submit hr hsubmit
      rw [hsubmit] at hround
      cases answer with
      | error e =>
          -- the queue accepts no more, and both rounds end here
          cases hround
          exact ⟨s', hgoes, hnow, hrecheck, hqueue, hr'⟩
      | ok taken =>
          rcases hrest : Recheck.roundOver s.tasks.now left recheck' queue' with ⟨m, recheck'', queue''⟩
          simp only [hrest] at hround
          cases hround
          rw [← hnow, ← hrecheck, ← hqueue] at hrest
          obtain ⟨s'', hgoes', hnow', hrecheck', hqueue', hr''⟩ := ih hr' hrest
          refine ⟨s'', hgoes.trans hgoes', hnow'.trans hnow, hrecheck', hqueue', ?_⟩
          rw [hr'']
          congr 2
          omega

/-- A round that nothing comes between does what `Recheck.round` says, for the plan as it is then. -/
theorem reaches_round (hr : s.rounds.get? round = none) :
    (s.step (.begin round s.recheck.plan)).Reaches round
      ⟨.testing [], (s.recheck.round s.tasks.now s.tasks.scheduler).1⟩
      (s.recheck.round s.tasks.now s.tasks.scheduler).2.1
      (s.recheck.round s.tasks.now s.tasks.scheduler).2.2 := by
  have hbegin : s.step (.begin round s.recheck.plan) =
      s.move round { stage := .testing s.recheck.plan } := by
    simp only [step, (Table.contains_eq_false _ _).mpr hr, Bool.false_eq_true, if_false]
  rw [hbegin]
  have hreaches := reaches_roundOver (get?_move s round { stage := .testing s.recheck.plan })
    (Prod.eta _).symm
  rw [Nat.zero_add] at hreaches
  exact hreaches

/-- What hears of a task does what `Recheck.hear` says, if nothing comes between. -/
theorem hears {id : Nat} {key : RequestKey} {result : TaskResult VerificationResult}
    (hsink : s.sinks.get? id = some ⟨key, .called result⟩)
    (hkey : s.recheck.submitted.get? id = some key) :
    ∃ times, (s.run (.replicate times (.hear id))).recheck = s.recheck.hear id result ∧
      (s.run (.replicate times (.hear id))).sinks.get? id = some ⟨key, .released⟩ := by
  cases result with
  | error e =>
      have hstep : s.step (.hear id) = { s with
          recheck := s.recheck.retract key, sinks := s.sinks.put id ⟨key, .released⟩ } := by
        simp only [step, hsink]
        rfl
      refine ⟨1, ?_⟩
      show (s.step (.hear id)).recheck = _ ∧ (s.step (.hear id)).sinks.get? id = _
      rw [hstep]
      refine ⟨?_, ?_⟩
      · simp only [Recheck.hear, hkey]
      · show (s.sinks.put id _).get? id = _
        rw [Table.get?_put, if_pos rfl]
  | ok value =>
      have hstep : s.step (.hear id) = { s with
          recheck := s.recheck.store key value, sinks := s.sinks.put id ⟨key, .kept⟩ } := by
        simp only [step, hsink]
        rfl
      refine ⟨2, ?_⟩
      show ((s.step (.hear id)).step (.hear id)).recheck = _ ∧
        ((s.step (.hear id)).step (.hear id)).sinks.get? id = _
      rw [hstep]
      simp only [step, Table.get?_put, if_true, hear, Recheck.hear, hkey, and_self]

end Linkage.RecheckSystem

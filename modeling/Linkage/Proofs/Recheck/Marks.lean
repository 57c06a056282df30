import Linkage.Service.RecheckSystem
import Linkage.Proofs.Task.Conduct

/-!
# Marks of requests in flight

A mark is held by the round that has set it until the request is accepted, and from then on by what
hears of the task, until it takes the mark away. Holders are counted: a request that is marked has one
holder and one that is not has none, whatever comes between what.

* **`RecheckSystem.holders`** — how many hold the mark of a request;
* **`Sound`**, **`Sound.step`**, **`holders_run`** — there are as many holders as marks, which every
  event preserves.
-/

namespace Linkage

/-- Whether a round at this stage holds the mark of a request. -/
def RoundStage.holds (key : RequestKey) : RoundStage → Bool
  | .submitting request _ | .retracting request => request.key == key
  | .testing _ | .marking _ _ => false

/-- Whether what hears of a task holds the mark of a request. -/
def RecheckSink.holds (key : RequestKey) (sink : RecheckSink) : Bool :=
  match sink.stage with
  | .waiting | .called _ | .kept => sink.key == key
  | .released => false

namespace Recheck

/-- How often a request is marked. -/
def marks (r : Recheck) (key : RequestKey) : Nat := if key ∈ r.inFlight then 1 else 0

/-- A request that is marked already stays so. -/
theorem reserve_refused {r r' : Recheck} {key : RequestKey} (h : r.reserve key = (false, r')) :
    r' = r := by
  unfold reserve at h
  injection h with hmarked hsame
  have hmem : key ∈ r.inFlight := by simpa using hmarked
  rw [← hsame, insertNew_of_mem hmem]

/-- A request is marked that was not. -/
theorem reserve_granted {r r' : Recheck} {key : RequestKey} (h : r.reserve key = (true, r')) :
    r'.results = r.results ∧ r'.submitted = r.submitted ∧
      ∀ key', r'.marks key' = r.marks key' + if key == key' then 1 else 0 := by
  unfold reserve at h
  injection h with hfree hsame
  have hnew : key ∉ r.inFlight := by simpa using hfree
  rw [← hsame]
  refine ⟨rfl, rfl, ?_⟩
  intro key'
  unfold marks
  by_cases hkey : key = key'
  · subst hkey
    rw [if_pos (mem_insertNew.mpr (Or.inr rfl)), if_neg hnew, if_pos (by simp)]
  · have hmem : key' ∈ insertNew r.inFlight key ↔ key' ∈ r.inFlight := by
      rw [mem_insertNew, or_iff_left (Ne.symm hkey)]
    rw [if_neg (c := (key == key') = true) (by simpa using hkey), Nat.add_zero]
    simp only [hmem]

/-- The mark of a request is taken away. -/
theorem marks_retract (r : Recheck) (key key' : RequestKey) :
    (r.retract key).marks key' = if key == key' then 0 else r.marks key' := by
  unfold marks retract
  by_cases hkey : key = key'
  · subst hkey
    rw [if_neg (by simp), if_pos (by simp)]
  · have hmem : key' ∈ r.inFlight.filter (fun k => decide (k ≠ key)) ↔ key' ∈ r.inFlight := by
      simp [List.mem_filter, Ne.symm hkey]
    rw [if_neg (c := (key == key') = true) (by simpa using hkey)]
    simp only [hmem]

end Recheck

namespace RecheckSystem

/-- How many hold the mark of a request. -/
def holders (s : RecheckSystem) (key : RequestKey) : Nat :=
  s.rounds.values.countP (·.stage.holds key) + s.sinks.values.countP (·.holds key)

/-- A system that is in order after the tasks of the `past` have ended. -/
structure Sound (s : RecheckSystem) (past : List (Nat × TaskResult VerificationResult)) : Prop where
  tasks : s.tasks.Sound past
  roundsDistinct : s.rounds.Distinct
  sinksDistinct : s.sinks.Distinct
  newer : ∀ id, s.tasks.scheduler.nextId ≤ id → s.sinks.get? id = none
  /-- What hears of a task is called when the task ends. -/
  waiting : ∀ id sink, s.sinks.get? id = some sink →
    (sink.stage = .waiting ↔ TaskSystem.endsOf past id = [])
  marks : ∀ key, s.holders key = s.recheck.marks key

variable {s : RecheckSystem} {past : List (Nat × TaskResult VerificationResult)}

/-! ## Holders -/

/-- A round that comes to another stage. -/
theorem holders_move (hs : s.Sound past) {round : Nat} {r : RecheckRound}
    (hr : s.rounds.get? round = some r) (r' : RecheckRound) (key : RequestKey) :
    (s.move round r').holders key + (if r.stage.holds key then 1 else 0) =
      s.holders key + if r'.stage.holds key then 1 else 0 := by
  have hcount := Table.countP_values_replace hs.roundsDistinct hr r' (·.stage.holds key)
  show (s.rounds.put round r').values.countP _ + s.sinks.values.countP _ + _ = _
  unfold holders
  omega

/-- What hears of a task comes to another stage. -/
theorem holders_sink (hs : s.Sound past) {id : Nat} {sink : RecheckSink}
    (hsink : s.sinks.get? id = some sink) (sink' : RecheckSink) (key : RequestKey) :
    holders { s with sinks := s.sinks.put id sink' } key + (if sink.holds key then 1 else 0) =
      s.holders key + if sink'.holds key then 1 else 0 := by
  have hcount := Table.countP_values_replace hs.sinksDistinct hsink sink' (·.holds key)
  show s.rounds.values.countP _ + (s.sinks.put id sink').values.countP _ + _ = _
  unfold holders
  omega

theorem marks_le_one (r : Recheck) (key : RequestKey) : r.marks key ≤ 1 := by
  unfold Recheck.marks
  split <;> omega

/-- A request that a round holds the mark of is marked. -/
theorem Sound.marked_by_round (hs : s.Sound past) {round : Nat} {r : RecheckRound}
    (hr : s.rounds.get? round = some r) {key : RequestKey} (hholds : r.stage.holds key = true) :
    s.recheck.marks key = 1 := by
  have hpos : 0 < s.rounds.values.countP (·.stage.holds key) := Table.countP_values_pos hr hholds
  have hmarks := hs.marks key
  have hone := marks_le_one s.recheck key
  unfold holders at hmarks
  omega

/-- A request that what hears of a task holds the mark of is marked, and nothing else holds the
mark. -/
theorem Sound.held_by_sink (hs : s.Sound past) {id : Nat} {sink : RecheckSink}
    (hsink : s.sinks.get? id = some sink) {key : RequestKey} (hholds : sink.holds key = true) :
    s.recheck.marks key = 1 ∧
      (∀ round r, s.rounds.get? round = some r → r.stage.holds key = false) ∧
      ∀ id' sink', s.sinks.get? id' = some sink' → sink'.holds key = true → id' = id := by
  have hpos : 0 < s.sinks.values.countP (·.holds key) := Table.countP_values_pos hsink hholds
  have hmarks := hs.marks key
  have hone := marks_le_one s.recheck key
  unfold holders at hmarks
  have hnoRound : s.rounds.values.countP (·.stage.holds key) = 0 := by omega
  have honeSink : s.sinks.values.countP (·.holds key) ≤ 1 := by omega
  refine ⟨by omega, fun round r => ?_, fun id' sink' => ?_⟩
  · exact Table.of_countP_values_eq_zero hnoRound
  · exact Table.key_eq_of_countP_values hs.sinksDistinct honeSink hsink hholds

/-! ## Steps -/

/-- A round comes to another stage, and the mark changes hands with it. -/
theorem Sound.move (hs : s.Sound past) {round : Nat} {r : RecheckRound}
    (hr : s.rounds.get? round = some r) {recheck : Recheck} {r' : RecheckRound}
    (hmarks : ∀ key, recheck.marks key + (if r.stage.holds key then 1 else 0) =
      s.recheck.marks key + if r'.stage.holds key then 1 else 0) :
    ({ s with recheck := recheck }.move round r').Sound past where
  tasks := hs.tasks
  roundsDistinct := hs.roundsDistinct.replace hr r'
  sinksDistinct := hs.sinksDistinct
  newer := hs.newer
  waiting := hs.waiting
  marks key := by
    have hholders := holders_move hs hr r' key
    have hsame : ({ s with recheck := recheck }.move round r').holders key =
        (s.move round r').holders key := rfl
    have := hmarks key
    have := hs.marks key
    show _ = recheck.marks key
    omega

/-- A submission is accepted under a new number. -/
theorem Sound.answer_eq_ok (hs : s.Sound past) {request : VerificationRequest} {priority id : Nat}
    (h : s.answer request priority = .ok id) :
    id = s.tasks.scheduler.nextId ∧ s.sinks.get? id = none ∧
      TaskSystem.endsOf past id = [] ∧
      (s.accept id request priority).tasks.scheduler.nextId = id + 1 := by
  have hid : id = s.tasks.scheduler.nextId := by
    unfold answer at h
    rcases s.tasks.scheduler.submit_cases s.tasks.now request.taskName priority request true with
      ⟨-, heq⟩ | ⟨-, hanswer, -⟩
    · rw [heq] at h
      cases h
    · rw [hanswer] at h
      injection h with h
      exact h.symm
  have hnew : s.tasks.standing past id = .unknown := hs.tasks.newer id (Nat.le_of_eq hid.symm)
  refine ⟨hid, hs.newer id (Nat.le_of_eq hid.symm), congrArg (·.ends) hnew, ?_⟩
  rcases hs.tasks.submit_cases request.taskName priority request true with
    ⟨hdown, -⟩ | ⟨-, -, hnext, -, -⟩
  · unfold answer at h
    rcases s.tasks.scheduler.submit_cases s.tasks.now request.taskName priority request true with
      ⟨-, heq⟩ | ⟨hopen, -⟩
    · rw [heq] at h
      cases h
    · rw [hdown] at hopen
      cases hopen
  · rw [hid]
    exact hnext

/-- The round gives the mark away to what will hear of the task. -/
theorem Sound.accept (hs : s.Sound past) {round : Nat} {request : VerificationRequest}
    {left : List VerificationRequest} {n id priority : Nat}
    (hr : s.rounds.get? round = some ⟨.submitting request left, n⟩)
    (hanswer : s.answer request priority = .ok id) (n' : Nat) :
    ((s.accept id request priority).move round ⟨.testing left, n'⟩).Sound past := by
  obtain ⟨hid, hfree, hends, hnext⟩ := hs.answer_eq_ok hanswer
  refine ⟨?_, hs.roundsDistinct.replace hr _, hs.sinksDistinct.put hfree _, ?_, ?_, ?_⟩
  · have htasks := hs.tasks.step (.submit request.taskName priority request true)
    rw [show s.tasks.endedBy (.submit request.taskName priority request true) = [] from rfl,
      List.append_nil] at htasks
    exact htasks
  · intro other hother
    have hother : id + 1 ≤ other := hnext ▸ hother
    show (s.sinks.put id _).get? other = none
    rw [Table.get?_put, if_neg (by omega)]
    exact hs.newer other (by omega)
  · intro other sink hsink
    rcases Table.get?_put_cases hsink with ⟨rfl, rfl⟩ | ⟨-, hsink⟩
    · exact iff_of_true rfl hends
    · exact hs.waiting other sink hsink
  · -- the round holds the mark no longer, what will hear of the task does
    intro key
    have hrounds := Table.countP_values_replace hs.roundsDistinct hr ⟨.testing left, n'⟩
      (·.stage.holds key)
    have hsinks := Table.countP_values_put hfree { key := request.key } (·.holds key)
    have hmarks := hs.marks key
    have hround : RoundStage.holds key (.submitting request left) = (request.key == key) := rfl
    have hsink : RecheckSink.holds key { key := request.key } = (request.key == key) := rfl
    have hafter : RoundStage.holds key (.testing left) = false := rfl
    rw [hround, hafter] at hrounds
    rw [hsink] at hsinks
    unfold holders at hmarks
    show (s.rounds.put round ⟨.testing left, n'⟩).values.countP _ +
      (s.sinks.put id { key := request.key }).values.countP _ = s.recheck.marks key
    simp only [Bool.false_eq_true, if_false] at hrounds
    omega

/-- A round goes on. -/
theorem Sound.advance (hs : s.Sound past) {round : Nat} {r : RecheckRound}
    (hr : s.rounds.get? round = some r) : (s.advance round r).Sound past := by
  obtain ⟨stage, n⟩ := r
  match stage with
  | .testing [] => exact hs
  | .testing (request :: left) =>
      unfold RecheckSystem.advance
      simp only
      split
      · exact hs.move hr fun key => rfl
      · exact hs.move hr fun key => rfl
  | .marking request left =>
      unfold RecheckSystem.advance
      simp only
      split
      · rename_i recheck hreserve
        refine hs.move hr ?_
        intro key
        exact (Recheck.reserve_granted hreserve).2.2 key
      · rename_i recheck hreserve
        rw [Recheck.reserve_refused hreserve]
        exact hs.move hr fun key => rfl
  | .submitting request left =>
      unfold RecheckSystem.advance
      simp only
      split
      · rename_i id hanswer
        exact hs.accept hr hanswer (n + 1)
      · exact hs.move hr fun key => rfl
  | .retracting request =>
      refine hs.move hr ?_
      intro key
      rw [Recheck.marks_retract]
      by_cases hkey : (request.key == key) = true
      · have hholds : RoundStage.holds key (.retracting request) = true := hkey
        rw [hs.marked_by_round hr hholds, if_pos hkey, if_pos hholds]
        rfl
      · have hholds : ¬ RoundStage.holds key (.retracting request) = true := hkey
        rw [if_neg hkey, if_neg hholds]
        rfl

/-- What hears of a task that has ended goes on, and takes the mark away in the end. -/
theorem Sound.sink (hs : s.Sound past) {id : Nat} {sink : RecheckSink}
    (hsink : s.sinks.get? id = some sink) (hcalled : sink.stage ≠ .waiting) {recheck : Recheck}
    {stage : SinkStage} (hstage : stage ≠ .waiting)
    (hmarks : ∀ key, recheck.marks key + (if sink.holds key then 1 else 0) =
      s.recheck.marks key + if RecheckSink.holds key { sink with stage := stage } then 1 else 0) :
    Sound { s with
      recheck := recheck, sinks := s.sinks.put id { sink with stage := stage } } past where
  tasks := hs.tasks
  roundsDistinct := hs.roundsDistinct
  sinksDistinct := hs.sinksDistinct.replace hsink _
  newer other hother := by
    have hne : other ≠ id := by
      rintro rfl
      rw [hs.newer other hother] at hsink
      cases hsink
    show (s.sinks.put id _).get? other = none
    rw [Table.get?_put, if_neg hne]
    exact hs.newer other hother
  waiting other sink' hsink' := by
    rcases Table.get?_put_cases hsink' with ⟨rfl, rfl⟩ | ⟨-, hsink'⟩
    · refine iff_of_false hstage ?_
      rw [← hs.waiting other sink hsink]
      exact hcalled
    · exact hs.waiting other sink' hsink'
  marks key := by
    have hholders := holders_sink hs hsink { sink with stage := stage } key
    have hsame : holders { s with
        recheck := recheck, sinks := s.sinks.put id { sink with stage := stage } } key =
      holders { s with sinks := s.sinks.put id { sink with stage := stage } } key := rfl
    have := hmarks key
    have := hs.marks key
    show _ = recheck.marks key
    omega

theorem Sound.hear (hs : s.Sound past) {id : Nat} {sink : RecheckSink}
    (hsink : s.sinks.get? id = some sink) : (s.hear id sink).Sound past := by
  -- the mark is taken away by the one that holds it
  have hover : sink.stage ≠ .waiting → (∀ key, sink.holds key = (sink.key == key)) →
      Sound { s with
        recheck := s.recheck.retract sink.key
        sinks := s.sinks.put id { sink with stage := .released } } past := by
    intro hcalled hholds
    refine hs.sink hsink hcalled (fun h => by cases h) ?_
    intro key
    rw [Recheck.marks_retract, hholds key]
    by_cases hkey : (sink.key == key) = true
    · rw [(hs.held_by_sink hsink ((hholds key).trans hkey)).1, if_pos hkey, if_pos hkey]
      rfl
    · rw [if_neg hkey, if_neg hkey]
      rfl
  obtain ⟨key, stage⟩ := sink
  match stage with
  | .waiting | .released => exact hs
  | .called (.ok result) =>
      exact hs.sink hsink (fun h => by cases h) (fun h => by cases h) (fun key => rfl)
  | .called (.error e) => exact hover (fun h => by cases h) (fun key => rfl)
  | .kept => exact hover (fun h => by cases h) (fun key => rfl)

/-- What hears of a task is called when the task has ended, which it does for the first time. -/
theorem Sound.call (hs : s.Sound past)
    {tasks : TaskSystem Nat VerificationRequest VerificationResult} {id : Nat}
    {result : TaskResult VerificationResult} (htasks : tasks.Sound (past ++ [(id, result)]))
    (hnext : s.tasks.scheduler.nextId ≤ tasks.scheduler.nextId) :
    Sound { s with tasks := tasks, sinks := call s.sinks (id, result) }
      (past ++ [(id, result)]) := by
  have hends : ∀ other, other ≠ id →
      TaskSystem.endsOf (past ++ [(id, result)]) other = TaskSystem.endsOf past other := by
    intro other hother
    rw [TaskSystem.endsOf_concat, if_neg hother, List.append_nil]
  unfold RecheckSystem.call
  cases hsink : s.sinks.get? id with
  | none =>
      simp only
      refine ⟨htasks, hs.roundsDistinct, hs.sinksDistinct, ?_, ?_, hs.marks⟩
      · exact fun other hother => hs.newer other (Nat.le_trans hnext hother)
      · intro other sink hother
        rw [hends other (fun h => by rw [h, hsink] at hother; cases hother)]
        exact hs.waiting other sink hother
  | some sink =>
      simp only
      have hwaiting : sink.stage = .waiting := (hs.waiting id sink hsink).mpr htasks.first_end
      refine ⟨htasks, hs.roundsDistinct, hs.sinksDistinct.replace hsink _, ?_, ?_, ?_⟩
      · intro other hother
        have hnone := hs.newer other (Nat.le_trans hnext hother)
        show (s.sinks.put id _).get? other = none
        rw [Table.get?_put, if_neg (fun h => by rw [h, hsink] at hnone; cases hnone)]
        exact hnone
      · intro other sink' hother
        rcases Table.get?_put_cases hother with ⟨rfl, rfl⟩ | ⟨hne, hother⟩
        · refine iff_of_false (fun h => by cases h) ?_
          rw [TaskSystem.endsOf_concat, if_pos rfl]
          exact List.concat_ne_nil _ _
        · rw [hends other hne]
          exact hs.waiting other sink' hother
      · intro key
        have hholders := holders_sink hs hsink { sink with stage := .called result } key
        have hsame : RecheckSink.holds key { sink with stage := .called result } = sink.holds key := by
          unfold RecheckSink.holds
          rw [hwaiting]
        rw [hsame] at hholders
        have hmarks := hs.marks key
        show holders { s with sinks := s.sinks.put id _ } key = s.recheck.marks key
        omega

/-- Something happens to the tasks. -/
theorem Sound.task (hs : s.Sound past)
    (event : TaskStep Nat VerificationRequest VerificationResult) :
    (s.step (.task event)).Sound (past ++ s.tasks.endedBy event) := by
  have htasks := hs.tasks.step event
  have hnext := hs.tasks.nextId_le_step event
  unfold RecheckSystem.step
  simp only
  rcases s.tasks.endedBy_cases event with hends | ⟨id, result, hends⟩
  · rw [hends, List.append_nil] at htasks ⊢
    exact ⟨htasks, hs.roundsDistinct, hs.sinksDistinct,
      fun id hid => hs.newer id (Nat.le_trans hnext hid), hs.waiting, hs.marks⟩
  · rw [hends] at htasks ⊢
    exact hs.call htasks hnext

/-- The tasks that an event ends, with what they come to. -/
def endedBy (s : RecheckSystem) : RecheckStep → List (Nat × TaskResult VerificationResult)
  | .task event => s.tasks.endedBy event
  | _ => []

/-- Every event keeps the marks with those who hold them. -/
theorem Sound.step (hs : s.Sound past) (event : RecheckStep) :
    (s.step event).Sound (past ++ s.endedBy event) := by
  cases event with
  | task event => exact hs.task event
  | begin round plan =>
      rw [show s.endedBy (.begin round plan) = [] from rfl, List.append_nil]
      unfold RecheckSystem.step
      simp only
      split
      · exact hs
      · rename_i hfree
        have hnone := (Table.contains_eq_false _ _).mp (Bool.not_eq_true _ ▸ hfree)
        refine { hs with roundsDistinct := hs.roundsDistinct.put hnone _, marks := ?_ }
        intro key
        have hcount := Table.countP_values_put hnone { stage := .testing plan } (·.stage.holds key)
        have hmarks := hs.marks key
        unfold holders at hmarks
        show (s.rounds.put round _).values.countP _ + _ = _
        rw [hcount]
        exact hmarks
  | advance round =>
      rw [show s.endedBy (.advance round) = [] from rfl, List.append_nil]
      unfold RecheckSystem.step
      simp only
      split
      · rename_i r hr
        exact hs.advance hr
      · exact hs
  | hear id =>
      rw [show s.endedBy (.hear id) = [] from rfl, List.append_nil]
      unfold RecheckSystem.step
      simp only
      split
      · rename_i sink hsink
        exact hs.hear hsink
      · exact hs
  | forget key =>
      rw [show s.endedBy (.forget key) = [] from rfl, List.append_nil]
      exact { hs with }

/-- A run ends in order that begins so. -/
theorem Sound.run (hs : s.Sound past) (events : List RecheckStep) :
    ∃ past', (s.run events).Sound past' := by
  induction events generalizing s past with
  | nil => exact ⟨past, hs⟩
  | cons event rest ih => exact ih (hs.step event)

theorem sound_ofWorkers (workers : Nat) : (ofWorkers workers).Sound [] where
  tasks := TaskSystem.sound_ofWorkers compare workers
  roundsDistinct := List.nodup_nil
  sinksDistinct := List.nodup_nil
  newer _ _ := rfl
  waiting _ _ h := by cases h
  marks _ := rfl

/-- At any time a request is marked if and only if the mark is held, and then by one alone. -/
theorem holders_run (workers : Nat) (events : List RecheckStep) (key : RequestKey) :
    ((ofWorkers workers).run events).holders key =
      if key ∈ ((ofWorkers workers).run events).recheck.inFlight then 1 else 0 := by
  obtain ⟨past, hs⟩ := (sound_ofWorkers workers).run events
  exact hs.marks key

end RecheckSystem

end Linkage

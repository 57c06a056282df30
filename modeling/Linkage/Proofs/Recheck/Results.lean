import Linkage.Proofs.Recheck.Passages

/-!
# Requests whose results are kept

A round looks for a result and marks the request afterwards. If the result comes in between, and the
mark that stood for it goes, the round takes the mark and the request is submitted although it has a
result. This is the only way in which a request with a result is submitted, and each result that is kept
for a request beyond the first one comes from a submission of this kind.

* **`repeats`** — the requests that are submitted although their results are kept;
* **`Sound.expecting_step`** — who may have to keep a result, and what an event changes in that;
* **`ResultLaws`**, **`results_run`** — when a request is submitted again, and how many results are kept for
  it until they are forgotten, in every run;
* **`submitted_again`** — a run in which a request is submitted, and verified, while it has a result.
-/

namespace Linkage

/-- Whether what hears of a task may have to keep a result for a request. -/
def RecheckSink.expects (key : RequestKey) (sink : RecheckSink) : Bool :=
  match sink.stage with
  | .waiting | .called _ => sink.key == key
  | .kept | .released => false

theorem RecheckSink.holds_of_expects {key : RequestKey} {sink : RecheckSink}
    (h : sink.expects key = true) : sink.holds key = true := by
  obtain ⟨key', stage⟩ := sink
  cases stage with
  | waiting => exact h
  | called result => exact h
  | kept => cases h
  | released => cases h

namespace RecheckSystem

/-- The request that an event submits although a result of it is kept. -/
def repeatedBy (s : RecheckSystem) (event : RecheckStep) : Option RequestKey :=
  (s.submittedBy event).filter s.recheck.isStored

/-- The requests that are submitted in a run although results of them are kept, in order. -/
def repeats (s : RecheckSystem) : List RecheckStep → List RequestKey
  | [] => []
  | event :: rest => (s.repeatedBy event).toList ++ (s.step event).repeats rest

/-- How many may have to keep a result for a request. -/
def expecting (s : RecheckSystem) (key : RequestKey) : Nat := s.sinks.values.countP (·.expects key)

variable {s : RecheckSystem} {past : List (Nat × TaskResult VerificationResult)} {key : RequestKey}

/-! ## Who expects a result -/

theorem expecting_le_holders (s : RecheckSystem) (key : RequestKey) : s.expecting key ≤ s.holders key := by
  have hle : s.expecting key ≤ s.sinks.values.countP (·.holds key) :=
    List.countP_mono_left fun sink _ h => RecheckSink.holds_of_expects h
  unfold holders
  omega

theorem Sound.expecting_le_one (hs : s.Sound past) (key : RequestKey) : s.expecting key ≤ 1 := by
  have hle := expecting_le_holders s key
  have hmarks := hs.marks key
  have hone := marks_le_one s.recheck key
  omega

/-- What hears of a task comes to another stage. -/
theorem Sound.expecting_sink (hs : s.Sound past) {id : Nat} {sink : RecheckSink}
    (hsink : s.sinks.get? id = some sink) (sink' : RecheckSink) (key : RequestKey) :
    (s.sinks.put id sink').values.countP (·.expects key) + (if sink.expects key then 1 else 0) =
      s.expecting key + if sink'.expects key then 1 else 0 :=
  Table.countP_values_replace hs.sinksDistinct hsink sink' _

theorem count_toList (found : Option RequestKey) (key : RequestKey) :
    found.toList.count key = if found = some key then 1 else 0 := by
  cases found with
  | none => rfl
  | some key' =>
      rw [Option.toList_some, List.count_singleton]
      simp

/-- What hears of a task that is called when it has ended expects what it expected before. -/
theorem Sound.expecting_task (hs : s.Sound past)
    (event : TaskStep Nat VerificationRequest VerificationResult) (key : RequestKey) :
    (s.step (.task event)).expecting key = s.expecting key := by
  show ((s.tasks.endedBy event).foldl RecheckSystem.call s.sinks).values.countP _ = _
  rcases s.tasks.endedBy_cases event with hends | ⟨id, result, hends⟩
  · rw [hends]
    rfl
  · have htasks := hs.tasks.step event
    rw [hends] at htasks ⊢
    show (RecheckSystem.call s.sinks (id, result)).values.countP _ = _
    unfold RecheckSystem.call
    cases hsink : s.sinks.get? id with
    | none => rfl
    | some sink =>
        have hwaiting : sink.stage = .waiting := (hs.waiting id sink hsink).mpr htasks.first_end
        have hcount := hs.expecting_sink hsink { sink with stage := .called result } key
        have hsame : RecheckSink.expects key { sink with stage := .called result } = sink.expects key := by
          unfold RecheckSink.expects
          rw [hwaiting]
        rw [hsame] at hcount
        exact Nat.add_right_cancel hcount

/-- A round has more results expected only by what it submits. -/
theorem Sound.expecting_advance (hs : s.Sound past) (round : Nat) (key : RequestKey) :
    (s.step (.advance round)).expecting key ≤
      s.expecting key + if s.submittedBy (.advance round) = some key then 1 else 0 := by
  cases hr : s.rounds.get? round with
  | none =>
      simp only [RecheckSystem.step, hr]
      exact Nat.le_add_right _ _
  | some r =>
      simp only [RecheckSystem.step, hr]
      obtain ⟨stage, n⟩ := r
      cases stage with
      | testing left => cases left <;> exact Nat.le_add_right _ _
      | retracting request => exact Nat.le_add_right _ _
      | marking request left =>
          unfold RecheckSystem.advance
          simp only
          split <;> exact Nat.le_add_right _ _
      | submitting request left =>
          unfold RecheckSystem.advance
          simp only
          split
          · next id hanswer =>
              have hcount := Table.countP_values_put (hs.answer_eq_ok hanswer).2.1 { key := request.key }
                (RecheckSink.expects key)
              have hsubmitted : s.submittedBy (.advance round) = some request.key := by
                simp only [submittedBy, hr, hanswer]
              have hexpects : RecheckSink.expects key { key := request.key } = (request.key == key) := rfl
              rw [hexpects] at hcount
              simp only [beq_iff_eq] at hcount
              simp only [hsubmitted, Option.some_inj]
              exact Nat.le_of_eq hcount
          · exact Nat.le_add_right _ _

/-- What hears of a task expects nothing any more when it has kept a result. -/
theorem Sound.expecting_hear (hs : s.Sound past) (id : Nat) (key : RequestKey) :
    (if s.keptBy (.hear id) = some key then 1 else 0) + (s.step (.hear id)).expecting key ≤
      s.expecting key := by
  cases hsink : s.sinks.get? id with
  | none => simp [keptBy, RecheckSystem.step, hsink]
  | some sink =>
      obtain ⟨key', stage⟩ := sink
      -- what keeps no result goes on to a stage at which it expects nothing
      have hquiet : ∀ sink' : RecheckSink, sink'.expects key = false → s.keptBy (.hear id) = none →
          (s.step (.hear id)).sinks = s.sinks.put id sink' →
          (if s.keptBy (.hear id) = some key then 1 else 0) + (s.step (.hear id)).expecting key ≤
            s.expecting key := by
        intro sink' hafter hkept hsinks
        have hcount := hs.expecting_sink hsink sink' key
        rw [hafter] at hcount
        simp only [Bool.false_eq_true, if_false] at hcount
        rw [hkept, expecting, hsinks]
        simp only [reduceCtorEq, if_false]
        omega
      cases stage with
      | waiting | released => simp [keptBy, RecheckSystem.step, RecheckSystem.hear, hsink]
      | kept => exact hquiet _ rfl (by simp only [keptBy, hsink]) (by simp only [RecheckSystem.step, hsink]; rfl)
      | called result =>
          cases result with
          | error e =>
              exact hquiet _ rfl (by simp only [keptBy, hsink]) (by simp only [RecheckSystem.step, hsink]; rfl)
          | ok result =>
              have hkept := hs.expecting_sink hsink ⟨key', .kept⟩ key
              have hbefore : RecheckSink.expects key ⟨key', .called (.ok result)⟩ = (key' == key) := rfl
              have hafter : RecheckSink.expects key ⟨key', .kept⟩ = false := rfl
              rw [hbefore, hafter] at hkept
              simp only [Bool.false_eq_true, if_false, beq_iff_eq] at hkept
              simp only [keptBy, RecheckSystem.step, RecheckSystem.hear, hsink, Option.some_inj]
              show _ + (s.sinks.put id _).values.countP _ ≤ _
              omega

/-- Who keeps a result does not expect one any more, and who expects one has been submitted. -/
theorem Sound.expecting_step (hs : s.Sound past) (event : RecheckStep) (key : RequestKey) :
    (s.keptBy event).toList.count key + (s.step event).expecting key ≤
      s.expecting key + (s.submittedBy event).toList.count key := by
  rw [count_toList, count_toList]
  cases event with
  | begin round plan =>
      have hsame : (s.step (.begin round plan)).expecting key = s.expecting key := by
        unfold RecheckSystem.step
        simp only
        split <;> rfl
      rw [hsame]
      exact Nat.le_of_eq (Nat.zero_add _)
  | advance round =>
      have hadvance := hs.expecting_advance round key
      simpa [keptBy] using hadvance
  | hear id =>
      have hhear := hs.expecting_hear id key
      simpa [submittedBy] using hhear
  | forget key' => exact Nat.le_of_eq (Nat.zero_add _)
  | task event =>
      rw [hs.expecting_task event key]
      exact Nat.le_of_eq (Nat.zero_add _)

/-! ## Results of one request -/

theorem repeats_cons (event : RecheckStep) (rest : List RecheckStep) :
    s.repeats (event :: rest) = (s.repeatedBy event).toList ++ (s.step event).repeats rest := rfl

theorem kept_cons (event : RecheckStep) (rest : List RecheckStep) :
    s.kept (event :: rest) = (s.keptBy event).toList ++ (s.step event).kept rest := rfl

/-- While a request has a result, each of its submissions is a repetition, and each result that is kept comes
from one of them, or from one that was under way. -/
theorem Sound.kept_le_repeats (hs : s.Sound past) {later : List RecheckStep} (hkeep : .forget key ∉ later)
    (hstored : s.recheck.isStored key = true) :
    (s.kept later).count key ≤ s.expecting key + (s.repeats later).count key := by
  induction later generalizing s past with
  | nil => exact Nat.zero_le _
  | cons event rest ih =>
      have hevent : event ≠ .forget key := fun heq => hkeep (heq ▸ List.mem_cons_self)
      have hrest := ih (hs.step event) (fun hmem => hkeep (List.mem_cons_of_mem _ hmem))
        ((isStored_step s event key).mpr (Or.inr ⟨hstored, hevent⟩))
      have hstep := hs.expecting_step event key
      have hrepeated : (s.repeatedBy event).toList.count key = (s.submittedBy event).toList.count key := by
        rw [count_toList, count_toList]
        refine if_congr ?_ rfl rfl
        unfold repeatedBy
        rw [Option.filter_eq_some_iff]
        exact and_iff_left hstored
      rw [kept_cons, repeats_cons, List.count_append, List.count_append]
      omega

/-- Until it is forgotten the first result is the only one that is kept, but for repetitions. -/
theorem Sound.kept_le (hs : s.Sound past) {later : List RecheckStep} (hkeep : .forget key ∉ later)
    (hmissing : s.recheck.isStored key = false) :
    (s.kept later).count key ≤ 1 + (s.repeats later).count key := by
  induction later generalizing s past with
  | nil => exact Nat.zero_le _
  | cons event rest ih =>
      have hforget : .forget key ∉ rest := fun hmem => hkeep (List.mem_cons_of_mem _ hmem)
      rw [kept_cons, repeats_cons, List.count_append, List.count_append]
      by_cases hkept : s.keptBy event = some key
      · -- there was one who expected a result, and now there is none
        have hrest := (hs.step event).kept_le_repeats hforget ((isStored_step s event key).mpr (Or.inl hkept))
        have hone := hs.expecting_le_one key
        have hstep := hs.expecting_step event key
        have hsubmitted : s.submittedBy event = none := by
          cases event with
          | hear id => rfl
          | _ => cases hkept
        rw [hkept, hsubmitted, Option.toList_some, List.count_singleton_self, Option.toList_none,
          List.count_nil] at hstep
        rw [hkept, Option.toList_some, List.count_singleton_self]
        omega
      · have hmissing' : (s.step event).recheck.isStored key = false := by
          refine Bool.not_eq_true _ ▸ fun hstored => ?_
          rcases (isStored_step s event key).mp hstored with h | ⟨h, -⟩
          · exact hkept h
          · rw [hmissing] at h
            cases h
        have hrest := ih (hs.step event) hforget hmissing'
        rw [count_toList, if_neg hkept]
        omega

/-! ## Runs -/

/-- What is submitted is what a round is about to submit. -/
theorem stage_of_submittedBy {event : RecheckStep} (h : s.submittedBy event = some key) :
    ∃ round request left, event = .advance round ∧ request.key = key ∧
      s.stage? round = some (.submitting request left) := by
  unfold submittedBy at h
  split at h
  · next round =>
      split at h
      · next request left n hr =>
          split at h
          · refine ⟨round, request, left, rfl, Option.some.inj h, ?_⟩
            unfold stage?
            rw [hr]
            rfl
          · cases h
      · cases h
  · cases h

/-- What is true of the requests that a re-check submits, and of their results, after a run of events. -/
structure ResultLaws (workers : Nat) (events : List RecheckStep) : Prop where
  /-- The mark of a request has one holder at most. -/
  single : ∀ key, ((ofWorkers workers).run events).holders key ≤ 1
  /-- A request that is submitted has been tested by the round and has been marked by it, and it has a result if
  and only if one has been kept between the test and the mark, and has not been forgotten since. -/
  repeated : ∀ event key, ((ofWorkers workers).run events).submittedBy event = some key →
    ∃ round request start between after, event = .advance round ∧ request.key = key ∧
      events = start ++ .advance round :: (between ++ .advance round :: after) ∧
      (ofWorkers workers).Passage round request start between after ∧
      (((ofWorkers workers).run events).recheck.isStored key = true ↔
        Keeps key ((ofWorkers workers).run (start ++ [.advance round])) between ∧ .forget key ∉ after)
  /-- From one time that it has no result until it is forgotten the next time, one result is kept for a request,
  and one more at most for each time that it is submitted although it has a result. -/
  once : ∀ key later, ((ofWorkers workers).run events).recheck.isStored key = false → .forget key ∉ later →
    (((ofWorkers workers).run events).kept later).count key ≤
      1 + (((ofWorkers workers).run events).repeats later).count key

/-- Every run obeys the laws, with any number of workers and whatever comes between what. -/
theorem results_run (workers : Nat) (events : List RecheckStep) : ResultLaws workers events := by
  obtain ⟨past, hs⟩ := (sound_ofWorkers workers).run events
  refine { single := fun key => ?_, repeated := fun event key hsubmitted => ?_,
           once := fun key later hmissing hkeep => hs.kept_le hkeep hmissing }
  · rw [holders_run]
    exact marks_le_one _ key
  · obtain ⟨round, request, left, rfl, rfl, hstage⟩ := stage_of_submittedBy hsubmitted
    obtain ⟨start, between, after, rfl, hpassage⟩ := exists_passage rfl hstage
    exact ⟨round, request, start, between, after, rfl, rfl, rfl, hpassage,
      hpassage.isStored_iff (sound_ofWorkers workers)⟩

/-- A request, for instance. -/
def someRequest : VerificationRequest := ⟨"p", "1", "j"⟩

/-- A result of it, for instance. -/
def someResult : VerificationResult :=
  ⟨⟨"p", "unknown", none⟩, someRequest.target, .notFound "no p", none⟩

/-- A round submits a request, and a worker starts the task. -/
def started : List RecheckStep :=
  [.begin 0 [someRequest], .advance 0, .advance 0, .advance 0, .task (.pop 0), .task (.start 0)]

/-- Another round finds no result. Then the result is kept and the mark is taken away, and the round
goes on to submit the request. -/
def overtaken : List RecheckStep :=
  started ++ [.begin 1 [someRequest], .advance 1, .task (.finish 0 (.ok someResult)), .hear 1,
    .hear 1, .advance 1]

/-- The request is submitted and verified once more. -/
def again : List RecheckStep :=
  [.advance 1, .task (.retire 0), .task (.pop 0), .task (.start 0),
    .task (.finish 0 (.ok someResult)), .hear 2]

/-- A request is submitted while its result is kept, and another result is kept although nothing was
forgotten. -/
theorem submitted_again :
    ((ofWorkers 1).run overtaken).recheck.isStored someRequest.key = true ∧
      ((ofWorkers 1).run overtaken).submittedBy (.advance 1) = some someRequest.key ∧
      (ofWorkers 1).kept (overtaken ++ again) = [someRequest.key, someRequest.key] ∧
      .forget someRequest.key ∉ overtaken ++ again := by
  refine ⟨rfl, rfl, by decide +kernel, ?_⟩
  simp [overtaken, started, again]

end RecheckSystem

end Linkage

import Linkage.Proofs.Recheck.Marks

/-!
# How a request comes to be submitted

A round tests whether there is a result of a request, marks the request some time after that, and submits it
some time after that. Others go on in the meantime. Once the request is marked nobody can keep a result of it
before it is submitted, so whether it has one then is decided between the test and the mark.

* **`Turns`**, **`turns`** — how a round goes on from one stage to the next one;
* **`Passage`**, **`exists_passage`** — a round that is about to submit a request has tested it and marked it;
* **`Keeps`**, **`isStored_run`** — what a run keeps a result of;
* **`Passage.isStored_iff`** — what is about to be submitted has a result if and only if one has been kept
  between the test and the mark, and has not been forgotten.
-/

namespace Linkage.RecheckSystem

variable {s : RecheckSystem} {past : List (Nat × TaskResult VerificationResult)} {round : Nat}
  {request : VerificationRequest} {left : List VerificationRequest} {key : RequestKey}

/-! ## Stages -/

/-- How far a round has come, if it has begun. -/
def stage? (s : RecheckSystem) (round : Nat) : Option RoundStage := (s.rounds.get? round).map (·.stage)

/-- How a round goes on from one stage to the next one. -/
inductive Turns (s : RecheckSystem) : RoundStage → RoundStage → Prop
  | over : Turns s (.testing []) (.testing [])
  | skipped {request : VerificationRequest} {left : List VerificationRequest}
      (hstored : s.recheck.isStored request.key = true) :
      Turns s (.testing (request :: left)) (.testing left)
  | missed {request : VerificationRequest} {left : List VerificationRequest}
      (hmissing : s.recheck.isStored request.key = false) :
      Turns s (.testing (request :: left)) (.marking request left)
  | refused {request : VerificationRequest} {left : List VerificationRequest} :
      Turns s (.marking request left) (.testing left)
  | marked {request : VerificationRequest} {left : List VerificationRequest} :
      Turns s (.marking request left) (.submitting request left)
  | accepted {request : VerificationRequest} {left : List VerificationRequest} :
      Turns s (.submitting request left) (.testing left)
  | rejected {request : VerificationRequest} {left : List VerificationRequest} :
      Turns s (.submitting request left) (.retracting request)
  | retracted {request : VerificationRequest} : Turns s (.retracting request) (.testing [])

/-- A round goes on by one stage, and no other round does. -/
theorem turns {r : RecheckRound} (hr : s.rounds.get? round = some r) :
    ∃ r', s.Turns r.stage r'.stage ∧ ∀ round',
      (s.advance round r).rounds.get? round' = if round' = round then some r' else s.rounds.get? round' := by
  have hput : ∀ r' round', (s.rounds.put round r').get? round' =
      if round' = round then some r' else s.rounds.get? round' := fun r' round' => Table.get?_put ..
  obtain ⟨stage, n⟩ := r
  match stage with
  | .testing [] =>
      refine ⟨⟨.testing [], n⟩, .over, fun round' => ?_⟩
      show s.rounds.get? round' = _
      split
      · next hround => rw [hround, hr]
      · rfl
  | .testing (request :: left) =>
      unfold advance
      simp only
      split
      · next hstored => exact ⟨_, .skipped hstored, hput _⟩
      · next hmissing => exact ⟨_, .missed (Bool.not_eq_true _ ▸ hmissing), hput _⟩
  | .marking request left =>
      unfold advance
      simp only
      split
      · exact ⟨_, .marked, hput _⟩
      · exact ⟨_, .refused, hput _⟩
  | .submitting request left =>
      unfold advance
      simp only
      split
      · exact ⟨_, .accepted, hput _⟩
      · exact ⟨_, .rejected, hput _⟩
  | .retracting request => exact ⟨_, .retracted, hput _⟩

/-- A round that has gone on to a stage has come from the one before. -/
theorem stage?_advance {stage : RoundStage} (h : (s.step (.advance round)).stage? round = some stage) :
    ∃ stage', s.stage? round = some stage' ∧ s.Turns stage' stage := by
  cases hr : s.rounds.get? round with
  | none =>
      simp only [step, stage?, hr] at h
      cases h
  | some r =>
      obtain ⟨r', hturns, hrounds⟩ := turns hr
      simp only [step, stage?, hr, hrounds round, if_pos] at h ⊢
      cases h
      exact ⟨r.stage, rfl, hturns⟩

/-- Nothing else takes a round from where it is, and a round that begins has to test first. -/
theorem stage?_step {event : RecheckStep} (hevent : event ≠ .advance round) {stage : RoundStage} :
    (s.stage? round = some stage → (s.step event).stage? round = some stage) ∧
      ((s.step event).stage? round = some stage →
        s.stage? round = some stage ∨ ∃ plan, stage = .testing plan) := by
  cases event with
  | begin round' plan =>
      unfold step
      simp only
      split
      · exact ⟨id, Or.inl⟩
      · next hnew =>
          have hstage : (s.move round' ⟨.testing plan, 0⟩).stage? round =
              if round = round' then some (.testing plan) else s.stage? round := by
            unfold stage? move
            rw [Table.get?_put]
            split <;> rfl
          rw [hstage]
          by_cases hround : round = round'
          · subst hround
            have hnone : s.stage? round = none := by
              unfold stage?
              rw [(Table.contains_eq_false _ _).mp (Bool.not_eq_true _ ▸ hnew)]
              rfl
            rw [if_pos rfl, hnone]
            exact ⟨fun h => (by cases h), fun h => Or.inr ⟨plan, (Option.some.inj h).symm⟩⟩
          · rw [if_neg hround]
            exact ⟨id, Or.inl⟩
  | advance round' =>
      have hother : round ≠ round' := fun heq => hevent (heq ▸ rfl)
      cases hr : s.rounds.get? round' with
      | none =>
          simp only [step, hr]
          exact ⟨id, Or.inl⟩
      | some r =>
          obtain ⟨r', -, hrounds⟩ := turns hr
          simp only [step, hr, stage?, hrounds round, if_neg hother]
          exact ⟨id, Or.inl⟩
  | hear id =>
      unfold step
      simp only
      split
      · next sink hsink =>
          have hrounds : (s.hear id sink).rounds = s.rounds := by
            unfold hear
            split <;> rfl
          unfold stage?
          rw [hrounds]
          exact ⟨fun h => h, Or.inl⟩
      · exact ⟨fun h => h, Or.inl⟩
  | forget key => exact ⟨id, Or.inl⟩
  | task event => exact ⟨id, Or.inl⟩

/-! ## The way to a submission -/

/-- A round has tested a request when there was no result of it, and has marked it later. The events `between`
have come between the test and the mark, and those `after` since then. -/
structure Passage (s : RecheckSystem) (round : Nat) (request : VerificationRequest)
    (start between after : List RecheckStep) : Prop where
  tested : ∃ left, (s.run start).stage? round = some (.testing (request :: left))
  missed : (s.run start).recheck.isStored request.key = false
  marked : ∃ left, (s.run (start ++ .advance round :: (between ++ [.advance round]))).stage? round =
    some (.submitting request left)
  aside : .advance round ∉ between ∧ .advance round ∉ after

theorem run_append (s : RecheckSystem) (events events' : List RecheckStep) :
    s.run (events ++ events') = (s.run events).run events' := List.foldl_append

theorem run_concat (s : RecheckSystem) (events : List RecheckStep) (event : RecheckStep) :
    s.run (events ++ [event]) = (s.run events).step event := List.foldl_concat ..

/-- A round at a stage where it does not test has come there when it went on last. -/
theorem exists_last (hnew : s.stage? round = none) {events : List RecheckStep} {stage : RoundStage}
    (h : (s.run events).stage? round = some stage) (hstage : ∀ plan, stage ≠ .testing plan) :
    ∃ before after stage', events = before ++ .advance round :: after ∧ .advance round ∉ after ∧
      (s.run before).stage? round = some stage' ∧ (s.run before).Turns stage' stage ∧
      (s.run (before ++ [.advance round])).stage? round = some stage := by
  induction events using List.reverseRecOn with
  | nil =>
      have hnone : s.stage? round = some stage := h
      rw [hnew] at hnone
      cases hnone
  | append_singleton events event ih =>
      rw [run_concat] at h
      by_cases hevent : event = .advance round
      · subst hevent
        obtain ⟨stage', hbefore, hturns⟩ := stage?_advance h
        exact ⟨events, [], stage', rfl, List.not_mem_nil, hbefore, hturns, by rwa [run_concat]⟩
      · have hbefore := ((stage?_step hevent).2 h).resolve_right fun ⟨plan, hplan⟩ => hstage plan hplan
        obtain ⟨before, after, stage', rfl, hafter, hcame⟩ := ih hbefore
        refine ⟨before, after ++ [event], stage', by simp, ?_, hcame⟩
        simpa [hafter] using Ne.symm hevent

/-- A round that is about to submit a request has tested it and marked it. -/
theorem exists_passage (hnew : s.stage? round = none) {events : List RecheckStep}
    (h : (s.run events).stage? round = some (.submitting request left)) :
    ∃ start between after, events = start ++ .advance round :: (between ++ .advance round :: after) ∧
      s.Passage round request start between after := by
  obtain ⟨before, after, stage, rfl, hafter, hmarking, hturns, hmarked⟩ := exists_last hnew h nofun
  cases hturns
  obtain ⟨start, between, stage, rfl, hbetween, htesting, hturns, -⟩ := exists_last hnew hmarking nofun
  cases hturns with
  | missed hmissing =>
      refine ⟨start, between, after, by simp, ⟨_, htesting⟩, hmissing, ⟨left, ?_⟩, hbetween, hafter⟩
      simpa using hmarked

/-! ## What is kept -/

theorem isStored_store (r : Recheck) (key key' : RequestKey) (result : VerificationResult) :
    (r.store key result).isStored key' = (decide (key' = key) || r.isStored key') := by
  unfold Recheck.isStored Table.contains
  show ((r.results.put key result).get? key').isSome = _
  rw [Table.get?_put]
  by_cases hkey : key' = key
  · rw [if_pos hkey, decide_eq_true hkey]
    rfl
  · rw [if_neg hkey, decide_eq_false hkey]
    rfl

theorem isStored_forget (r : Recheck) (key key' : RequestKey) :
    (r.forget key).2.isStored key' = (decide (key' ≠ key) && r.isStored key') := by
  unfold Recheck.isStored Table.contains
  show ((r.results.erase key).get? key').isSome = _
  rw [Table.get?_erase]
  by_cases hkey : key' = key
  · rw [if_pos hkey, decide_eq_false (fun h => h hkey)]
    rfl
  · rw [if_neg hkey, decide_eq_true hkey]
    rfl

/-- A round neither keeps nor forgets a result. -/
theorem isStored_advance (s : RecheckSystem) (round : Nat) (r : RecheckRound) (key : RequestKey) :
    (s.advance round r).recheck.isStored key = s.recheck.isStored key := by
  obtain ⟨stage, n⟩ := r
  match stage with
  | .testing [] | .testing (_ :: _) | .retracting _ => rfl
  | .marking request left =>
      unfold RecheckSystem.advance
      simp only
      split
      · rename_i hreserve
        unfold Recheck.isStored
        rw [← (Recheck.reserve_granted hreserve).1]
        rfl
      · rename_i hreserve
        rw [Recheck.reserve_refused hreserve]
        rfl
  | .submitting request left =>
      unfold RecheckSystem.advance
      simp only
      split <;> rfl

/-- After an event there is a result if there was one that is not forgotten, or one is kept. -/
theorem isStored_step (s : RecheckSystem) (event : RecheckStep) (key : RequestKey) :
    (s.step event).recheck.isStored key = true ↔
      s.keptBy event = some key ∨ (s.recheck.isStored key = true ∧ event ≠ .forget key) := by
  have hsame : s.keptBy event = none → event ≠ .forget key →
      (s.step event).recheck.isStored key = s.recheck.isStored key →
      ((s.step event).recheck.isStored key = true ↔
        s.keptBy event = some key ∨ (s.recheck.isStored key = true ∧ event ≠ .forget key)) := by
    intro hkept hevent heq
    rw [hkept, heq]
    simp [hevent]
  cases event with
  | begin round plan =>
      refine hsame rfl (fun h => by cases h) ?_
      unfold step
      simp only
      split <;> rfl
  | advance round =>
      refine hsame rfl (fun h => by cases h) ?_
      unfold step
      simp only
      split
      · exact isStored_advance s round _ key
      · rfl
  | task event => exact hsame rfl (fun h => by cases h) rfl
  | forget key' =>
      by_cases hkey : key = key'
      · subst hkey
        show (s.recheck.forget key).2.isStored key = true ↔ _
        rw [isStored_forget, decide_eq_false (fun h => h rfl)]
        refine iff_of_false (fun h => by cases h) ?_
        rintro (h | ⟨-, h⟩)
        · cases h
        · exact h rfl
      · refine hsame rfl (fun h => ?_) ?_
        · injection h with h
          exact hkey h.symm
        · show (s.recheck.forget key').2.isStored key = s.recheck.isStored key
          rw [isStored_forget, decide_eq_true hkey]
          rfl
  | hear id =>
      have hevent : RecheckStep.hear id ≠ .forget key := fun h => by cases h
      have hquiet : s.keptBy (.hear id) = none →
          (s.step (.hear id)).recheck.isStored key = s.recheck.isStored key → _ :=
        fun hkept heq => hsame hkept hevent heq
      cases hsink : s.sinks.get? id with
      | none => exact hquiet (by simp only [keptBy, hsink]) (by simp only [step, hsink])
      | some sink =>
          obtain ⟨key', stage⟩ := sink
          cases stage with
          | waiting => exact hquiet (by simp only [keptBy, hsink]) (by simp only [step, hsink]; rfl)
          | kept => exact hquiet (by simp only [keptBy, hsink]) (by simp only [step, hsink]; rfl)
          | released => exact hquiet (by simp only [keptBy, hsink]) (by simp only [step, hsink]; rfl)
          | called result =>
              cases result with
              | error e =>
                  exact hquiet (by simp only [keptBy, hsink]) (by simp only [step, hsink]; rfl)
              | ok result =>
                  have hkept : s.keptBy (.hear id) = some key' := by simp only [keptBy, hsink]
                  have hstep : (s.step (.hear id)).recheck = s.recheck.store key' result := by
                    simp only [step, hsink]
                    rfl
                  rw [hkept, hstep, isStored_store, Bool.or_eq_true, decide_eq_true_iff,
                    Option.some_inj]
                  exact or_congr eq_comm (and_iff_left hevent).symm

/-- A result of the request is kept in a run and is not forgotten in the rest of it. -/
def Keeps (key : RequestKey) (s : RecheckSystem) : List RecheckStep → Prop
  | [] => False
  | event :: rest => (s.keptBy event = some key ∧ .forget key ∉ rest) ∨ Keeps key (s.step event) rest

theorem keeps_cons (event : RecheckStep) (rest : List RecheckStep) : Keeps key s (event :: rest) ↔
    (s.keptBy event = some key ∧ .forget key ∉ rest) ∨ Keeps key (s.step event) rest := Iff.rfl

/-- After a run there is a result if the run keeps one, or there was one that it does not forget. -/
theorem isStored_run (s : RecheckSystem) (events : List RecheckStep) (key : RequestKey) :
    (s.run events).recheck.isStored key = true ↔
      Keeps key s events ∨ (s.recheck.isStored key = true ∧ .forget key ∉ events) := by
  induction events generalizing s with
  | nil => simp [Keeps, run]
  | cons event rest ih =>
      show ((s.step event).run rest).recheck.isStored key = true ↔ _
      rw [ih, isStored_step, keeps_cons, List.mem_cons, not_or]
      constructor
      · rintro (hrest | ⟨hkept | ⟨hstored, hevent⟩, hforget⟩)
        · exact Or.inl (Or.inr hrest)
        · exact Or.inl (Or.inl ⟨hkept, hforget⟩)
        · exact Or.inr ⟨hstored, Ne.symm hevent, hforget⟩
      · rintro ((⟨hkept, hforget⟩ | hrest) | ⟨hstored, hevent, hforget⟩)
        · exact Or.inr ⟨Or.inl hkept, hforget⟩
        · exact Or.inl hrest
        · exact Or.inr ⟨Or.inr ⟨hstored, Ne.symm hevent⟩, hforget⟩

/-- What is about to be submitted is marked, so that nothing that hears of a task keeps a result of it. -/
theorem Sound.not_keptBy (hs : s.Sound past)
    (hround : s.stage? round = some (.submitting request left)) (event : RecheckStep) :
    s.keptBy event ≠ some request.key := by
  intro hkept
  obtain ⟨r, hr, hstage⟩ := Option.map_eq_some_iff.mp hround
  unfold keptBy at hkept
  split at hkept
  · split at hkept
    · next id key result hsink =>
        obtain rfl := Option.some.inj hkept
        have hfree := (hs.held_by_sink hsink (beq_self_eq_true request.key)).2.1 round r hr
        rw [hstage] at hfree
        exact absurd (beq_self_eq_true request.key) (Bool.not_eq_true _ ▸ hfree)
    · cases hkept
  · cases hkept

theorem Sound.not_keeps (hs : s.Sound past) (hround : s.stage? round = some (.submitting request left))
    {events : List RecheckStep} (hevents : .advance round ∉ events) : ¬ Keeps request.key s events := by
  induction events generalizing s past with
  | nil => exact id
  | cons event rest ih =>
      have hevent : event ≠ .advance round := fun heq => hevents (heq ▸ List.mem_cons_self)
      rintro (⟨hkept, -⟩ | hrest)
      · exact hs.not_keptBy hround event hkept
      · exact ih (hs.step event) ((stage?_step hevent).1 hround)
          (fun hmem => hevents (List.mem_cons_of_mem _ hmem)) hrest

/-- What is about to be submitted has a result if and only if one has been kept between the test and the mark
of the round, and has not been forgotten since. -/
theorem Passage.isStored_iff {start between after : List RecheckStep} (hs : s.Sound past)
    (h : s.Passage round request start between after) :
    (s.run (start ++ .advance round :: (between ++ .advance round :: after))).recheck.isStored
        request.key = true ↔
      Keeps request.key (s.run (start ++ [.advance round])) between ∧ .forget request.key ∉ after := by
  have hturn : ∀ t : RecheckSystem, (t.step (.advance round)).recheck.isStored request.key = true ↔
      t.recheck.isStored request.key = true := by
    intro t
    rw [isStored_step]
    simp [keptBy]
  obtain ⟨left, hmarked⟩ := h.marked
  have hsplit : start ++ .advance round :: (between ++ .advance round :: after) =
      (start ++ .advance round :: (between ++ [.advance round])) ++ after := by simp
  have hmark : s.run (start ++ .advance round :: (between ++ [.advance round])) =
      ((s.run (start ++ [.advance round])).run between).step (.advance round) := by
    rw [← run_append, ← run_concat]
    simp
  have hmissed : ¬ (s.run (start ++ [.advance round])).recheck.isStored request.key = true := by
    rw [run_concat, hturn, h.missed]
    exact Bool.false_ne_true
  obtain ⟨past', hsound⟩ := hs.run (start ++ .advance round :: (between ++ [.advance round]))
  rw [hsplit, run_append, isStored_run, or_iff_right (hsound.not_keeps hmarked h.aside.2), hmark, hturn,
    isStored_run, or_iff_left fun hkept => hmissed hkept.1]

end Linkage.RecheckSystem

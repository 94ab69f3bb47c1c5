import Dariyanaap.Load.OpenLoop

/-!
# Slots are neither lost nor duplicated

The whole-run accounting of an open-loop schedule. Across all workers the claimed slots are
those of the indices `0 .. next - 1`, each once, because a claim hands out exactly the slot it
counts (`claimed_perm`). Each worker carries the slots it claimed inside the window, in order,
up to the one it may still hold, and claims at most one past the window (`SlotInvariant`). When
every worker has returned nothing is held any more, and the counters of the report follow.
-/

namespace Dariyanaap

namespace OpenLoopWorker

/-- The slot a worker holds at a position of the loop. -/
def Pc.holding : Pc → List Slot
  | .waiting _ slot | .awake _ slot | .sending _ slot _ => [slot]
  | _ => []

/-- The slots a worker has claimed, in order. -/
def claimedSlots (past : List Event) : List Slot := past.filterMap Event.slot

/-- The slots a worker has carried, in order. -/
def sentSlots (past : List Event) : List Slot := (past.filterMap Event.sent).map Sent.slot

/-- What one worker does with the slots it claims. -/
structure SlotInvariant (window : RunWindow) (w : OpenLoopWorker) (past : List Event) : Prop where
  /-- A slot inside the window is carried, or still held. -/
  carried : (claimedSlots past).filter (fun slot => decide (slot.due < window.deadline)) =
    sentSlots past ++ w.pc.holding
  /-- A slot past the window ends the worker. -/
  overdue : ((claimedSlots past).filter fun slot => decide (window.deadline ≤ slot.due)).length ≤
    if w.pc = .returned then 1 else 0
  /-- No claimed slot is due before the recording starts. -/
  recorded : ∀ slot ∈ claimedSlots past, window.recordFrom ≤ slot.due

namespace SlotInvariant

variable {window : RunWindow} {w : OpenLoopWorker} {past : List Event} {pc : Pc}

/-- A new worker has claimed nothing. -/
theorem start : SlotInvariant window {} [] where
  carried := rfl
  overdue := Nat.zero_le _
  recorded := by simp [claimedSlots]

/-- Moving on with the same slot in hand, after events that are about no slot. -/
theorem goto (hinv : SlotInvariant window w past) {w' : OpenLoopWorker} {out : List Event}
    (hpc : w.pc = pc) (hrunning : pc ≠ .returned) (hholding : w'.pc.holding = pc.holding)
    (hslot : out.filterMap Event.slot = []) (hsent : out.filterMap Event.sent = []) :
    SlotInvariant window w' (past ++ out) := by
  have hclaimed : claimedSlots (past ++ out) = claimedSlots past := by
    rw [claimedSlots, List.filterMap_append, hslot, List.append_nil, claimedSlots]
  have hcarried : sentSlots (past ++ out) = sentSlots past := by
    rw [sentSlots, List.filterMap_append, hsent, List.append_nil, sentSlots]
  have hoverdue := hinv.overdue
  rw [hpc, if_neg hrunning] at hoverdue
  constructor
  · rw [hclaimed, hcarried, hholding, ← hpc, hinv.carried]
  · rw [hclaimed]
    exact hoverdue.trans (Nat.zero_le _)
  · rw [hclaimed]
    exact hinv.recorded

/-- A claim inside the window puts the slot in hand, one past it ends the worker. -/
theorem claim (hinv : SlotInvariant window w past) {slot : Slot} {freeAt : Instant}
    (hpc : w.pc = .claiming freeAt) (hrecorded : window.recordFrom ≤ slot.due) :
    SlotInvariant window
      { w with pc := if window.deadline ≤ slot.due then .returned else .waiting freeAt slot }
      (past ++ [.claimed slot]) := by
  have hclaimed : claimedSlots (past ++ [.claimed slot]) = claimedSlots past ++ [slot] := by
    simp [claimedSlots, Event.slot]
  have hsent : sentSlots (past ++ [.claimed slot]) = sentSlots past := by
    simp [sentSlots, List.filterMap_cons, Event.sent]
  have hcarried := hinv.carried
  have hoverdue := hinv.overdue
  rw [hpc] at hcarried hoverdue
  -- a worker that still claims has not claimed a slot past the window
  rw [if_neg (by simp), Nat.le_zero, List.length_eq_zero_iff] at hoverdue
  have hrest : ∀ s ∈ claimedSlots past ++ [slot], window.recordFrom ≤ s.due := by
    intro s hs
    rcases List.mem_append.mp hs with hs | hs
    · exact hinv.recorded s hs
    · rw [List.mem_singleton.mp hs]
      exact hrecorded
  by_cases hdue : window.deadline ≤ slot.due
  · rw [if_pos hdue]
    constructor
    · simp [hclaimed, hsent, hcarried, Pc.holding, not_lt.mpr hdue]
    · simp [hclaimed, hoverdue, hdue]
    · rw [hclaimed]
      exact hrest
  · rw [if_neg hdue]
    constructor
    · simp [hclaimed, hsent, hcarried, Pc.holding, not_le.mp hdue]
    · simp [hclaimed, hoverdue, hdue]
    · rw [hclaimed]
      exact hrest

/-- An exchange carries the slot in hand. -/
theorem exchanged (hinv : SlotInvariant window w past) {w' : OpenLoopWorker} {sent : Sent}
    (hpc : w.pc = .sending sent.freeAt sent.slot sent.sending) (hpc' : w'.pc = .top) :
    SlotInvariant window w' (past ++ [.exchanged sent]) := by
  have hclaimed : claimedSlots (past ++ [.exchanged sent]) = claimedSlots past := by
    simp [claimedSlots, List.filterMap_cons, Event.slot]
  have hsent : sentSlots (past ++ [.exchanged sent]) = sentSlots past ++ [sent.slot] := by
    simp [sentSlots, Event.sent]
  have hoverdue := hinv.overdue
  rw [hpc, if_neg (by simp)] at hoverdue
  constructor
  · rw [hclaimed, hsent, hinv.carried, hpc, hpc']
    simp [Pc.holding]
  · rw [hclaimed]
    exact hoverdue.trans (Nat.zero_le _)
  · rw [hclaimed]
    exact hinv.recorded

end SlotInvariant

/-- The schedule of a run: its rate, and the start of the recording. -/
def OnSchedule (rate : Rate) (window : RunWindow) (schedule : Schedule) : Prop :=
  schedule.rate = rate ∧ schedule.start = window.recordFrom

/-- No slot of the schedule is due before the recording starts. -/
theorem OnSchedule.recorded {rate : Rate} {window : RunWindow} {schedule : Schedule}
    (h : OnSchedule rate window schedule) (fl : Rounding) (index : ℕ) :
    window.recordFrom ≤ (schedule.slot fl index).due := by
  have hdue := schedule.rate.dueAt_nonneg fl index
  change window.recordFrom ≤ schedule.start + schedule.rate.dueAt fl index
  rw [h.2]
  lia

section Step

variable {Reply : Type*} {fl : Rounding} {perform : Reply → Option Exchange} {window : RunWindow}
  {rate : Rate} {schedule schedule' : Schedule} {w w' : OpenLoopWorker} {call : Call Reply}
  {past out : List Event}

/-- Every step keeps what a worker does with its slots. -/
theorem slot_invariant (hschedule : OnSchedule rate window schedule)
    (hinv : SlotInvariant window w past)
    (h : step fl perform window schedule w call = some (schedule', w', out)) :
    SlotInvariant window w' (past ++ out) := by
  -- only a claim takes a slot in hand, and only an exchange lets go of it
  cases step_turn h with
  | ended now hpc => exact hinv.goto hpc nofun rfl rfl rfl
  | turn now pc hpc hnext =>
    refine hinv.goto hpc nofun ?_ rfl rfl
    rcases hnext with rfl | rfl <;> rfl
  | connected hpc => exact hinv.goto hpc nofun rfl rfl rfl
  | timeoutsFailed hpc => exact hinv.goto hpc nofun rfl rfl rfl
  | refused hpc => exact hinv.goto hpc nofun rfl rfl rfl
  | connectFailed now hpc => exact hinv.goto hpc nofun rfl rfl rfl
  | slept hpc => exact hinv.goto hpc nofun rfl rfl rfl
  | free freeAt hpc => exact hinv.goto hpc nofun rfl rfl rfl
  | claimedLate freeAt hpc hdue =>
    have := hinv.claim hpc (hschedule.recorded fl schedule.next)
    rwa [if_pos hdue] at this
  | claimed freeAt hpc hdue =>
    have := hinv.claim hpc (hschedule.recorded fl schedule.next)
    rwa [if_neg hdue] at this
  | woke freeAt slot woke hpc => exact hinv.goto hpc nofun rfl rfl rfl
  | sending freeAt slot sending hpc => exact hinv.goto hpc nofun rfl rfl rfl
  | exchanged reply sent hpc => exact hinv.exchanged hpc rfl

/-- A step hands out exactly the slots the schedule counts, and never moves the schedule. -/
theorem step_issues (hschedule : OnSchedule rate window schedule)
    (h : step fl perform window schedule w call = some (schedule', w', out)) :
    OnSchedule rate window schedule' ∧
      (List.range schedule'.next).map (schedule'.slot fl) =
        (List.range schedule.next).map (schedule.slot fl) ++ out.filterMap Event.slot := by
  -- a claim hands out the slot of the index it counts; other steps leave the counter alone
  have hclaim : (List.range (schedule.next + 1)).map (schedule.slot fl) =
      (List.range schedule.next).map (schedule.slot fl) ++ [schedule.slot fl schedule.next] := by
    rw [List.range_succ, List.map_append, List.map_singleton]
  cases step_turn h with
  | claimedLate => exact ⟨hschedule, hclaim⟩
  | claimed => exact ⟨hschedule, hclaim⟩
  | _ => exact ⟨hschedule, (List.append_nil _).symm⟩

end Step

/-- Every measured attempt of a worker is a failed connect or a measured slot. -/
theorem length_attempts (window : RunWindow) (past : List Event) :
    (past.filterMap (Event.attempt window)).length =
      (past.filterMap (Event.attempt window)).countP Attempt.refused +
        (past.filterMap (Event.measured window)).length := by
  induction past with
  | nil => rfl
  | cons event past ih =>
    rcases event with now | slot | sent
    · by_cases hmeasuring : window.recordFrom ≤ now
      · simp [List.filterMap_cons, List.countP_cons, Event.attempt, Event.measured, hmeasuring, ih]
        omega
      · simp [List.filterMap_cons, Event.attempt, Event.measured, hmeasuring, ih]
    · simpa [List.filterMap_cons, Event.attempt, Event.measured] using ih
    · by_cases hmeasuring : window.recordFrom ≤ sent.slot.due
      · simp [Event.attempt, Event.measured, hmeasuring, ih]
        omega
      · simp [Event.attempt, Event.measured, hmeasuring, ih]

/-- A worker that carries only slots due after the start of the recording measures them all. -/
theorem measured_eq_sent {window : RunWindow} {past : List Event}
    (h : ∀ slot ∈ sentSlots past, window.recordFrom ≤ slot.due) :
    past.filterMap (Event.measured window) = past.filterMap Event.sent := by
  refine List.filterMap_congr fun event hevent => ?_
  rcases event with now | slot | sent
  · rfl
  · rfl
  · exact if_pos (h sent.slot (List.mem_map_of_mem (List.mem_filterMap.mpr ⟨_, hevent, rfl⟩)))

end OpenLoopWorker

/-! ## All workers of a run -/

namespace OpenLoop

open OpenLoopWorker

/-- The slots the workers of a run have claimed. -/
def claimed {Reply : Type*} (state : State Reply) : List Slot :=
  state.threads.flatMap fun t => claimedSlots t.past

/-- The slots the workers of a run have carried, one for each exchange. -/
def sent {Reply : Type*} (state : State Reply) : List Slot :=
  state.threads.flatMap fun t => sentSlots t.past

/-- What a finished run says about its slots. -/
structure SlotsAccounted {Reply : Type*} (fl : Rounding) (plan : OpenLoopPlan) (window : RunWindow)
    (state : State Reply) (run : OpenLoopRun) : Prop where
  /-- All workers together claimed every index below `slots_claimed`, each once. -/
  claimed : (claimed state).Perm ((List.range run.slotsClaimed).map fun index =>
    ⟨index, window.recordFrom + plan.rate.dueAt fl index⟩)
  /-- No slot is carried twice. -/
  sentOnce : (sent state).Nodup
  /-- The carried slots are the claimed ones inside the window. -/
  sent : ∀ slot, slot ∈ sent state ↔ slot ∈ OpenLoop.claimed state ∧ slot.due < window.deadline
  /-- Each worker carries its own, and claims at most one past the window. -/
  own : ∀ t ∈ state.threads,
    sentSlots t.past = (claimedSlots t.past).filter fun slot => decide (slot.due < window.deadline)
  overdue : ∀ t ∈ state.threads,
    ((claimedSlots t.past).filter fun slot => decide (window.deadline ≤ slot.due)).length ≤ 1
  /-- What was claimed and not carried is at most one slot for each worker. -/
  atMost : (OpenLoop.sent state).length ≤ run.slotsClaimed
  atLeast : run.slotsClaimed ≤ (OpenLoop.sent state).length + state.threads.length
  /-- Every attempt is an exchange or a failed connect. -/
  attempted : run.result.attempted = (OpenLoop.sent state).length + run.result.errors.connect
  /-- One sample of each lag for each exchange. -/
  scheduleLag : run.scheduleLag.count = (OpenLoop.sent state).length
  connectionWait : run.connectionWait.count = (OpenLoop.sent state).length
  rigLag : run.rigLag.count = (OpenLoop.sent state).length

section Runs

variable {Reply : Type*} {fl : Rounding} {perform : Reply → Option Exchange} {plan : OpenLoopPlan}
  {started : Instant} {threads : ℕ} {schedule : List (ℕ × Call Reply)} {state : State Reply}

/-- In every run the schedule stays where it is and every worker keeps its slots. -/
theorem run_slot_invariant
    (hrun : (spawn Reply plan started threads).run
      (OpenLoopWorker.step fl perform (plan.window started)) schedule = some state) :
    OnSchedule plan.rate (plan.window started) state.shared ∧
      ∀ t ∈ state.threads, SlotInvariant (plan.window started) t.state t.past := by
  refine Interleaving.run_invariant (J := OnSchedule plan.rate (plan.window started))
    (I := fun w _ past => SlotInvariant (plan.window started) w past) ?_ ⟨rfl, rfl⟩ ?_ hrun
  · intro schedule w labels past call schedule' w' out hschedule hinv hstep
    exact ⟨(step_issues hschedule hstep).1, slot_invariant hschedule hinv hstep⟩
  · exact Interleaving.forall_init
      (I := fun w _ past => SlotInvariant (plan.window started) w past) .start

/-- At any point of a run the claimed slots are those of the indices handed out so far. -/
theorem claimed_perm
    (hrun : (spawn Reply plan started threads).run
      (OpenLoopWorker.step fl perform (plan.window started)) schedule = some state) :
    (claimed state).Perm ((List.range state.shared.next).map fun index =>
      ⟨index, (plan.window started).recordFrom + plan.rate.dueAt fl index⟩) := by
  have hledger := Interleaving.run_ledger (J := OnSchedule plan.rate (plan.window started))
    (fun schedule => (List.range schedule.next).map (schedule.slot fl)) Event.slot
    (fun _ _ _ _ _ _ hschedule hstep => step_issues hschedule hstep) ⟨rfl, rfl⟩
    (by simp [spawn, Interleaving.Config.init, Interleaving.Thread.fresh]) hrun
  have hslot : state.shared.slot fl = fun index =>
      (⟨index, (plan.window started).recordFrom + plan.rate.dueAt fl index⟩ : Slot) := by
    obtain ⟨hrate, hstart⟩ := (run_slot_invariant hrun).1
    funext index
    rw [Schedule.slot, hrate, hstart]
  rw [hslot] at hledger
  exact hledger

/-- Workers that have returned hold nothing. -/
theorem own_of_returned
    (hrun : (spawn Reply plan started threads).run
      (OpenLoopWorker.step fl perform (plan.window started)) schedule = some state)
    (hreturned : ∀ t ∈ state.threads, t.state.pc = .returned) :
    ∀ t ∈ state.threads, sentSlots t.past =
      (claimedSlots t.past).filter fun slot =>
        decide (slot.due < (plan.window started).deadline) := by
  intro t ht
  rw [((run_slot_invariant hrun).2 t ht).carried, hreturned t ht]
  exact (List.append_nil _).symm

/-- One more element in each list of a family is at most one more for each list. -/
theorem length_flatMap_le {α β : Type*} {xs : List α} {f g : α → List β}
    (h : ∀ x ∈ xs, (f x).length ≤ (g x).length + 1) :
    (xs.flatMap f).length ≤ (xs.flatMap g).length + xs.length := by
  induction xs with
  | nil => exact le_rfl
  | cons x xs ih =>
    have hx := h x List.mem_cons_self
    have hxs := ih fun y hy => h y (List.mem_cons_of_mem _ hy)
    simp only [List.flatMap_cons, List.length_append, List.length_cons]
    omega

/-- The three lags of a run hold one sample for each measured slot. -/
theorem count_lag (lag : OpenLoopWorker → Histogram) (sample : Sent → Nanos)
    (hlag : ∀ t ∈ state.threads, lag t.state =
      .recordAll ((t.past.filterMap (Event.measured (plan.window started))).map sample))
    (hmeasured : ∀ t ∈ state.threads,
      t.past.filterMap (Event.measured (plan.window started)) = t.past.filterMap Event.sent) :
    (Histogram.mergeAll ((state.threads.map (·.state)).map lag)).count = (sent state).length := by
  have hmap : (state.threads.map (·.state)).map lag =
      state.threads.map fun t => .recordAll ((t.past.filterMap Event.sent).map sample) := by
    rw [List.map_map]
    refine List.map_congr_left fun t ht => ?_
    rw [Function.comp_apply, hlag t ht, hmeasured t ht]
  rw [hmap, Histogram.count_mergeAll, sent]
  simp only [List.length_flatMap, sentSlots, List.length_map]

/-- The schedule counts the claimed slots. -/
theorem length_claimed
    (hrun : (spawn Reply plan started threads).run
      (OpenLoopWorker.step fl perform (plan.window started)) schedule = some state) :
    (claimed state).length = state.shared.next := by
  rw [(claimed_perm hrun).length_eq, List.length_map, List.length_range]

/-- No slot is claimed twice: slots of different indices are different. -/
theorem nodup_claimed
    (hrun : (spawn Reply plan started threads).run
      (OpenLoopWorker.step fl perform (plan.window started)) schedule = some state) :
    (claimed state).Nodup := by
  refine (claimed_perm hrun).nodup_iff.mpr (List.nodup_range.map fun i j hij => ?_)
  exact congrArg Slot.index hij

/-- Workers that have returned carried what they claimed inside the window. -/
theorem sent_of_returned
    (hrun : (spawn Reply plan started threads).run
      (OpenLoopWorker.step fl perform (plan.window started)) schedule = some state)
    (hreturned : ∀ t ∈ state.threads, t.state.pc = .returned) :
    sent state = (claimed state).filter fun slot =>
      decide (slot.due < (plan.window started).deadline) := by
  rw [sent, claimed, List.filter_flatMap]
  exact List.flatMap_congr (own_of_returned hrun hreturned)

/-- Each of them claimed at most one slot past it. -/
theorem overdue_of_returned
    (hrun : (spawn Reply plan started threads).run
      (OpenLoopWorker.step fl perform (plan.window started)) schedule = some state)
    (hreturned : ∀ t ∈ state.threads, t.state.pc = .returned) :
    ∀ t ∈ state.threads, ((claimedSlots t.past).filter fun slot =>
      decide ((plan.window started).deadline ≤ slot.due)).length ≤ 1 := by
  intro t ht
  have := ((run_slot_invariant hrun).2 t ht).overdue
  rwa [if_pos (hreturned t ht)] at this

/-- A worker's claims are the slots it carried and at most one more. -/
theorem length_claimedSlots_le
    (hrun : (spawn Reply plan started threads).run
      (OpenLoopWorker.step fl perform (plan.window started)) schedule = some state)
    (hreturned : ∀ t ∈ state.threads, t.state.pc = .returned) :
    ∀ t ∈ state.threads, (claimedSlots t.past).length ≤ (sentSlots t.past).length + 1 := by
  intro t ht
  have hsplit := List.length_eq_length_filter_add (l := claimedSlots t.past)
    (fun slot => decide (slot.due < (plan.window started).deadline))
  have hrest : ((claimedSlots t.past).filter fun slot =>
      !decide (slot.due < (plan.window started).deadline)).length ≤ 1 := by
    simpa only [← decide_not, not_lt] using overdue_of_returned hrun hreturned t ht
  rw [own_of_returned hrun hreturned t ht, hsplit]
  omega

/-- Every exchange is measured: carried slots are claimed slots, due after the recording
starts. -/
theorem measured_of_returned
    (hrun : (spawn Reply plan started threads).run
      (OpenLoopWorker.step fl perform (plan.window started)) schedule = some state)
    (hreturned : ∀ t ∈ state.threads, t.state.pc = .returned) :
    ∀ t ∈ state.threads,
      t.past.filterMap (Event.measured (plan.window started)) = t.past.filterMap Event.sent := by
  intro t ht
  refine measured_eq_sent fun slot hslot => ((run_slot_invariant hrun).2 t ht).recorded slot ?_
  rw [own_of_returned hrun hreturned t ht] at hslot
  exact (List.mem_filter.mp hslot).1

/-- The attempts of the workers together are their exchanges and their failed connects. -/
theorem length_attempts_of_measured
    (hmeasured : ∀ t ∈ state.threads,
      t.past.filterMap (Event.measured (plan.window started)) = t.past.filterMap Event.sent) :
    ((state.threads.flatMap (·.past)).filterMap (Event.attempt (plan.window started))).length =
      (sent state).length + ((state.threads.flatMap (·.past)).filterMap
        (Event.attempt (plan.window started))).countP Attempt.refused := by
  have hexchanges : (sent state).length =
      ((state.threads.flatMap (·.past)).filterMap
        (Event.measured (plan.window started))).length := by
    rw [sent, List.filterMap_flatMap, List.flatMap_congr hmeasured]
    simp only [List.length_flatMap, sentSlots, List.length_map]
  rw [hexchanges, add_comm]
  exact length_attempts (plan.window started) _

/-- Slots are neither lost nor duplicated: in every run in which all workers have returned,
whatever the interleaving, the report accounts for every slot the schedule handed out. -/
theorem slots_accounted
    (hrun : (spawn Reply plan started threads).run
      (OpenLoopWorker.step fl perform (plan.window started)) schedule = some state)
    (hreturned : ∀ t ∈ state.threads, t.state.pc = .returned) (resolution : Nanos) :
    SlotsAccounted fl plan (plan.window started) state (collect fl plan resolution state) := by
  have hworkers := run_worker_invariant hrun
  have hcounts := counts_attempts hrun
  have hlength := length_claimed hrun
  have hsent := sent_of_returned hrun hreturned
  have hmeasured := measured_of_returned hrun hreturned
  constructor
  · exact claimed_perm hrun
  · rw [hsent]
    exact (nodup_claimed hrun).filter _
  · intro slot
    rw [hsent, List.mem_filter, decide_eq_true_eq]
  · exact own_of_returned hrun hreturned
  · exact overdue_of_returned hrun hreturned
  · change _ ≤ state.shared.next
    rw [← hlength, hsent]
    exact List.length_filter_le ..
  · -- a worker claims at most one slot it does not carry
    change state.shared.next ≤ _
    rw [← hlength]
    exact length_flatMap_le (length_claimedSlots_le hrun hreturned)
  · change (Tally.mergeAll _).attempted = _ + (Tally.mergeAll _).errors.connect
    have hattempts := length_attempts_of_measured hmeasured
    rw [List.filterMap_flatMap] at hattempts
    rw [hcounts.attempted, hcounts.connect]
    exact hattempts
  · exact count_lag _ _ (fun t ht => (hworkers t ht).lag) hmeasured
  · exact count_lag _ _ (fun t ht => (hworkers t ht).connectionWait) hmeasured
  · exact count_lag _ _ (fun t ht => (hworkers t ht).rigLag) hmeasured

/-- Two workers for 2 ms at 1000 requests per second: each carries a slot, one of them loses its
connection and reconnects, and both end on a claim past the end. -/
theorem slots_accounted_two_workers :
    ∃ state : State Exchange,
      (spawn Exchange { duration := 2 } 0 2).run
          (OpenLoopWorker.step .exact some (OpenLoopPlan.window { duration := 2 } 0))
          [(0, .now 0), (0, .connect .connected), (1, .now 0), (1, .connect .connected),
            (0, .now 1), (1, .now 2), (1, .claim), (0, .claim),
            (0, .sleepUntil 1_000_000 1_000_001), (1, .sleepUntil 0 3), (1, .now 4),
            (0, .now 1_000_002),
            (1, .perform ⟨.readFailed, 0, false⟩), (0, .perform ⟨.succeeded, 9, true⟩),
            (1, .now 5), (1, .connect .refused), (1, .now 6), (1, .sleepFor),
            (0, .now 1_000_020), (0, .now 1_000_021), (0, .claim), (1, .now 1_500_000),
            (1, .connect .connected), (1, .now 1_500_001), (1, .claim)] = some state ∧
        (claimed state).map Slot.index = [1, 2, 0, 3] ∧
        SlotsAccounted .exact { duration := 2 } (OpenLoopPlan.window { duration := 2 } 0) state
          (collect .exact { duration := 2 } 0 state) := by
  refine Interleaving.exists_run_eq (fun state : State Exchange =>
    ((claimed state).map Slot.index, state.threads.all fun t => t.state.pc == .returned))
    ([1, 2, 0, 3], true) (by decide +kernel) fun state hrun hcomputed => ?_
  obtain ⟨hclaimed, hreturned⟩ := Prod.mk.inj hcomputed
  refine ⟨hclaimed, slots_accounted hrun (fun t ht => ?_) 0⟩
  exact eq_of_beq (List.all_eq_true.mp hreturned t ht)

end Runs

end OpenLoop

end Dariyanaap

import Dariyanaap.Load.OpenLoop
import Dariyanaap.Load.Replies

/-!
# Who is to blame for the lag

An open-loop worker splits the lateness of a request between the time before it came free and
the time after. Under a clock that never goes back and a `sleep_until` that never returns
early, the readings a split is made of are ordered (`Sent.Ordered`), and then each part is what
it is said to be: `Sent.Split`. Every sample of the run is therefore a legal argument of
`Histogram::record`, and `kept_up` sees nothing of the target's service times.
-/

namespace Dariyanaap

namespace OpenLoopWorker

/-- The clock readings of a worker, in order. -/
def readings (labels : List (Call Script)) : List Instant :=
  labels.flatMap (Call.instants Script.instants)

/-- A clock that never goes back and sleeps that never end early, as one worker sees them. -/
structure Timely (labels : List (Call Script)) : Prop where
  clock : (readings labels).Pairwise (· ≤ ·)
  sleep : ∀ call ∈ labels, call.Punctual

instance (labels : List (Call Script)) : Decidable (Timely labels) :=
  decidable_of_iff ((readings labels).Pairwise (· ≤ ·) ∧ ∀ call ∈ labels, call.Punctual)
    ⟨fun h => ⟨h.1, h.2⟩, fun h => ⟨h.clock, h.sleep⟩⟩

namespace Sent

/-- The readings of a carried slot, in the order they were taken. -/
structure Ordered (sent : Sent) : Prop where
  due : sent.slot.due ≤ sent.sending
  free : sent.freeAt ≤ sent.sending
  elapsed : 0 ≤ sent.result.elapsed

/-- The latency a carried slot puts in the histogram, if its outcome is timed. -/
def latency (sent : Sent) : Option Nanos :=
  if sent.result.outcome.timed then some sent.fromDue else none

/-- How long after it could have been sent a request was sent. -/
def overshoot (sent : Sent) : Nanos := between (max sent.slot.due sent.freeAt) sent.sending

/-- What the split of a carried slot's lateness means. -/
structure Split (sent : Sent) : Prop where
  sum : sent.waited + sent.rig = sent.late
  late_nonneg : 0 ≤ sent.late
  waited_nonneg : 0 ≤ sent.waited
  rig_nonneg : 0 ≤ sent.rig
  /-- The rig's part does not depend on what the target did with the request. -/
  rig : sent.rig = sent.overshoot
  fromDue : sent.fromDue = sent.late + sent.result.elapsed
  fromDue_nonneg : 0 ≤ sent.fromDue

/-- Ordered readings make the split what it says. -/
theorem Ordered.split {sent : Sent} (h : sent.Ordered) : sent.Split := by
  obtain ⟨hdue, hfree, helapsed⟩ := h
  have hlate : sent.late = sent.sending - sent.slot.due :=
    max_eq_right (sub_nonneg.mpr hdue)
  -- if the worker came free after the slot was due, that part of the lateness is the wait
  have hrig : sent.rig = sent.sending - max sent.slot.due sent.freeAt := by
    rw [Sent.rig, hlate, waited, between]
    rcases le_total sent.slot.due sent.freeAt with hle | hle
    · rw [max_eq_right (sub_nonneg.mpr hle), max_eq_right hle]
      lia
    · rw [max_eq_left (sub_nonpos.mpr hle), max_eq_left hle]
      lia
  have hfrom : sent.fromDue = sent.late + sent.result.elapsed := by
    rw [hlate]
    rfl
  have hlate_nonneg : 0 ≤ sent.late := le_max_left _ _
  constructor
  · rw [Sent.rig]
    lia
  · exact hlate_nonneg
  · exact le_max_left _ _
  · rw [hrig]
    exact sub_nonneg.mpr (max_le hdue hfree)
  · exact hrig
  · exact hfrom
  · rw [hfrom]
    exact add_nonneg hlate_nonneg helapsed

end Sent

/-- The readings a worker keeps at a position of the loop. -/
def Pc.Timed (readings : List Instant) : Pc → Prop
  | .claiming freeAt | .waiting freeAt _ => freeAt ∈ readings
  | .awake freeAt slot => freeAt ∈ readings ∧ ∃ woke ∈ readings, slot.due ≤ woke
  | .sending freeAt slot now => slot.due ≤ now ∧ freeAt ≤ now
  | _ => True

/-- What a worker knows about time: the readings it keeps, and the slots it carried. -/
structure TimeInvariant (w : OpenLoopWorker) (labels : List (Call Script)) (past : List Event) :
    Prop where
  timed : w.pc.Timed (readings labels)
  ordered : ∀ sent ∈ past.filterMap Event.sent, sent.Ordered

namespace Timely

variable {labels : List (Call Script)} {call : Call Script}

@[simp]
theorem readings_append_singleton (labels : List (Call Script)) (call : Call Script) :
    readings (labels ++ [call]) = readings labels ++ call.instants Script.instants := by
  simp [readings]

/-- A shorter past was timely, too. -/
theorem of_append (h : Timely (labels ++ [call])) : Timely labels where
  clock := by
    have := h.clock
    rw [readings_append_singleton, List.pairwise_append] at this
    exact this.1
  sleep call hmem := h.sleep call (List.mem_append_left _ hmem)

/-- A reading is at or after every earlier one. -/
theorem le_now {now earlier : Instant} (h : Timely (labels ++ [.now now]))
    (hearlier : earlier ∈ readings labels) : earlier ≤ now := by
  have := h.clock
  rw [readings_append_singleton, List.pairwise_append] at this
  exact this.2.2 earlier hearlier now (by simp [Call.instants])

/-- The readings of an exchange are ordered. -/
theorem exchange {script : Script} (h : Timely (labels ++ [.perform script])) :
    script.instants.Pairwise (· ≤ ·) := by
  have := h.clock
  rw [readings_append_singleton, List.pairwise_append] at this
  exact this.2.1

end Timely

variable {fl : Rounding} {protocol : Protocol} {window : RunWindow} {schedule schedule' : Schedule}
  {w w' : OpenLoopWorker} {call : Call Script} {labels : List (Call Script)} {past out : List Event}

/-- Every step of a worker under a sound clock keeps what it knows about time. -/
theorem time_invariant (htimely : Timely (labels ++ [call])) (hinv : TimeInvariant w labels past)
    (h : step fl protocol.perform window schedule w call = some (schedule', w', out)) :
    TimeInvariant w' (labels ++ [call]) (past ++ out) := by
  obtain ⟨htimed, hordered⟩ := hinv
  -- a step that carries no slot leaves the carried ones as they were
  have hquiet : ∀ {quiet : List Event}, quiet.filterMap Event.sent = [] →
      ∀ sent ∈ (past ++ quiet).filterMap Event.sent, sent.Ordered := fun {quiet} hnone => by
    rw [List.filterMap_append, hnone, List.append_nil]
    exact hordered
  cases step_turn h with
  | ended now hpc => exact ⟨trivial, hquiet rfl⟩
  | turn now pc hpc hnext =>
    refine ⟨?_, hquiet rfl⟩
    rcases hnext with rfl | rfl <;> trivial
  | connected hpc => exact ⟨trivial, hquiet rfl⟩
  | timeoutsFailed hpc => exact ⟨trivial, hquiet rfl⟩
  | refused hpc => exact ⟨trivial, hquiet rfl⟩
  | connectFailed now hpc => exact ⟨trivial, hquiet rfl⟩
  | slept hpc => exact ⟨trivial, hquiet rfl⟩
  | free freeAt hpc =>
    refine ⟨?_, hquiet rfl⟩
    simp [Pc.Timed, Call.instants]
  | claimedLate freeAt hpc hdue => exact ⟨trivial, hquiet rfl⟩
  | claimed freeAt hpc hdue =>
    rw [hpc] at htimed
    refine ⟨?_, hquiet rfl⟩
    rw [Timely.readings_append_singleton]
    exact List.mem_append_left _ htimed
  | woke freeAt slot woke hpc =>
    rw [hpc] at htimed
    refine ⟨?_, hquiet rfl⟩
    rw [Timely.readings_append_singleton]
    refine ⟨List.mem_append_left _ htimed, woke, ?_, ?_⟩
    · exact List.mem_append_right _ (by simp [Call.instants])
    · exact htimely.sleep (.sleepUntil slot.due woke) (by simp)
  | sending freeAt slot sending hpc =>
    -- the worker woke no earlier than the slot is due, and the clock has not gone back since
    rw [hpc] at htimed
    obtain ⟨hfree, woke, hwoke, hdue⟩ := htimed
    refine ⟨?_, hquiet rfl⟩
    exact ⟨hdue.trans (htimely.le_now hwoke), htimely.le_now hfree⟩
  | exchanged script sent hpc hsocket hreply =>
    rw [hpc] at htimed
    obtain ⟨hdue, hfree⟩ := htimed
    obtain ⟨⟨e, rest⟩, hperform, heq⟩ := Option.map_eq_some_iff.mp hreply
    -- the readings of the exchange itself are ordered, too
    have helapsed : 0 ≤ sent.result.elapsed := by
      rw [← heq]
      exact performRequest_elapsed_nonneg hperform htimely.exchange
    have hpc' : (finishTurn window w sent).pc = .top := rfl
    refine ⟨by rw [hpc']; trivial, ?_⟩
    intro other hother
    rw [List.filterMap_append] at hother
    rcases List.mem_append.mp hother with hother | hother
    · exact hordered other hother
    · rw [List.mem_singleton.mp hother]
      exact ⟨hdue, hfree, helapsed⟩

/-- The timed attempts of a worker are its measured slots with a timed outcome. -/
theorem samples_eq_latencies (window : RunWindow) (past : List Event) :
    (past.filterMap (Event.attempt window)).filterMap Attempt.sample =
      (past.filterMap (Event.measured window)).filterMap Sent.latency := by
  rw [List.filterMap_filterMap, List.filterMap_filterMap]
  refine List.filterMap_congr fun event _ => ?_
  rcases event with now | slot | sent
  · by_cases hmeasuring : window.recordFrom ≤ now <;>
      simp [Event.attempt, Event.measured, Attempt.sample, hmeasuring]
  · rfl
  · by_cases hmeasuring : window.recordFrom ≤ sent.slot.due <;>
      simp [Event.attempt, Event.measured, Attempt.sample, Sent.latency, hmeasuring]

end OpenLoopWorker

/-! ## All workers of a run -/

namespace OpenLoop

open OpenLoopWorker

/-- The measured slots of a run, one for each exchange that was recorded. -/
def measured {Reply : Type*} (window : RunWindow) (state : State Reply) : List Sent :=
  state.threads.flatMap fun t => t.past.filterMap (Event.measured window)

/-- What a run reports about lateness: the four histograms hold exactly the parts of the split
of every measured slot, none of them negative. -/
structure LagAccounted (window : RunWindow) (state : State Script) (run : OpenLoopRun) : Prop where
  split : ∀ sent ∈ measured window state, sent.Split
  scheduleLag : Histogram.Records ((measured window state).map Sent.late) run.scheduleLag
  connectionWait : Histogram.Records ((measured window state).map Sent.waited) run.connectionWait
  rigLag : Histogram.Records ((measured window state).map Sent.rig) run.rigLag
  histogram : Histogram.Records ((measured window state).filterMap Sent.latency) run.histogram

section Runs

variable {fl : Rounding} {protocol : Protocol} {plan : OpenLoopPlan} {started : Instant}
  {threads : ℕ} {schedule : List (ℕ × Call Script)} {state : State Script}

/-- Under a sound clock the readings of every carried slot are ordered. -/
theorem run_time_invariant
    (hrun : (spawn Script plan started threads).run
      (OpenLoopWorker.step fl protocol.perform (plan.window started)) schedule = some state)
    (htimely : ∀ t ∈ state.threads, Timely t.labels) :
    ∀ t ∈ state.threads, TimeInvariant t.state t.labels t.past := by
  -- the invariant assumes what was timely so far, so the induction can peel the last call
  have hinv := Interleaving.run_local_invariant
    (I := fun w labels past => Timely labels → TimeInvariant w labels past) ?_ ?_ hrun
  · exact fun t ht => hinv t ht (htimely t ht)
  · intro schedule w labels past call schedule' w' out hinv hstep htimely
    exact time_invariant htimely (hinv htimely.of_append) hstep
  · exact fun _ => ⟨trivial, by simp⟩

/-- A histogram that every worker filled with a sample of its measured slots holds, once merged,
the samples of all of them. -/
theorem records_merged (window : RunWindow) {kept : OpenLoopWorker → Histogram}
    (sample : Sent → Option Nanos)
    (hkept : ∀ t ∈ state.threads, kept t.state =
      .recordAll ((t.past.filterMap (Event.measured window)).filterMap sample))
    (hnn : ∀ sent ∈ measured window state, ∀ v, sample sent = some v → 0 ≤ v) :
    Histogram.Records ((measured window state).filterMap sample)
      (.mergeAll ((state.threads.map (·.state)).map kept)) := by
  have hmap : (state.threads.map (·.state)).map kept = state.threads.map fun t =>
      .recordAll ((t.past.filterMap (Event.measured window)).filterMap sample) := by
    rw [List.map_map]
    exact List.map_congr_left hkept
  rw [hmap, measured, List.filterMap_flatMap]
  refine Histogram.records_mergeAll fun t ht v hv => ?_
  obtain ⟨sent, hsent, heq⟩ := List.mem_filterMap.mp hv
  exact hnn sent (List.mem_flatMap.mpr ⟨t, ht, hsent⟩) v heq

/-- The same for a lag, which every measured slot has. -/
theorem records_merged_lag (window : RunWindow) {kept : OpenLoopWorker → Histogram}
    {lag : Sent → Nanos}
    (hkept : ∀ t ∈ state.threads, kept t.state =
      .recordAll ((t.past.filterMap (Event.measured window)).map lag))
    (hnn : ∀ sent ∈ measured window state, 0 ≤ lag sent) :
    Histogram.Records ((measured window state).map lag)
      (.mergeAll ((state.threads.map (·.state)).map kept)) := by
  rw [← List.filterMap_eq_map]
  refine records_merged window (some ∘ lag) (fun t ht => ?_) fun sent hsent v hv => ?_
  · rw [hkept t ht, List.filterMap_eq_map]
  · rw [← Option.some.inj hv]
    exact hnn sent hsent

/-- The measured slots of a run under a sound clock. -/
theorem measured_ordered
    (hrun : (spawn Script plan started threads).run
      (OpenLoopWorker.step fl protocol.perform (plan.window started)) schedule = some state)
    (htimely : ∀ t ∈ state.threads, Timely t.labels) :
    ∀ sent ∈ measured (plan.window started) state, sent.Ordered := by
  intro sent hsent
  obtain ⟨t, ht, hmem⟩ := List.mem_flatMap.mp hsent
  obtain ⟨event, hevent, hmeasured⟩ := List.mem_filterMap.mp hmem
  refine (run_time_invariant hrun htimely t ht).ordered sent ?_
  refine List.mem_filterMap.mpr ⟨event, hevent, ?_⟩
  rcases event with now | slot | other
  · cases hmeasured
  · cases hmeasured
  · exact (Option.ite_none_right_eq_some.mp hmeasured).2

/-- The lag split of a run under a sound clock. -/
theorem lag_accounted
    (hrun : (spawn Script plan started threads).run
      (OpenLoopWorker.step fl protocol.perform (plan.window started)) schedule = some state)
    (htimely : ∀ t ∈ state.threads, Timely t.labels) (resolution : Nanos) :
    LagAccounted (plan.window started) state (collect fl plan resolution state) := by
  have hworkers := run_worker_invariant hrun
  have hsplit : ∀ sent ∈ measured (plan.window started) state, sent.Split := fun sent hsent =>
    (measured_ordered hrun htimely sent hsent).split
  constructor
  · exact hsplit
  · exact records_merged_lag _ (fun t ht => (hworkers t ht).lag) fun s hs =>
      (hsplit s hs).late_nonneg
  · exact records_merged_lag _ (fun t ht => (hworkers t ht).connectionWait) fun s hs =>
      (hsplit s hs).waited_nonneg
  · exact records_merged_lag _ (fun t ht => (hworkers t ht).rigLag) fun s hs =>
      (hsplit s hs).rig_nonneg
  · -- the latencies are in the tally, and count only what was timed
    change Histogram.Records _ (Tally.mergeAll _).histogram
    rw [Tally.histogram_mergeAll, List.map_map]
    refine records_merged _ Sent.latency (fun t ht => ?_) fun sent hsent v hv => ?_
    · rw [Function.comp_apply, (hworkers t ht).tally, Tally.histogram_ofAttempts,
        samples_eq_latencies]
    · obtain rfl : sent.fromDue = v := Option.some.inj (Option.ite_none_right_eq_some.mp hv).2
      exact (hsplit sent hsent).fromDue_nonneg

/-- The verdict depends on the rate and on the multiset of overshoots. -/
theorem LagAccounted.keptUp_eq {window window' : RunWindow} {state' : State Script}
    {run run' : OpenLoopRun} (h : LagAccounted window state run)
    (h' : LagAccounted window' state' run') (hrate : run'.rate = run.rate)
    (hsamples : ((measured window' state').map Sent.overshoot).Perm
      ((measured window state).map Sent.overshoot)) :
    run'.keptUp fl = run.keptUp fl := by
  have hrep := (Histogram.represents_of_records h.rigLag).2
  have hrep' := (Histogram.represents_of_records h'.rigLag).2
  rw [List.map_congr_left fun sent hsent => (h.split sent hsent).rig] at hrep
  rw [List.map_congr_left fun sent hsent => (h'.split sent hsent).rig] at hrep'
  -- a histogram is determined by its multiset of samples
  have hrig : run'.rigLag = run.rigLag := (hrep'.of_perm hsamples).unique hrep
  rw [OpenLoopRun.keptUp, OpenLoopRun.keptUp, hrig, hrate]

/-- The lag split blames the right party, sample for sample, and two runs at one rate whose
overshoots agree get the same verdict, whatever their targets did. -/
theorem lag_blames_the_right_party
    (hrun : (spawn Script plan started threads).run
      (OpenLoopWorker.step fl protocol.perform (plan.window started)) schedule = some state)
    (htimely : ∀ t ∈ state.threads, Timely t.labels) (resolution : Nanos) :
    LagAccounted (plan.window started) state (collect fl plan resolution state) ∧
      ∀ (protocol' : Protocol) (plan' : OpenLoopPlan) (started' : Instant) (threads' : ℕ)
        (schedule' : List (ℕ × Call Script)) (state' : State Script) (resolution' : Nanos),
        (spawn Script plan' started' threads').run
            (OpenLoopWorker.step fl protocol'.perform (plan'.window started')) schedule' =
          some state' →
        (∀ t ∈ state'.threads, Timely t.labels) → plan'.rate = plan.rate →
        ((measured (plan'.window started') state').map Sent.overshoot).Perm
          ((measured (plan.window started) state).map Sent.overshoot) →
        (collect fl plan' resolution' state').keptUp fl =
          (collect fl plan resolution state).keptUp fl := by
  have haccounted := lag_accounted hrun htimely resolution
  refine ⟨haccounted, ?_⟩
  intro protocol' plan' started' threads' schedule' state' resolution' hrun' htimely' hrate hsamples
  exact haccounted.keptUp_eq (lag_accounted hrun' htimely' resolution') hrate hsamples

/-- One worker against two targets: one holds the connection for 2.5 ms, the other for 100 ns.
The second request of the first run waits for its connection, the overshoots agree. -/
theorem lag_blames_the_right_party_slow_and_fast :
    ∃ slow : State Script,
      (spawn Script { duration := 3 } 0 1).run
          (OpenLoopWorker.step .exact (RawEcho.protocol 1).perform
            (OpenLoopPlan.window { duration := 3 } 0))
          [(0, .now 0), (0, .connect .connected), (0, .now 50), (0, .claim), (0, .sleepUntil 0 60),
            (0, .now 100), (0, .perform ⟨100, .done, [.bytes "a".toList 2_500_000]⟩),
            (0, .now 2_500_000), (0, .now 2_500_010), (0, .claim),
            (0, .sleepUntil 1_000_000 2_500_020), (0, .now 2_500_030),
            (0, .perform ⟨2_500_030, .done, [.bytes "a".toList 2_999_999]⟩),
            (0, .now 3_000_000)] = some slow ∧
        (measured (OpenLoopPlan.window { duration := 3 } 0) slow).map
            (fun sent => (sent.waited, sent.rig)) = [(50, 50), (1_500_010, 20)] ∧
        LagAccounted (OpenLoopPlan.window { duration := 3 } 0) slow
          (collect .exact { duration := 3 } 0 slow) ∧
        ∃ fast : State Script,
          (spawn Script { duration := 3 } 0 1).run
              (OpenLoopWorker.step .exact (RawEcho.protocol 1).perform
                (OpenLoopPlan.window { duration := 3 } 0))
              [(0, .now 0), (0, .connect .connected), (0, .now 50), (0, .claim),
                (0, .sleepUntil 0 60), (0, .now 100),
                (0, .perform ⟨100, .done, [.bytes "a".toList 200]⟩), (0, .now 200), (0, .now 210),
                (0, .claim), (0, .sleepUntil 1_000_000 1_000_010), (0, .now 1_000_020),
                (0, .perform ⟨1_000_020, .done, [.bytes "a".toList 1_000_120]⟩),
                (0, .now 3_000_000)] = some fast ∧
            (measured (OpenLoopPlan.window { duration := 3 } 0) fast).map
                (fun sent => (sent.waited, sent.rig)) = [(50, 50), (0, 20)] ∧
            (collect .exact { duration := 3 } 0 fast).keptUp .exact =
              (collect .exact { duration := 3 } 0 slow).keptUp .exact := by
  let window := OpenLoopPlan.window { duration := 3 } 0
  let seen (state : State Script) : Bool × List Nanos × List (Nanos × Nanos) :=
    (decide (∀ t ∈ state.threads, Timely t.labels), (measured window state).map Sent.overshoot,
      (measured window state).map fun sent => (sent.waited, sent.rig))
  refine Interleaving.exists_run_eq seen (true, [50, 20], [(50, 50), (1_500_010, 20)])
    (by decide +kernel) fun slow hrun hseen => ?_
  obtain ⟨htimely, hslow⟩ := Prod.mk.inj hseen
  obtain ⟨hovershoot, hparts⟩ := Prod.mk.inj hslow
  obtain ⟨haccounted, hkeptUp⟩ := lag_blames_the_right_party hrun (of_decide_eq_true htimely) 0
  refine ⟨hparts, haccounted, ?_⟩
  refine Interleaving.exists_run_eq seen (true, [50, 20], [(50, 50), (0, 20)])
    (by decide +kernel) fun fast hrun' hseen' => ?_
  obtain ⟨htimely', hfast⟩ := Prod.mk.inj hseen'
  obtain ⟨hovershoot', hparts'⟩ := Prod.mk.inj hfast
  refine ⟨hparts', ?_⟩
  exact hkeptUp _ { duration := 3 } 0 1 _ fast 0 hrun' (of_decide_eq_true htimely') rfl
    (List.Perm.of_eq (hovershoot'.trans hovershoot.symm))

end Runs

end OpenLoop

end Dariyanaap

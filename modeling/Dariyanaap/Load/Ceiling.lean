import Dariyanaap.Load.ClosedLoop
import Dariyanaap.Load.Lag

/-!
# The ceiling of a run

Every connection carries one request at a time, so that `connections / service_time` is a hard
ceiling on what a run can measure, in either mode and whatever rate was asked for
(`apps/dariyanaap.cpp` prints a note about it). A worker whose timed exchanges take a service time
each has got past `count` of them only when the clock has passed as many service times since
`record_from`, and it begins none after the deadline. So it measures at most one for each begun
service time of the window (`ceiling`).
-/

namespace Dariyanaap

open OpenLoopWorker (Timely readings)

/-! ## Exchanges that take a service time each -/

/-- A timed exchange takes a service time at least. -/
def Call.Slow (protocol : Protocol) (service : Nanos) : Call Script → Prop
  | .perform script =>
      ∀ e ∈ protocol.perform script, e.outcome.timed = true → service ≤ e.elapsed
  | _ => True

instance (protocol : Protocol) (service : Nanos) (call : Call Script) :
    Decidable (call.Slow protocol service) :=
  match call with
  | .perform script => inferInstanceAs (Decidable
      (∀ e ∈ protocol.perform script, e.outcome.timed = true → service ≤ e.elapsed))
  | .now _ | .connect _ | .sleepFor | .sleepUntil .. | .claim => isTrue trivial

/-- Every timed exchange of some calls does. -/
def Slow (protocol : Protocol) (service : Nanos) (labels : List (Call Script)) : Prop :=
  ∀ call ∈ labels, call.Slow protocol service

instance (protocol : Protocol) (service : Nanos) (labels : List (Call Script)) :
    Decidable (Slow protocol service labels) :=
  inferInstanceAs (Decidable (∀ call ∈ labels, call.Slow protocol service))

/-- What a number of exchanges have used of a window. -/
structure Spent (service : Nanos) (window : RunWindow) (readings : List Instant) (count : ℕ) :
    Prop where
  /-- The clock has passed their service times. -/
  reached : count ≠ 0 → ∃ reading ∈ readings, window.recordFrom + count * service ≤ reading
  /-- The last one began in the window. -/
  begun : count ≠ 0 → ((count : ℤ) - 1) * service < window.deadline - window.recordFrom

/-- Another exchange can begin. -/
def Room (service : Nanos) (window : RunWindow) (count : ℕ) : Prop :=
  (count : ℤ) * service < window.deadline - window.recordFrom

section Spent

variable {protocol : Protocol} {service : Nanos} {window : RunWindow} {count : ℕ}
  {times times' : List Instant} {now : Instant} {script : Script} {e : Exchange}
  {rest : List Read} {labels : List (Call Script)} {call : Call Script}

theorem Spent.zero : Spent service window times 0 :=
  ⟨fun h => absurd rfl h, fun h => absurd rfl h⟩

theorem Spent.mono (h : Spent service window times count) (hsub : times ⊆ times') :
    Spent service window times' count where
  reached hcount := by
    obtain ⟨reading, hmem, hle⟩ := h.reached hcount
    exact ⟨reading, hsub hmem, hle⟩
  begun := h.begun

/-- A reading of the clock comes behind what was spent. -/
theorem Spent.le_now (h : Spent service window times count) (hnow : ∀ t ∈ times, t ≤ now)
    (hcount : count ≠ 0) : window.recordFrom + count * service ≤ now := by
  obtain ⟨reading, hmem, hle⟩ := h.reached hcount
  exact hle.trans (hnow reading hmem)

/-- There is room for an exchange that begins before the deadline. -/
theorem room_of_lt (hopen : window.recordFrom < window.deadline)
    (hspent : count ≠ 0 → window.recordFrom + count * service ≤ now)
    (hnow : now < window.deadline) : Room service window count := by
  rw [Room]
  by_cases hcount : count = 0
  · rw [hcount]
    simpa using hopen
  · have hle := hspent hcount
    linarith

/-- A measured exchange begins behind what was spent. -/
theorem le_of_measured (hspent : count ≠ 0 → window.recordFrom + count * service ≤ now)
    (hmeasured : window.recordFrom ≤ now) : window.recordFrom + count * service ≤ now := by
  by_cases hcount : count = 0
  · rw [hcount, Nat.cast_zero, zero_mul, add_zero]
    exact hmeasured
  · exact hspent hcount

/-- One more exchange. -/
theorem Spent.next (hroom : Room service window count)
    (hend : ∃ reading ∈ times, window.recordFrom + ((count + 1 : ℕ) : ℤ) * service ≤ reading) :
    Spent service window times (count + 1) := by
  refine ⟨fun _ => hend, fun _ => ?_⟩
  rw [Nat.cast_succ, add_sub_cancel_right]
  exact hroom

/-- At most one exchange for each begun service time. -/
theorem Spent.count_le (h : Spent service window times count) (hpos : 0 < service) :
    count ≤ ((window.deadline - window.recordFrom + service - 1) / service).toNat := by
  by_cases hcount : count = 0
  · rw [hcount]
    exact Nat.zero_le _
  · have hbegun := h.begun hcount
    have hle : (count : ℤ) ≤ (window.deadline - window.recordFrom + service - 1) / service := by
      rw [Int.le_ediv_iff_mul_le hpos]
      linarith
    rw [← Int.toNat_natCast count]
    exact Int.toNat_le_toNat hle

/-- An exchange that takes some time ends at a reading of its own. -/
theorem exists_end (h : performRequest protocol script = some (e, rest)) (hpos : 0 < e.elapsed) :
    ∃ now ∈ script.instants, e.elapsed = between script.sent now := by
  unfold performRequest at h
  split at h
  · next now hwrite =>
    cases h
    exact ⟨now, by simp [Script.instants, hwrite, Write.instants], rfl⟩
  · cases h
    exact absurd hpos (lt_irrefl 0)
  · rcases readLoop_elapsed h with hzero | ⟨now, hmem, heq⟩
    · exact absurd hpos hzero.not_gt
    · exact ⟨now, List.mem_cons_of_mem _ (List.mem_append_right _ hmem), heq⟩

/-- An exchange that begins behind what was spent ends a service time later. -/
theorem exists_reading_of_slow (htimely : Timely (labels ++ [.perform script]))
    (hslow : Slow protocol service (labels ++ [.perform script])) (hpos : 0 < service)
    (h : performRequest protocol script = some (e, rest)) (htimed : e.outcome.timed = true)
    {start : Instant} (hstart : start ∈ readings labels)
    (hspent : window.recordFrom + count * service ≤ start) :
    ∃ reading ∈ readings (labels ++ [.perform script]),
      window.recordFrom + ((count + 1 : ℕ) : ℤ) * service ≤ reading := by
  have hservice : service ≤ e.elapsed :=
    hslow (.perform script) (List.mem_append_right _ List.mem_cons_self) e
      (Option.map_eq_some_iff.mpr ⟨_, h, rfl⟩) htimed
  obtain ⟨now, hmem, helapsed⟩ := exists_end h (hpos.trans_le hservice)
  have hclock := htimely.clock
  rw [Timely.readings_append_singleton, List.pairwise_append] at hclock
  have hsent : start ≤ script.sent := hclock.2.2 start hstart script.sent List.mem_cons_self
  refine ⟨now, ?_, ?_⟩
  · rw [Timely.readings_append_singleton]
    exact List.mem_append_right _ hmem
  · rw [between] at helapsed
    rw [Nat.cast_succ, add_mul, one_mul]
    linarith

end Spent

/-! ## Timed exchanges -/

/-- How many exchanges some events have timed. `attempt` is what the accounting sees of each. -/
def timedCount {E : Type*} (attempt : E → Option Attempt) (past : List E) : ℕ :=
  ((past.filterMap attempt).filterMap Attempt.sample).length

section TimedCount

variable {E : Type*} (attempt : E → Option Attempt) {past : List E} (event : E) {measured : Prop}
  [Decidable measured] {outcome : Outcome} {latency : Nanos}

/-- What the accounting does not see is no sample. -/
theorem timedCount_none (h : attempt event = none) :
    timedCount attempt (past ++ [event]) = timedCount attempt past := by
  simp [timedCount, h]

/-- Neither is a failed connect. -/
theorem timedCount_connectFailed
    (h : attempt event = if measured then some .connectFailed else none) :
    timedCount attempt (past ++ [event]) = timedCount attempt past := by
  by_cases hmeasured : measured <;> simp [timedCount, Attempt.sample, h, hmeasured]

/-- An exchange is a sample if it is measured and timed. -/
theorem timedCount_exchanged
    (h : attempt event = if measured then some (.exchanged outcome latency) else none) :
    timedCount attempt (past ++ [event]) =
      timedCount attempt past + if measured ∧ outcome.timed = true then 1 else 0 := by
  by_cases hmeasured : measured <;> by_cases htimed : outcome.timed = true <;>
    simp [timedCount, Attempt.sample, h, hmeasured, htimed]

end TimedCount

/-! ## The closed loop -/

namespace ConnectionWorker

/-- What a position in the loop says about the exchange that is next. -/
def Pc.Begins (service : Nanos) (window : RunWindow) (times : List Instant) (count : ℕ) : Pc → Prop
  | .connecting now | .sending now =>
      now ∈ times ∧ now < window.deadline ∧
        (count ≠ 0 → window.recordFrom + count * service ≤ now)
  | .stamping now result =>
      window.recordFrom ≤ now ∧ result.outcome.timed = true ∧ Room service window count ∧
        ∃ reading ∈ times, window.recordFrom + ((count + 1 : ℕ) : ℤ) * service ≤ reading
  | .top | .backoff | .returned => True

/-- What the exchanges of a worker leave of the window. -/
structure Ceiling (service : Nanos) (window : RunWindow) (w : ConnectionWorker)
    (labels : List (Call Script)) (past : List Event) : Prop where
  spent : Spent service window (readings labels) (timedCount (Event.attempt window) past)
  begins : w.pc.Begins service window (readings labels) (timedCount (Event.attempt window) past)

section Ceiling

variable {protocol : Protocol} {service : Nanos} {window : RunWindow}
  {series series' : TimeSeries} {w w' : ConnectionWorker} {labels : List (Call Script)}
  {call : Call Script} {past out : List Event} {now : Instant} {socket : Socket}
  {result : Exchange}

/-- A turn of the loop begins before the deadline. -/
theorem lt_deadline_of_top (hpc : w.pc = .top) (hgoes : w'.pc ≠ .returned)
    (hstep : step protocol.perform window series w (.now now) = some (series', w', out)) :
    now < window.deadline := by
  by_contra hlate
  rw [step, hpc] at hstep
  dsimp only at hstep
  rw [if_pos (not_lt.mp hlate)] at hstep
  cases hstep
  exact hgoes rfl

/-- Every step of a worker under a sound clock stays below the ceiling. -/
theorem Ceiling.step (hpos : 0 < service) (htimely : Timely (labels ++ [call]))
    (hslow : Slow protocol service (labels ++ [call]))
    (h : Ceiling service window w labels past)
    (hstep : step protocol.perform window series w call = some (series', w', out)) :
    Ceiling service window w' (labels ++ [call]) (past ++ out) := by
  obtain ⟨hspent, hbegins⟩ := h
  have hsub : readings labels ⊆ readings (labels ++ [call]) := by
    rw [Timely.readings_append_singleton]
    exact List.subset_append_left _ _
  have hmore := hspent.mono hsub
  cases step_move hstep with
  | ended now hpc =>
    rw [List.append_nil]
    exact ⟨hmore, trivial⟩
  | replace now hpc hsocket =>
    rw [List.append_nil]
    refine ⟨hmore, ?_, lt_deadline_of_top hpc (by simp) hstep, hspent.le_now fun t ht =>
      htimely.le_now ht⟩
    simp [Call.instants]
  | send now socket hpc hsocket =>
    rw [List.append_nil]
    refine ⟨hmore, ?_, lt_deadline_of_top hpc (by simp) hstep, hspent.le_now fun t ht =>
      htimely.le_now ht⟩
    simp [Call.instants]
  | connected now hpc =>
    rw [List.append_nil]
    rw [hpc] at hbegins
    exact ⟨hmore, hsub hbegins.1, hbegins.2⟩
  | timeoutsFailed now hpc | refused now hpc =>
    refine ⟨?_, trivial⟩
    rw [timedCount_connectFailed (Event.attempt window) (.connectFailed now) rfl]
    exact hmore
  | slept hpc =>
    rw [List.append_nil]
    exact ⟨hmore, trivial⟩
  | timed now script socket writer result hpc hsocket hreply hmeasured hwriter htimed =>
    rw [List.append_nil]
    rw [hpc] at hbegins
    obtain ⟨hmem, hlt, hle⟩ := hbegins
    obtain ⟨⟨e, rest⟩, hperform, rfl⟩ := Option.map_eq_some_iff.mp hreply
    have hroom := room_of_lt (hmeasured.trans_lt hlt) hle hlt
    refine ⟨hmore, hmeasured, htimed, hroom, ?_⟩
    exact exists_reading_of_slow htimely hslow hpos hperform htimed hmem
      (le_of_measured hle hmeasured)
  | untimed now script socket result hpc hsocket hreply huntimed =>
    refine ⟨?_, trivial⟩
    rw [timedCount_exchanged (Event.attempt window) (.exchanged now socket result) rfl]
    split
    · next hcounts =>
      rw [hpc] at hbegins
      obtain ⟨hmem, hlt, hle⟩ := hbegins
      obtain ⟨⟨e, rest⟩, hperform, rfl⟩ := Option.map_eq_some_iff.mp hreply
      exact .next (room_of_lt (hcounts.1.trans_lt hlt) hle hlt)
        (exists_reading_of_slow htimely hslow hpos hperform hcounts.2 hmem
          (le_of_measured hle hcounts.1))
    · exact hmore
  | stamped now finished socket writer result hpc hsocket hwriter =>
    refine ⟨?_, trivial⟩
    rw [hpc] at hbegins
    obtain ⟨hmeasured, htimed, hroom, reading, hmem, hle⟩ := hbegins
    rw [timedCount_exchanged (Event.attempt window) (.exchanged now socket result) rfl,
      if_pos ⟨hmeasured, htimed⟩]
    exact .next hroom ⟨reading, hsub hmem, hle⟩

end Ceiling

end ConnectionWorker

/-! ## The open loop -/

namespace OpenLoopWorker

/-- What was spent ends before the deadline. -/
def Open (service : Nanos) (window : RunWindow) (count : ℕ) : Prop :=
  count ≠ 0 → window.recordFrom + count * service < window.deadline

/-- What a position in the loop says about the exchange that is next. -/
def Pc.Begins (service : Nanos) (window : RunWindow) (times : List Instant) (count : ℕ) : Pc → Prop
  | .connecting | .ready | .claiming _ => Open service window count
  | .waiting _ slot | .awake _ slot => Open service window count ∧ slot.due < window.deadline
  | .sending _ slot now =>
      Open service window count ∧ slot.due < window.deadline ∧ now ∈ times ∧
        (count ≠ 0 → window.recordFrom + count * service ≤ now)
  | .top | .refused | .backoff | .returned => True

/-- What the exchanges of a worker leave of the window. -/
structure Ceiling (service : Nanos) (window : RunWindow) (w : OpenLoopWorker)
    (labels : List (Call Script)) (past : List Event) : Prop where
  time : TimeInvariant w labels past
  spent : Spent service window (readings labels) (timedCount (Event.attempt window) past)
  begins : w.pc.Begins service window (readings labels) (timedCount (Event.attempt window) past)

section Ceiling

variable {fl : Rounding} {protocol : Protocol} {service : Nanos} {window : RunWindow}
  {schedule schedule' : Schedule} {w w' : OpenLoopWorker} {labels : List (Call Script)}
  {call : Call Script} {past out : List Event} {now : Instant} {sent : Sent}

/-- A turn of the loop begins before the deadline. -/
theorem lt_deadline_of_top (hpc : w.pc = .top) (hgoes : w'.pc ≠ .returned)
    (hstep : step fl protocol.perform window schedule w (.now now) = some (schedule', w', out)) :
    now < window.deadline := by
  by_contra hlate
  rw [step, hpc] at hstep
  dsimp only at hstep
  rw [if_pos (not_lt.mp hlate)] at hstep
  cases hstep
  exact hgoes rfl

/-- Every step of a worker under a sound clock stays below the ceiling. -/
theorem Ceiling.step (hpos : 0 < service) (htimely : Timely (labels ++ [call]))
    (hslow : Slow protocol service (labels ++ [call]))
    (h : Ceiling service window w labels past)
    (hstep : step fl protocol.perform window schedule w call = some (schedule', w', out)) :
    Ceiling service window w' (labels ++ [call]) (past ++ out) := by
  obtain ⟨htime, hspent, hbegins⟩ := h
  suffices hnext : Spent service window (readings (labels ++ [call]))
        (timedCount (Event.attempt window) (past ++ out)) ∧
      w'.pc.Begins service window (readings (labels ++ [call]))
        (timedCount (Event.attempt window) (past ++ out)) by
    exact ⟨time_invariant htimely htime hstep, hnext.1, hnext.2⟩
  have hsub : readings labels ⊆ readings (labels ++ [call]) := by
    rw [Timely.readings_append_singleton]
    exact List.subset_append_left _ _
  have hmore := hspent.mono hsub
  cases step_turn hstep with
  | ended now hpc =>
    rw [List.append_nil]
    exact ⟨hmore, trivial⟩
  | connectFailed now hpc =>
    rw [timedCount_connectFailed (Event.attempt window) (.connectFailed now) rfl]
    exact ⟨hmore, trivial⟩
  | turn now pc hpc hnext =>
    rw [List.append_nil]
    have hopen : Open service window (timedCount (Event.attempt window) past) := fun hcount => by
      have hlt := lt_deadline_of_top hpc (by rcases hnext with rfl | rfl <;> simp) hstep
      exact (hspent.le_now (fun t ht => htimely.le_now ht) hcount).trans_lt hlt
    refine ⟨hmore, ?_⟩
    rcases hnext with rfl | rfl <;> exact hopen
  | connected hpc =>
    rw [List.append_nil]
    rw [hpc] at hbegins
    exact ⟨hmore, hbegins⟩
  | timeoutsFailed hpc | refused hpc | slept hpc =>
    rw [List.append_nil]
    exact ⟨hmore, trivial⟩
  | free freeAt hpc =>
    rw [List.append_nil]
    rw [hpc] at hbegins
    exact ⟨hmore, hbegins⟩
  | claimedLate freeAt hpc hdue =>
    rw [timedCount_none (Event.attempt window) (.claimed _) rfl]
    exact ⟨hmore, trivial⟩
  | claimed freeAt hpc hdue =>
    rw [timedCount_none (Event.attempt window) (.claimed _) rfl]
    rw [hpc] at hbegins
    exact ⟨hmore, hbegins, not_le.mp hdue⟩
  | woke freeAt slot woke hpc =>
    rw [List.append_nil]
    rw [hpc] at hbegins
    exact ⟨hmore, hbegins⟩
  | sending freeAt slot sending hpc =>
    rw [List.append_nil]
    rw [hpc] at hbegins
    refine ⟨hmore, hbegins.1, hbegins.2, ?_, hspent.le_now fun t ht => htimely.le_now ht⟩
    simp [Call.instants]
  | exchanged script sent hpc hsocket hreply =>
    refine ⟨?_, trivial⟩
    rw [timedCount_exchanged (Event.attempt window) (.exchanged sent) rfl]
    split
    · next hcounts =>
      rw [hpc] at hbegins
      obtain ⟨hopen, hdue, hmem, hle⟩ := hbegins
      have htimed := htime.timed
      rw [hpc] at htimed
      obtain ⟨⟨e, rest⟩, hperform, heq⟩ := Option.map_eq_some_iff.mp hreply
      have hroom : Room service window (timedCount (Event.attempt window) past) := by
        by_cases hcount : timedCount (Event.attempt window) past = 0
        · rw [Room, hcount]
          have := hcounts.1.trans_lt hdue
          simpa using this
        · have := hopen hcount
          rw [Room]
          linarith
      have hresult : e = sent.result := heq
      exact .next hroom (exists_reading_of_slow htimely hslow hpos hperform
        (hresult ▸ hcounts.2) hmem (le_of_measured hle (hcounts.1.trans htimed.1)))
    · exact hmore

end Ceiling

end OpenLoopWorker

/-! ## All workers of a run -/

section Runs

variable {fl : Rounding} {protocol : Protocol} {service : Nanos} {started : Instant} {threads : ℕ}
  {schedule : List (ℕ × Call Script)}

/-- Every worker of a closed-loop run stays below the ceiling. -/
theorem ClosedLoop.run_ceiling {plan : ClosedLoopPlan} {state : ClosedLoop.State Script}
    (hrun : (ClosedLoop.spawn Script plan started threads).run
      (ConnectionWorker.step protocol.perform (plan.window started)) schedule = some state)
    (hpos : 0 < service) :
    ∀ t ∈ state.threads, Timely t.labels → Slow protocol service t.labels →
      ConnectionWorker.Ceiling service (plan.window started) t.state t.labels t.past := by
  refine Interleaving.run_local_invariant
    (I := fun w labels past => Timely labels → Slow protocol service labels →
      ConnectionWorker.Ceiling service (plan.window started) w labels past) ?_ ?_ hrun
  · intro series w labels past call series' w' out hinv hstep htimely hslow
    have hbefore : Slow protocol service labels := fun call hmem =>
      hslow call (List.mem_append_left _ hmem)
    exact (hinv htimely.of_append hbefore).step hpos htimely hslow hstep
  · exact fun _ _ => ⟨.zero, trivial⟩

/-- And every worker of an open-loop run. -/
theorem OpenLoop.run_ceiling {plan : OpenLoopPlan} {state : OpenLoop.State Script}
    (hrun : (OpenLoop.spawn Script plan started threads).run
      (OpenLoopWorker.step fl protocol.perform (plan.window started)) schedule = some state)
    (hpos : 0 < service) :
    ∀ t ∈ state.threads, Timely t.labels → Slow protocol service t.labels →
      OpenLoopWorker.Ceiling service (plan.window started) t.state t.labels t.past := by
  refine Interleaving.run_local_invariant
    (I := fun w labels past => Timely labels → Slow protocol service labels →
      OpenLoopWorker.Ceiling service (plan.window started) w labels past) ?_ ?_ hrun
  · intro series w labels past call series' w' out hinv hstep htimely hslow
    have hbefore : Slow protocol service labels := fun call hmem =>
      hslow call (List.mem_append_left _ hmem)
    exact (hinv htimely.of_append hbefore).step hpos htimely hslow hstep
  · exact fun _ _ => ⟨⟨trivial, by simp⟩, .zero, trivial⟩

/-- Samples of some workers, of which each has a bounded number. -/
theorem length_samples_le {T : Type*} {threads : List T} {attempts : T → List Attempt} {bound : ℕ}
    (h : ∀ t ∈ threads, ((attempts t).filterMap Attempt.sample).length ≤ bound) :
    ((threads.flatMap attempts).filterMap Attempt.sample).length ≤ threads.length * bound := by
  rw [List.filterMap_flatMap, List.length_flatMap]
  refine (List.sum_le_card_nsmul _ bound ?_).trans_eq ?_
  · simpa using h
  · rw [List.length_map]
    rfl

/-- Whatever the rate and however the workers take turns: under a sound clock, a target that takes
a service time for each timed exchange lets every connection measure one for each begun service
time of the window, and no more. -/
theorem ceiling (fl : Rounding) (protocol : Protocol) (started : Instant) (service : Nanos)
    (hpos : 0 < service) :
    (∀ (plan : ClosedLoopPlan) (threads : ℕ) (schedule : List (ℕ × Call Script))
        (state : ClosedLoop.State Script) (resolution : Nanos),
      (ClosedLoop.spawn Script plan started threads).run
          (ConnectionWorker.step protocol.perform (plan.window started)) schedule = some state →
        (∀ t ∈ state.threads, Timely t.labels ∧ Slow protocol service t.labels) →
        (ClosedLoop.collect fl plan resolution state).histogram.count ≤
          (ClosedLoop.collect fl plan resolution state).connectionsStarted *
            ((plan.duration.toNanos + service - 1) / service).toNat) ∧
    ∀ (plan : OpenLoopPlan) (threads : ℕ) (schedule : List (ℕ × Call Script))
        (state : OpenLoop.State Script) (resolution : Nanos),
      (OpenLoop.spawn Script plan started threads).run
          (OpenLoopWorker.step fl protocol.perform (plan.window started)) schedule = some state →
        (∀ t ∈ state.threads, Timely t.labels ∧ Slow protocol service t.labels) →
        (OpenLoop.collect fl plan resolution state).histogram.count ≤
          (OpenLoop.collect fl plan resolution state).connectionsStarted *
            ((plan.duration.toNanos + service - 1) / service).toNat := by
  constructor
  · intro plan threads schedule state resolution hrun henvironment
    have hwindow : (plan.window started).deadline - (plan.window started).recordFrom =
        plan.duration.toNanos := add_sub_cancel_left _ _
    refine (ClosedLoop.counts_attempts hrun).samples.trans_le (length_samples_le fun t ht => ?_)
    obtain ⟨htimely, hslow⟩ := henvironment t ht
    exact hwindow ▸ (ClosedLoop.run_ceiling hrun hpos t ht htimely hslow).spent.count_le hpos
  · intro plan threads schedule state resolution hrun henvironment
    have hwindow : (plan.window started).deadline - (plan.window started).recordFrom =
        plan.duration.toNanos := add_sub_cancel_left _ _
    refine (OpenLoop.counts_attempts hrun).samples.trans_le (length_samples_le fun t ht => ?_)
    obtain ⟨htimely, hslow⟩ := henvironment t ht
    exact hwindow ▸ (OpenLoop.run_ceiling hrun hpos t ht htimely hslow).spent.count_le hpos

/-- Three milliseconds of a target that takes 2.5 ms: one connection measures two exchanges, one
for each begun service time. -/
theorem ceiling_two :
    ∃ state : ClosedLoop.State Script,
      (ClosedLoop.spawn Script { duration := 3 } 0 1).run
          (ConnectionWorker.step (RawEcho.protocol 1).perform
            (ClosedLoopPlan.window { duration := 3 } 0))
          [(0, .now 0), (0, .connect .connected),
            (0, .perform ⟨10, .done, [.bytes "a".toList 2_500_010]⟩), (0, .now 2_500_020),
            (0, .perform ⟨2_500_030, .done, [.bytes "a".toList 5_000_030]⟩),
            (0, .now 5_000_040)] = some state ∧
        (ClosedLoop.collect .exact { duration := 3 } 0 state).histogram.count = 2 ∧
        (ClosedLoop.collect .exact { duration := 3 } 0 state).histogram.count ≤
          (ClosedLoop.collect .exact { duration := 3 } 0 state).connectionsStarted *
            ((Millis.toNanos 3 + 2_500_000 - 1) / 2_500_000).toNat := by
  let seen (state : ClosedLoop.State Script) : Bool × ℕ :=
    (decide (∀ t ∈ state.threads, Timely t.labels ∧ Slow (RawEcho.protocol 1) 2_500_000 t.labels),
      (ClosedLoop.collect .exact { duration := 3 } 0 state).histogram.count)
  refine Interleaving.exists_run_eq seen (true, 2) (by decide +kernel) fun state hrun hseen => ?_
  obtain ⟨henvironment, hcount⟩ := Prod.mk.inj hseen
  exact ⟨hcount, (ceiling .exact (RawEcho.protocol 1) 0 2_500_000 (by decide)).1 _ 1 _ state 0 hrun
    (of_decide_eq_true henvironment)⟩

end Runs

end Dariyanaap

import Dariyanaap.Load.Ceiling
import Dariyanaap.Load.Slots

/-!
# Coordinated omission

Why there is an open loop. A target that freezes holds every request it has been sent. A
closed-loop connection sends nothing while it waits, so that a freeze shows up in one of its
replies, however long it is (`ConnectionWorker.Passed.step`). An open-loop slot is measured from the
time it was due, so that every slot that was due in the freeze shows what was left of it, if it got
a reply (`OpenLoopWorker.Shows.step`). A connection does not wait longer than its read timeout. An
exchange that timed out may have ended in the freeze, and is counted apart in either loop.

`coordinated_omission` puts it in terms of the percentiles that are reported.
-/

namespace Dariyanaap

open OpenLoopWorker (Timely readings)

/-! ## What a percentile says about the large samples -/

namespace Histogram

open Buckets OrderStatistic

variable {h : Histogram} {xs : List Nanos} {fl : Rounding} {p : ℚ} {x v : Nanos}

/-- The samples below a value, and the others. -/
theorem countP_lt_add_countP_le (xs : List Nanos) (x : Nanos) :
    xs.countP (fun y => decide (y < x)) + xs.countP (fun y => decide (x ≤ y)) = xs.length := by
  rw [List.length_eq_countP_add_countP (fun y => decide (y < x))]
  congr 1
  exact List.countP_congr fun y _ => by simp

/-- A percentile whose rank is below the large samples reports none of them. -/
theorem percentile_lt (hrep : Represents h xs) (hpos : 0 < x) (hx : x ≤ kMaxValue)
    (hrank : rank fl p xs.length + xs.countP (fun y => decide (x ≤ y)) ≤ xs.length)
    (hv : h.percentile fl p = some v) : 128 * v < 129 * x := by
  have hne : xs ≠ [] := by
    intro hnil
    rw [(percentile_eq_none_iff hrep).mpr hnil] at hv
    cases hv
  obtain ⟨y, hy⟩ := exists_ranked hne fl p
  have hlt : y < x := by
    by_contra hle
    have hbelow := (nthSmallest_spec (one_le_rank fl p _) hy).2.1
    have hmono : xs.countP (fun z => decide (z < x)) ≤ xs.countP (fun z => decide (z < y)) :=
      List.countP_mono_left fun z _ hz => by
        simpa using (by simpa using hz : z < x).trans_le (not_lt.mp hle)
    have := countP_lt_add_countP_le xs x
    omega
  have hcovered : covered y := covered_iff.mpr (hlt.le.trans hx)
  have hwidth : 128 * (slotHigh (indexOf y.toNat) - y.toNat) ≤ y.toNat :=
    slotHigh_sub_le (toNat_le_of_covered hcovered)
  rw [percentile_eq hrep hy, if_pos hcovered, Option.some.injEq, slotOf] at hv
  lia

/-- A percentile whose rank is among the large samples reports no less than they are. -/
theorem le_percentile (hrep : Represents h xs)
    (hrank : xs.length < rank fl p xs.length + xs.countP (fun y => decide (x ≤ y)))
    (hv : h.percentile fl p = some v) : x ≤ v := by
  have hne : xs ≠ [] := by
    intro hnil
    rw [(percentile_eq_none_iff hrep).mpr hnil] at hv
    cases hv
  obtain ⟨y, hy⟩ := exists_ranked hne fl p
  obtain ⟨hmem, -, hreached⟩ := nthSmallest_spec (one_le_rank fl p _) hy
  have hle : x ≤ y := by
    by_contra hlt
    have hmono : xs.countP (fun z => decide (z ≤ y)) ≤ xs.countP (fun z => decide (z < x)) :=
      List.countP_mono_left fun z _ hz => by
        simpa using (by simpa using hz : z ≤ y).trans_lt (not_le.mp hlt)
    have := countP_lt_add_countP_le xs x
    omega
  rw [percentile_eq hrep hy, Option.some.injEq] at hv
  rw [← hv]
  split
  · next hcovered =>
    have := le_slotHigh_indexOf (toNat_le_of_covered hcovered)
    rw [slotOf]
    lia
  · exact hle.trans (hrep.max ▸ le_largest hmem)

end Histogram

/-! ## Replies -/

namespace Attempt

/-- The latency of an attempt that got a reply. -/
def reply : Attempt → Option Nanos
  | .connectFailed => none
  | .exchanged outcome latency => if outcome.replied then some latency else none

variable (attempts : List Attempt) (p : Nanos → Bool)

/-- Besides the replies, only what timed out is a sample. -/
theorem countP_sample_le : (attempts.filterMap sample).countP p ≤
    (attempts.filterMap reply).countP p + attempts.countP (ended .timedOut) := by
  induction attempts with
  | nil => exact le_rfl
  | cons attempt attempts ih =>
    rcases attempt with _ | ⟨outcome, latency⟩
    · simpa [List.filterMap_cons, List.countP_cons, sample, reply] using ih
    · cases outcome <;>
        simp [sample, reply, Outcome.timed, Outcome.replied, List.countP_cons] <;> lia

/-- The replies are samples. -/
theorem countP_reply_le :
    (attempts.filterMap reply).countP p ≤ (attempts.filterMap sample).countP p := by
  induction attempts with
  | nil => exact le_rfl
  | cons attempt attempts ih =>
    rcases attempt with _ | ⟨outcome, latency⟩
    · simpa [List.filterMap_cons, sample, reply] using ih
    · cases outcome <;>
        simp [sample, reply, Outcome.timed, Outcome.replied, List.countP_cons] <;> omega

/-- Every attempt got a reply, or is one of the five failures without one. -/
theorem length_eq_add_reply :
    attempts.length = (attempts.filterMap reply).length +
      (attempts.countP refused + attempts.countP (ended .writeFailed) +
        attempts.countP (ended .readFailed) + attempts.countP (ended .protocolError) +
          attempts.countP (ended .timedOut)) := by
  induction attempts with
  | nil => rfl
  | cons attempt attempts ih =>
    rcases attempt with _ | ⟨outcome, latency⟩
    · simp only [List.length_cons, List.filterMap_cons, List.countP_cons, reply, refused, ended, ih,
        if_true, if_false, Bool.false_eq_true]
      omega
    -- each outcome is counted on exactly one side
    · cases outcome <;> simp [reply, Outcome.replied, ih] <;> omega

end Attempt

/-! ## A target that freezes -/

/-- A time in which the target sends no reply. -/
structure Freeze where
  begins : Instant
  ends : Instant
  deriving DecidableEq

/-- No reply comes in a freeze, and one that takes `quick` or longer was held by one. -/
def Call.Frozen (protocol : Protocol) (freezes : List Freeze) (quick : Nanos) : Call Script → Prop
  | .perform script => ∀ e ∈ protocol.perform script, e.outcome.replied = true →
      (∀ freeze ∈ freezes, freeze.begins ≤ script.sent + e.elapsed →
        freeze.ends ≤ script.sent + e.elapsed) ∧
      (quick ≤ e.elapsed → ∃ freeze ∈ freezes,
        script.sent < freeze.ends ∧ freeze.begins ≤ script.sent + e.elapsed)
  | _ => True

instance (protocol : Protocol) (freezes : List Freeze) (quick : Nanos) (call : Call Script) :
    Decidable (call.Frozen protocol freezes quick) :=
  match call with
  | .perform script => inferInstanceAs (Decidable
      (∀ e ∈ protocol.perform script, e.outcome.replied = true →
        (∀ freeze ∈ freezes, freeze.begins ≤ script.sent + e.elapsed →
          freeze.ends ≤ script.sent + e.elapsed) ∧
        (quick ≤ e.elapsed → ∃ freeze ∈ freezes,
          script.sent < freeze.ends ∧ freeze.begins ≤ script.sent + e.elapsed)))
  | .now _ | .connect _ | .sleepFor | .sleepUntil .. | .claim => isTrue trivial

/-- Every exchange of some calls is like that. -/
def Frozen (protocol : Protocol) (freezes : List Freeze) (quick : Nanos)
    (labels : List (Call Script)) : Prop :=
  ∀ call ∈ labels, call.Frozen protocol freezes quick

instance (protocol : Protocol) (freezes : List Freeze) (quick : Nanos)
    (labels : List (Call Script)) : Decidable (Frozen protocol freezes quick labels) :=
  inferInstanceAs (Decidable (∀ call ∈ labels, call.Frozen protocol freezes quick))

/-- How many of the freezes are over at the last of some readings. -/
def passed (freezes : List Freeze) (times : List Instant) : ℕ :=
  freezes.countP fun freeze => decide (∃ now ∈ times, freeze.ends ≤ now)

section Freezes

variable {protocol : Protocol} {freezes : List Freeze} {quick : Nanos} {times times' : List Instant}
  {labels : List (Call Script)} {script : Script} {e : Exchange} {rest : List Read}

theorem passed_mono (hsub : times ⊆ times') : passed freezes times ≤ passed freezes times' := by
  refine List.countP_mono_left fun freeze _ hpassed => ?_
  obtain ⟨now, hmem, hle⟩ := of_decide_eq_true hpassed
  exact decide_eq_true ⟨now, hsub hmem, hle⟩

theorem passed_le (freezes : List Freeze) (times : List Instant) :
    passed freezes times ≤ freezes.length :=
  List.countP_le_length

/-- A freeze that was not over and is over counts. -/
theorem passed_lt (hsub : times ⊆ times')
    (h : ∃ freeze ∈ freezes, (∀ now ∈ times, now < freeze.ends) ∧
      ∃ now ∈ times', freeze.ends ≤ now) : passed freezes times < passed freezes times' := by
  induction freezes with
  | nil =>
    obtain ⟨freeze, hmem, -⟩ := h
    cases hmem
  | cons first freezes ih =>
    have hmono : passed freezes times ≤ passed freezes times' := passed_mono hsub
    have hfirst : (∃ now ∈ times, first.ends ≤ now) → ∃ now ∈ times', first.ends ≤ now := by
      rintro ⟨now, hmem, hle⟩
      exact ⟨now, hsub hmem, hle⟩
    obtain ⟨freeze, hmem, hbefore, hafter⟩ := h
    rcases List.mem_cons.mp hmem with rfl | hmem
    · have hnot : ¬∃ now ∈ times, freeze.ends ≤ now := by
        rintro ⟨now, hmem, hle⟩
        exact absurd hle (not_le.mpr (hbefore now hmem))
      rw [passed, passed, List.countP_cons, List.countP_cons, if_pos (decide_eq_true hafter),
        if_neg (by simpa using hnot)]
      exact Nat.lt_succ_of_le hmono
    · have hlater := ih ⟨freeze, hmem, hbefore, hafter⟩
      rw [passed, passed, List.countP_cons, List.countP_cons]
      by_cases hover : ∃ now ∈ times, first.ends ≤ now
      · rw [if_pos (decide_eq_true hover), if_pos (decide_eq_true (hfirst hover))]
        exact Nat.add_lt_add_right hlater 1
      · rw [if_neg (by simpa using hover)]
        exact Nat.lt_add_right _ hlater

/-- A slow reply was asked for before the end of a freeze and comes after it. -/
theorem passed_perform (htimely : Timely (labels ++ [.perform script]))
    (hfrozen : Frozen protocol freezes quick (labels ++ [.perform script])) (hpos : 0 < quick)
    (h : performRequest protocol script = some (e, rest)) (hreplied : e.outcome.replied = true)
    (hslow : quick ≤ e.elapsed) :
    passed freezes (readings labels) < passed freezes (readings (labels ++ [.perform script])) := by
  obtain ⟨hends, hcaught⟩ := hfrozen (.perform script)
    (List.mem_append_right _ List.mem_cons_self) e (Option.map_eq_some_iff.mpr ⟨_, h, rfl⟩)
    hreplied
  obtain ⟨freeze, hmem, hsent, hbegins⟩ := hcaught hslow
  obtain ⟨finish, hfinish, helapsed⟩ := exists_end h (hpos.trans_le hslow)
  rw [between] at helapsed
  have hclock := htimely.clock
  rw [Timely.readings_append_singleton, List.pairwise_append] at hclock
  refine passed_lt ?_ ⟨freeze, hmem, fun now hnow => ?_, finish, ?_, ?_⟩
  · rw [Timely.readings_append_singleton]
    exact List.subset_append_left _ _
  · exact (hclock.2.2 now hnow script.sent List.mem_cons_self).trans_lt hsent
  · rw [Timely.readings_append_singleton]
    exact List.mem_append_right _ hfinish
  · have := hends freeze hmem hbegins
    linarith

end Freezes

/-! ## The closed loop -/

namespace ConnectionWorker

/-- How many of the replies to a worker are slow. -/
def slowCount (quick : Nanos) (window : RunWindow) (past : List Event) : ℕ :=
  ((past.filterMap (Event.attempt window)).filterMap Attempt.reply).countP
    fun v => decide (quick ≤ v)

/-- A reply took `quick` or longer. -/
def Slow (quick : Nanos) (result : Exchange) : Prop :=
  result.outcome.replied = true ∧ quick ≤ result.elapsed

instance (quick : Nanos) (result : Exchange) : Decidable (Slow quick result) :=
  inferInstanceAs (Decidable (_ ∧ _))

/-- The reply of the exchange whose turn is not over. -/
def Pc.slowCount (quick : Nanos) : Pc → ℕ
  | .stamping _ result => if Slow quick result then 1 else 0
  | .top | .connecting _ | .backoff | .sending _ | .returned => 0

/-- Every slow reply stands for a freeze that is over. -/
def Passed (freezes : List Freeze) (quick : Nanos) (window : RunWindow) (w : ConnectionWorker)
    (labels : List (Call Script)) (past : List Event) : Prop :=
  slowCount quick window past + w.pc.slowCount quick ≤ passed freezes (readings labels)

section Passed

variable {protocol : Protocol} {freezes : List Freeze} {quick : Nanos} {window : RunWindow}
  {series series' : TimeSeries} {w w' : ConnectionWorker} {labels : List (Call Script)}
  {call : Call Script} {past out : List Event} {now : Instant} {socket : Socket}
  {result : Exchange}

theorem slowCount_connectFailed :
    slowCount quick window (past ++ [.connectFailed now]) = slowCount quick window past := by
  by_cases hmeasured : window.recordFrom ≤ now <;>
    simp [slowCount, Event.attempt, Attempt.reply, hmeasured]

theorem slowCount_exchanged_le :
    slowCount quick window (past ++ [.exchanged now socket result]) ≤
      slowCount quick window past + if Slow quick result then 1 else 0 := by
  by_cases hmeasured : window.recordFrom ≤ now <;>
    by_cases hreplied : result.outcome.replied = true <;>
      simp [slowCount, Slow, Event.attempt, Attempt.reply, hmeasured, hreplied, List.countP_cons]

/-- Every step of a worker keeps that. -/
theorem Passed.step (hpos : 0 < quick) (htimely : Timely (labels ++ [call]))
    (hfrozen : Frozen protocol freezes quick (labels ++ [call]))
    (h : Passed freezes quick window w labels past)
    (hstep : step protocol.perform window series w call = some (series', w', out)) :
    Passed freezes quick window w' (labels ++ [call]) (past ++ out) := by
  rw [Passed] at h ⊢
  have hmore : passed freezes (readings labels) ≤ passed freezes (readings (labels ++ [call])) := by
    rw [Timely.readings_append_singleton]
    exact passed_mono (List.subset_append_left _ _)
  -- a reply that is slow takes the worker past a freeze
  have hnext {script : Script} {result : Exchange} (hcall : call = .perform script)
      (hreply : protocol.perform script = some result)
      (hcounts : Slow quick result) :
      passed freezes (readings labels) + 1 ≤ passed freezes (readings (labels ++ [call])) := by
    subst hcall
    obtain ⟨⟨e, rest⟩, hperform, rfl⟩ := Option.map_eq_some_iff.mp hreply
    exact passed_perform htimely hfrozen hpos hperform hcounts.1 hcounts.2
  cases step_move hstep with
  | ended now hpc | replace now hpc | send now socket hpc | connected now hpc | slept hpc =>
    rw [List.append_nil]
    rw [hpc] at h
    exact h.trans hmore
  | timeoutsFailed now hpc | refused now hpc =>
    rw [slowCount_connectFailed]
    rw [hpc] at h
    exact h.trans hmore
  | timed now script socket writer result hpc hsocket hreply hmeasured hwriter htimed =>
    rw [List.append_nil]
    rw [hpc] at h
    by_cases hslow : Slow quick result
    · rw [Pc.slowCount, if_pos hslow]
      exact (Nat.succ_le_succ h).trans (hnext rfl hreply hslow)
    · rw [Pc.slowCount, if_neg hslow]
      exact h.trans hmore
  | untimed now script socket result hpc hsocket hreply huntimed =>
    refine (Nat.add_le_add_right slowCount_exchanged_le _).trans ?_
    rw [hpc] at h
    split
    · next hcounts => exact (Nat.succ_le_succ h).trans (hnext rfl hreply hcounts)
    · exact h.trans hmore
  | stamped now finished socket writer result hpc hsocket hwriter =>
    refine (Nat.add_le_add_right slowCount_exchanged_le _).trans ?_
    rw [hpc, Pc.slowCount] at h
    split
    · next hcounts =>
      rw [if_pos hcounts] at h
      exact h.trans hmore
    · exact (Nat.le_of_add_right_le h).trans hmore

end Passed

end ConnectionWorker

/-! ## The open loop -/

/-- No more than `slack` passes between the reading a slot is measured from and its request. -/
def Prompt (slack : Nanos) (labels : List (Call Script)) : Prop :=
  labels.IsChain fun call next =>
    match call, next with
    | .now now, .perform script => script.sent ≤ now + slack
    | _, _ => True

instance (slack : Nanos) : DecidableRel fun call next : Call Script =>
    match call, next with
    | .now now, .perform script => script.sent ≤ now + slack
    | _, _ => True := fun call next => by
  cases call <;> cases next <;> dsimp only <;> infer_instance

instance (slack : Nanos) (labels : List (Call Script)) : Decidable (Prompt slack labels) :=
  inferInstanceAs (Decidable (List.IsChain _ labels))

namespace OpenLoopWorker

/-- The latency of a carried slot that got a reply. -/
def Sent.reply (sent : Sent) : Option Nanos :=
  if sent.result.outcome.replied then some sent.fromDue else none

/-- The replies to a worker are those of its measured slots. -/
theorem replies_eq (window : RunWindow) (past : List Event) :
    (past.filterMap (Event.attempt window)).filterMap Attempt.reply =
      (past.filterMap (Event.measured window)).filterMap Sent.reply := by
  rw [List.filterMap_filterMap, List.filterMap_filterMap]
  refine List.filterMap_congr fun event _ => ?_
  rcases event with now | slot | sent
  · by_cases hmeasuring : window.recordFrom ≤ now <;>
      simp [Event.attempt, Event.measured, Attempt.reply, hmeasuring]
  · rfl
  · by_cases hmeasuring : window.recordFrom ≤ sent.slot.due <;>
      simp [Event.attempt, Event.measured, Attempt.reply, Sent.reply, hmeasuring]

/-- Every slot that got a reply shows what was left of the freezes it was due in. -/
structure Shows (freezes : List Freeze) (slack : Nanos) (w : OpenLoopWorker)
    (labels : List (Call Script)) (past : List Event) : Prop where
  time : TimeInvariant w labels past
  /-- The last reading before a request is the one it is measured from. -/
  last : ∀ freeAt slot now, w.pc = .sending freeAt slot now → labels.getLast? = some (.now now)
  shown : ∀ sent ∈ past.filterMap Event.sent, sent.result.outcome.replied = true →
    ∀ freeze ∈ freezes, freeze.begins ≤ sent.slot.due →
      freeze.ends ≤ sent.slot.due + sent.fromDue + slack

section Shows

variable {fl : Rounding} {protocol : Protocol} {freezes : List Freeze} {quick slack : Nanos}
  {window : RunWindow} {schedule schedule' : Schedule} {w w' : OpenLoopWorker}
  {labels : List (Call Script)} {call : Call Script} {past out : List Event}

/-- Every step of a worker under a sound clock keeps that. -/
theorem Shows.step (htimely : Timely (labels ++ [call]))
    (hfrozen : Frozen protocol freezes quick (labels ++ [call]))
    (hprompt : Prompt slack (labels ++ [call])) (h : Shows freezes slack w labels past)
    (hstep : step fl protocol.perform window schedule w call = some (schedule', w', out)) :
    Shows freezes slack w' (labels ++ [call]) (past ++ out) := by
  have htime := time_invariant htimely h.time hstep
  -- a step that carries no slot leaves the carried ones as they were
  have hquiet : ∀ {quiet : List Event}, quiet.filterMap Event.sent = [] →
      ∀ sent ∈ (past ++ quiet).filterMap Event.sent, sent.result.outcome.replied = true →
        ∀ freeze ∈ freezes, freeze.begins ≤ sent.slot.due →
          freeze.ends ≤ sent.slot.due + sent.fromDue + slack := fun {quiet} hnone => by
    rw [List.filterMap_append, hnone, List.append_nil]
    exact h.shown
  cases step_turn hstep with
  | ended now hpc | connected hpc | timeoutsFailed hpc | refused hpc | connectFailed now hpc
  | slept hpc | free freeAt hpc | claimedLate freeAt hpc hdue | claimed freeAt hpc hdue
  | woke freeAt slot woke hpc =>
    exact ⟨htime, by simp, hquiet rfl⟩
  | turn now pc hpc hnext =>
    refine ⟨htime, ?_, hquiet rfl⟩
    rcases hnext with rfl | rfl <;> simp
  | sending freeAt slot now hpc =>
    refine ⟨htime, ?_, hquiet rfl⟩
    rintro _ _ _ heq
    cases heq
    exact List.getLast?_concat
  | exchanged script sent hpc hsocket hreply =>
    refine ⟨htime, by simp, fun other hother hreplied freeze hfreeze hdue => ?_⟩
    rw [List.filterMap_append] at hother
    rcases List.mem_append.mp hother with hother | hother
    · exact h.shown other hother hreplied freeze hfreeze hdue
    obtain rfl : other = sent := List.mem_singleton.mp hother
    -- the request was sent no earlier than its slot was due, and soon after the reading
    have hlast := h.last _ _ _ hpc
    have hsoon : script.sent ≤ other.sending + slack := by
      rw [Prompt, List.isChain_append] at hprompt
      exact hprompt.2.2 _ hlast _ rfl
    have hbehind : other.sending ≤ script.sent := by
      have hclock := htimely.clock
      rw [Timely.readings_append_singleton, List.pairwise_append] at hclock
      refine hclock.2.2 _ ?_ _ List.mem_cons_self
      exact List.mem_flatMap.mpr ⟨_, List.mem_of_getLast? hlast, List.mem_singleton_self _⟩
    have hordered := htime.ordered other (by
      rw [List.filterMap_append]
      exact List.mem_append_right _ (List.mem_singleton_self _))
    obtain ⟨hends, -⟩ := hfrozen (.perform script) (List.mem_append_right _ List.mem_cons_self)
      other.result hreply hreplied
    have hfinish := hends freeze hfreeze (by linarith [hordered.due, hordered.elapsed])
    rw [Sent.fromDue, between]
    linarith

end Shows

end OpenLoopWorker

/-! ## What a run reports -/

/-- A merged histogram holds the samples of all workers. -/
theorem Tally.represents_mergeAll {α : Type*} {workers : List α} {tally : α → Tally}
    {made : α → List Attempt} (h : ∀ w ∈ workers, tally w = .ofAttempts (made w)) :
    (Tally.mergeAll (workers.map tally)).histogram.Represents
      ((workers.flatMap made).filterMap Attempt.sample) := by
  have htallies : (workers.map tally).map (·.histogram) =
      workers.map fun w => Histogram.recordAll ((made w).filterMap Attempt.sample) := by
    rw [List.map_map]
    refine List.map_congr_left fun w hw => ?_
    rw [Function.comp_apply, h w hw, Tally.histogram_ofAttempts]
  rw [Tally.histogram_mergeAll, htallies, Histogram.mergeAll_recordAll, List.filterMap_flatMap]
  exact Histogram.represents_recordAll _

namespace ClosedLoop

section Runs

variable {protocol : Protocol} {freezes : List Freeze} {quick : Nanos} {plan : ClosedLoopPlan}
  {started : Instant} {threads : ℕ} {schedule : List (ℕ × Call Script)} {state : State Script}

/-- Every slow reply to every worker stands for a freeze that is over. -/
theorem run_passed
    (hrun : (spawn Script plan started threads).run
      (ConnectionWorker.step protocol.perform (plan.window started)) schedule = some state)
    (hpos : 0 < quick) :
    ∀ t ∈ state.threads, Timely t.labels → Frozen protocol freezes quick t.labels →
      ConnectionWorker.Passed freezes quick (plan.window started) t.state t.labels t.past := by
  refine Interleaving.run_local_invariant
    (I := fun w labels past => Timely labels → Frozen protocol freezes quick labels →
      ConnectionWorker.Passed freezes quick (plan.window started) w labels past) ?_ ?_ hrun
  · intro series w labels past call series' w' out hinv hstep htimely hfrozen
    have hbefore : Frozen protocol freezes quick labels := fun call hmem =>
      hfrozen call (List.mem_append_left _ hmem)
    exact (hinv htimely.of_append hbefore).step hpos htimely hfrozen hstep
  · exact fun _ _ => Nat.zero_le _

/-- All workers together have at most one slow sample each for each freeze, besides those that timed
out. -/
theorem countP_samples_le
    (hrun : (spawn Script plan started threads).run
      (ConnectionWorker.step protocol.perform (plan.window started)) schedule = some state)
    (hpos : 0 < quick)
    (henvironment : ∀ t ∈ state.threads,
      Timely t.labels ∧ Frozen protocol freezes quick t.labels) :
    ((attempts (plan.window started) state).filterMap Attempt.sample).countP
        (fun v => decide (quick ≤ v)) ≤ state.threads.length * freezes.length +
      (Tally.mergeAll ((state.threads.map (·.state)).map (·.tally))).errors.timeout := by
  have hreplies : ((attempts (plan.window started) state).filterMap Attempt.reply).countP
      (fun v => decide (quick ≤ v)) ≤ state.threads.length * freezes.length := by
    rw [attempts, List.filterMap_flatMap, List.countP_flatMap]
    refine (List.sum_le_card_nsmul _ freezes.length ?_).trans_eq ?_
    · intro n hn
      obtain ⟨t, ht, rfl⟩ := List.mem_map.mp hn
      obtain ⟨htimely, hfrozen⟩ := henvironment t ht
      have hpassed := run_passed hrun hpos t ht htimely hfrozen
      exact (Nat.le_of_add_right_le hpassed).trans (passed_le _ _)
    · rw [List.length_map]
      rfl
  rw [(counts_attempts hrun).timeout]
  exact (Attempt.countP_sample_le _ _).trans (Nat.add_le_add_right hreplies _)

end Runs

end ClosedLoop

namespace OpenLoop

open OpenLoopWorker

/-- Due in a freeze, with this much of it left. -/
def DueIn (freezes : List Freeze) (left : Nanos) (due : Instant) : Prop :=
  ∃ freeze ∈ freezes, freeze.begins ≤ due ∧ due + left ≤ freeze.ends

instance (freezes : List Freeze) (left : Nanos) (due : Instant) :
    Decidable (DueIn freezes left due) :=
  inferInstanceAs (Decidable (∃ freeze ∈ freezes, _))

/-- How many of the claimed slots of the window were. -/
def frozenSlots (fl : Rounding) (plan : OpenLoopPlan) (window : RunWindow) (freezes : List Freeze)
    (left : Nanos) (claimed : ℕ) : ℕ :=
  (List.range claimed).countP fun index =>
    let due := window.recordFrom + plan.rate.dueAt fl index
    decide (due < window.deadline ∧ DueIn freezes left due)

/-- The exchanges of a run without a reply. -/
def unanswered (errors : ErrorCounts) : ℕ :=
  errors.write + errors.read + errors.protocol + errors.timeout

section Runs

variable {fl : Rounding} {protocol : Protocol} {freezes : List Freeze} {quick slack left : Nanos}
  {plan : OpenLoopPlan} {started : Instant} {threads : ℕ} {schedule : List (ℕ × Call Script)}
  {state : State Script}

/-- Every slot of every worker that got a reply shows what was left of the freezes it was due in. -/
theorem run_shows
    (hrun : (spawn Script plan started threads).run
      (OpenLoopWorker.step fl protocol.perform (plan.window started)) schedule = some state) :
    ∀ t ∈ state.threads, Timely t.labels → Frozen protocol freezes quick t.labels →
      Prompt slack t.labels → Shows freezes slack t.state t.labels t.past := by
  refine Interleaving.run_local_invariant
    (I := fun w labels past => Timely labels → Frozen protocol freezes quick labels →
      Prompt slack labels → Shows freezes slack w labels past) ?_ ?_ hrun
  · intro series w labels past call series' w' out hinv hstep htimely hfrozen hprompt
    have hbefore : Frozen protocol freezes quick labels := fun call hmem =>
      hfrozen call (List.mem_append_left _ hmem)
    have hprompt' : Prompt slack labels := (List.isChain_append.mp hprompt).1
    exact (hinv htimely.of_append hbefore hprompt').step htimely hfrozen hprompt hstep
  · exact fun _ _ _ => ⟨⟨trivial, by simp⟩, by simp, by simp⟩

/-- The claimed slots that were due in a freeze are slots that were carried. -/
theorem frozenSlots_eq
    (hrun : (spawn Script plan started threads).run
      (OpenLoopWorker.step fl protocol.perform (plan.window started)) schedule = some state)
    (hreturned : ∀ t ∈ state.threads, t.state.pc = .returned) :
    frozenSlots fl plan (plan.window started) freezes left state.shared.next =
      (sent state).countP fun slot => decide (DueIn freezes left slot.due) := by
  rw [sent_of_returned hrun hreturned, List.countP_filter, (claimed_perm hrun).countP_eq,
    List.countP_map, frozenSlots]
  refine List.countP_congr fun index _ => ?_
  simp [and_comm]

/-- What a list counts is at most what the rest of it counts after a map, and what the map
drops. -/
theorem countP_add_length_filterMap_le {α β : Type*} {f : α → Option β} {p : α → Bool}
    {q : β → Bool} {xs : List α} (h : ∀ x ∈ xs, ∀ y, f x = some y → p x = true → q y = true) :
    xs.countP p + (xs.filterMap f).length ≤ (xs.filterMap f).countP q + xs.length := by
  induction xs with
  | nil => exact le_rfl
  | cons x xs ih =>
    obtain ⟨hx, hxs⟩ := List.forall_mem_cons.mp h
    have hrest := ih hxs
    rw [List.countP_cons, List.length_cons]
    cases hf : f x with
    | none =>
      rw [List.filterMap_cons_none hf]
      split <;> omega
    | some y =>
      rw [List.filterMap_cons_some hf, List.length_cons, List.countP_cons]
      by_cases hp : p x = true
      · rw [if_pos hp, if_pos (hx y hf hp)]
        omega
      · rw [if_neg hp]
        omega

/-- The slots that were due in a freeze are slow samples, but for those without a reply. -/
theorem frozenSlots_le
    (hrun : (spawn Script plan started threads).run
      (OpenLoopWorker.step fl protocol.perform (plan.window started)) schedule = some state)
    (hreturned : ∀ t ∈ state.threads, t.state.pc = .returned)
    (henvironment : ∀ t ∈ state.threads,
      Timely t.labels ∧ Frozen protocol freezes quick t.labels ∧ Prompt slack t.labels) :
    frozenSlots fl plan (plan.window started) freezes (quick + slack) state.shared.next ≤
      ((attempts (plan.window started) state).filterMap Attempt.sample).countP
          (fun v => decide (quick ≤ v)) +
        unanswered (Tally.mergeAll ((state.threads.map (·.state)).map (·.tally))).errors := by
  have hmeasured := measured_of_returned hrun hreturned
  have hslots : sent state = (measured (plan.window started) state).map Sent.slot := by
    rw [sent, measured, List.map_flatMap]
    exact List.flatMap_congr fun t ht => by rw [sentSlots, hmeasured t ht]
  have hreplies : (attempts (plan.window started) state).filterMap Attempt.reply =
      (measured (plan.window started) state).filterMap Sent.reply := by
    rw [attempts, measured, List.filterMap_flatMap, List.filterMap_flatMap]
    exact List.flatMap_congr fun t _ => replies_eq _ _
  -- the carried slots are the replies and the exchanges without one
  have hcounts := counts_attempts hrun
  have hlength : (measured (plan.window started) state).length =
      ((measured (plan.window started) state).filterMap Sent.reply).length +
        unanswered (Tally.mergeAll ((state.threads.map (·.state)).map (·.tally))).errors := by
    have hsplit := Attempt.length_eq_add_reply (attempts (plan.window started) state)
    have hcarried := length_attempts_of_measured hmeasured
    rw [List.filterMap_flatMap] at hcarried
    change (attempts (plan.window started) state).length = _ +
      (attempts (plan.window started) state).countP Attempt.refused at hcarried
    rw [hslots, List.length_map] at hcarried
    rw [hreplies] at hsplit
    rw [unanswered, hcounts.write, hcounts.read, hcounts.protocol, hcounts.timeout]
    omega
  have hshown : ∀ s ∈ measured (plan.window started) state, ∀ v, s.reply = some v →
      decide (DueIn freezes (quick + slack) s.slot.due) = true → decide (quick ≤ v) = true := by
    intro s hs v hv hdue
    obtain ⟨t, ht, hmem⟩ := List.mem_flatMap.mp hs
    rw [hmeasured t ht] at hmem
    obtain ⟨htimely, hfrozen, hprompt⟩ := henvironment t ht
    obtain ⟨hreplied, hvalue⟩ := Option.ite_none_right_eq_some.mp hv
    obtain ⟨freeze, hfreeze, hbegins, hleft⟩ := of_decide_eq_true hdue
    have hshows := (run_shows hrun t ht htimely hfrozen hprompt).shown s hmem hreplied freeze
      hfreeze hbegins
    obtain rfl := Option.some.inj hvalue
    exact decide_eq_true (by linarith)
  have hle := countP_add_length_filterMap_le hshown
  have hslow := Attempt.countP_reply_le (attempts (plan.window started) state)
    fun v => decide (quick ≤ v)
  rw [hreplies] at hslow
  rw [frozenSlots_eq hrun hreturned, hslots, List.countP_map]
  change (measured (plan.window started) state).countP
    (fun s => decide (DueIn freezes (quick + slack) s.slot.due)) ≤ _
  omega

end Runs

end OpenLoop

end Dariyanaap

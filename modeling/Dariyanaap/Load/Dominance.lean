import Dariyanaap.Load.Lag

/-!
# Latencies dominate the lag

The latency of an open-loop request is counted from its due time, so it is the lag of the request
and the time of the exchange. Sample for sample the latencies of a run are at least its lags, and
percentiles respect that order (`latency_dominates_lag`).
-/

namespace Dariyanaap

namespace OpenLoop

open Buckets Histogram OpenLoopWorker

/-- When every exchange was timed, the latencies are those of all measured slots. -/
theorem latencies_eq_map {sents : List Sent}
    (htimed : ∀ sent ∈ sents, sent.result.outcome.timed = true) :
    sents.filterMap Sent.latency = sents.map Sent.fromDue := by
  rw [← List.filterMap_eq_map]
  exact List.filterMap_congr fun sent hsent => if_pos (htimed sent hsent)

/-- The latencies of ordered slots are at least their lags, one by one. -/
theorem forall₂_late_fromDue {sents : List Sent} (hordered : ∀ sent ∈ sents, sent.Ordered) :
    List.Forall₂ (· ≤ ·) (sents.map Sent.late) (sents.map Sent.fromDue) := by
  rw [List.forall₂_map_left_iff, List.forall₂_map_right_iff, List.forall₂_same]
  intro sent hsent
  have h := hordered sent hsent
  -- the exchange takes no negative time
  rw [h.split.fromDue]
  exact le_add_of_nonneg_right h.elapsed

/-- Percentiles respect the pointwise order of latencies inside the layout. So in a run in which
every measured exchange is timed and none takes longer than the layout holds, every percentile of
the latency is at least that of the schedule lag. -/
theorem latency_dominates_lag (fl : Rounding) :
    (∀ (xs ys : List Nanos) (h g : Histogram), Records xs h → Records ys g →
        List.Forall₂ (· ≤ ·) xs ys → (∀ y ∈ ys, y ≤ kMaxValue) →
        ∀ p v, h.percentile fl p = some v → ∃ w, g.percentile fl p = some w ∧ v ≤ w) ∧
      ∀ (protocol : Protocol) (plan : OpenLoopPlan) (started : Instant) (threads : ℕ)
        (schedule : List (ℕ × Call Script)) (state : State Script) (resolution : Nanos),
        (spawn Script plan started threads).run
            (OpenLoopWorker.step fl protocol.perform (plan.window started)) schedule =
          some state →
        (∀ t ∈ state.threads, Timely t.labels) →
        (∀ sent ∈ measured (plan.window started) state,
          sent.result.outcome.timed = true ∧ sent.fromDue ≤ kMaxValue) →
        ∀ p v, (collect fl plan resolution state).scheduleLag.percentile fl p = some v →
          ∃ w, (collect fl plan resolution state).histogram.percentile fl p = some w ∧ v ≤ w := by
  have hgeneral : ∀ (xs ys : List Nanos) (h g : Histogram), Records xs h → Records ys g →
      List.Forall₂ (· ≤ ·) xs ys → (∀ y ∈ ys, y ≤ kMaxValue) →
      ∀ p v, h.percentile fl p = some v → ∃ w, g.percentile fl p = some w ∧ v ≤ w := by
    intro xs ys h g hxs hys hxys hcovered p v hv
    exact percentile_le_of_forall₂ (represents_of_records hxs).2 (represents_of_records hys).2
      hxys (fun y hy => decide_eq_true (hcovered y hy)) hv
  refine ⟨hgeneral, ?_⟩
  intro protocol plan started threads schedule state resolution hrun htimely hmeasured p v hv
  have haccounted := lag_accounted hrun htimely resolution
  have hlatencies := haccounted.histogram
  rw [latencies_eq_map fun sent hsent => (hmeasured sent hsent).1] at hlatencies
  refine hgeneral _ _ _ _ haccounted.scheduleLag hlatencies
    (forall₂_late_fromDue (measured_ordered hrun htimely)) ?_ p v hv
  intro latency hlatency
  obtain ⟨sent, hsent, rfl⟩ := List.mem_map.mp hlatency
  exact (hmeasured sent hsent).2

/-- Two lists of two latencies, and a run of one worker with two exchanges: at the median the
latency is at least the lag in both. -/
theorem latency_dominates_lag_two :
    (∃ v w, (recordAll [2, 3]).percentile .exact 50 = some v ∧
        (recordAll [300, 4]).percentile .exact 50 = some w ∧ v ≤ w) ∧
      ∃ state : State Script,
        (spawn Script { duration := 3 } 0 1).run
            (OpenLoopWorker.step .exact (RawEcho.protocol 1).perform
              (OpenLoopPlan.window { duration := 3 } 0))
            [(0, .now 0), (0, .connect .connected), (0, .now 50), (0, .claim),
              (0, .sleepUntil 0 60), (0, .now 100),
              (0, .perform ⟨100, .done, [.bytes "a".toList 200]⟩), (0, .now 200), (0, .now 210),
              (0, .claim), (0, .sleepUntil 1_000_000 1_000_010), (0, .now 1_000_020),
              (0, .perform ⟨1_000_020, .done, [.bytes "a".toList 1_000_120]⟩),
              (0, .now 3_000_000)] = some state ∧
          ∃ v w, (collect .exact { duration := 3 } 0 state).scheduleLag.percentile .exact 50 =
              some v ∧
            (collect .exact { duration := 3 } 0 state).histogram.percentile .exact 50 = some w ∧
            v ≤ w := by
  obtain ⟨hlists, hruns⟩ := latency_dominates_lag .exact
  constructor
  · have hlag : Records [2, 3] (recordAll [2, 3]) := records_recordAll (by decide)
    have hlatency : Records [300, 4] (recordAll [300, 4]) := records_recordAll (by decide)
    obtain ⟨v, hv⟩ := exists_percentile .exact
      (represents_of_records hlag |>.2.count ▸ by decide : (recordAll [2, 3]).count ≠ 0) 50
    obtain ⟨w, hw, hle⟩ := hlists _ _ _ _ hlag hlatency
      (.cons (by decide) (.cons (by decide) .nil)) (by decide) 50 v hv
    exact ⟨v, w, hv, hw, hle⟩
  · let window := OpenLoopPlan.window { duration := 3 } 0
    let seen (state : State Script) : Bool × Bool × Bool :=
      (decide (∀ t ∈ state.threads, Timely t.labels),
        decide (∀ sent ∈ measured window state,
          sent.result.outcome.timed = true ∧ sent.fromDue ≤ kMaxValue),
        decide ((collect .exact { duration := 3 } 0 state).scheduleLag.count ≠ 0))
    refine Interleaving.exists_run_eq seen (true, true, true) (by decide +kernel)
      fun state hrun hseen => ?_
    obtain ⟨htimely, hseen⟩ := Prod.mk.inj hseen
    obtain ⟨hmeasured, hcount⟩ := Prod.mk.inj hseen
    obtain ⟨v, hv⟩ := exists_percentile .exact (of_decide_eq_true hcount) 50
    obtain ⟨w, hw, hle⟩ := hruns _ _ 0 1 _ state 0 hrun (of_decide_eq_true htimely)
      (of_decide_eq_true hmeasured) 50 v hv
    exact ⟨v, w, hv, hw, hle⟩

end OpenLoop

end Dariyanaap

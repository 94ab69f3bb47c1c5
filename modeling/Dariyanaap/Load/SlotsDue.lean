import Dariyanaap.Core.DueTimes
import Dariyanaap.Load.Slots

/-!
# What a run was asked to send

A run reports the slots it claimed against `slots_due`, what the rate demands for the measured
window. `run_open_loop` computes that as the product of rate and duration, rounded down, while
the workers ask of every slot whether it is due before the deadline. The first slot is due at
once, so the window also holds a slot that the product counts only in part: the two agree when
the product is a whole number or hardly above one (`slotsDue_iff`).
-/

namespace Dariyanaap

namespace OpenLoop

/-- The indices of the schedule that are due inside the measured window. -/
def indicesDue (plan : OpenLoopPlan) : Set ℕ :=
  {i | plan.rate.dueAt .exact i < plan.duration.toNanos}

/-- `slots_due` is what it is documented to be, in every run of a plan. -/
structure SlotsDueRight (plan : OpenLoopPlan) : Prop where
  /-- It counts the indices inside the window. -/
  counts : ∀ (Reply : Type) (resolution : Nanos) (state : State Reply),
    (collect .exact plan resolution state).slotsDue = (indicesDue plan).ncard
  /-- No run has sent more slots of the window. -/
  bounds : ∀ (Reply : Type) (perform : Reply → Option Exchange) (started : Instant) (threads : ℕ)
    (schedule : List (ℕ × Call Reply)) (state : State Reply) (resolution : Nanos),
    (spawn Reply plan started threads).run
        (OpenLoopWorker.step .exact perform (plan.window started)) schedule = some state →
      (sent state).length ≤ (collect .exact plan resolution state).slotsDue

/-- The whole part of rate and duration. -/
theorem slotsDue_eq {Reply : Type} (plan : OpenLoopPlan) (resolution : Nanos)
    (state : State Reply) :
    (collect .exact plan resolution state).slotsDue =
      ⌊plan.rate.rps * plan.duration / 1000⌋₊ := rfl

/-- The measured window in periods of the schedule. -/
theorem duration_div_period (plan : OpenLoopPlan) :
    (plan.duration.toNanos : ℚ) / plan.rate.period = plan.rate.rps * plan.duration / 1000 := by
  rw [plan.rate.div_period, Millis.toNanos, Int.cast_mul]
  norm_num
  ring

/-- Half a nanosecond in periods of the schedule. -/
theorem half_div_period (rate : Rate) : 1 / (2 * rate.period) = rate.rps / 2_000_000_000 := by
  have hpos := rate.rps_pos
  rw [Rate.period]
  field_simp
  norm_num

section Runs

variable {Reply : Type} {perform : Reply → Option Exchange} {plan : OpenLoopPlan}
  {started : Instant} {threads : ℕ} {schedule : List (ℕ × Call Reply)} {state : State Reply}

/-- What a worker has carried lies inside the window, at any point of a run. -/
theorem length_sent_le_filter
    (hrun : (spawn Reply plan started threads).run
      (OpenLoopWorker.step .exact perform (plan.window started)) schedule = some state) :
    (sent state).length ≤
      ((claimed state).filter fun slot =>
        decide (slot.due < (plan.window started).deadline)).length := by
  rw [sent, claimed, List.filter_flatMap, List.length_flatMap, List.length_flatMap]
  refine List.sum_le_sum fun t ht => ?_
  rw [((run_slot_invariant hrun).2 t ht).carried, List.length_append]
  exact Nat.le_add_right _ _

/-- No run has sent more slots than there are indices in the window. -/
theorem length_sent_le
    (hrun : (spawn Reply plan started threads).run
      (OpenLoopWorker.step .exact perform (plan.window started)) schedule = some state) :
    (sent state).length ≤ (indicesDue plan).ncard := by
  refine (length_sent_le_filter hrun).trans ?_
  -- the claimed slots inside the window are those of different indices, all of them due in it
  rw [((claimed_perm hrun).filter _).length_eq, List.filter_map, List.length_map]
  have hnodup := (List.nodup_range (n := state.shared.next)).filter
    ((fun slot => decide (slot.due < (plan.window started).deadline)) ∘ fun index =>
      (⟨index, (plan.window started).recordFrom + plan.rate.dueAt .exact index⟩ : Slot))
  rw [← List.toFinset_card_of_nodup hnodup, ← Set.ncard_coe_finset]
  refine Set.ncard_le_ncard (fun i hi => ?_) ?_
  · have hdue := (List.mem_filter.mp (List.mem_toFinset.mp hi)).2
    simp only [Function.comp_apply, OpenLoopPlan.window] at hdue
    change plan.rate.dueAt .exact i < plan.duration.toNanos
    lia
  · rw [indicesDue, plan.rate.dueAt_exact, EvenSpacing.before_eq plan.rate.period_pos]
    exact Set.finite_Iio _

end Runs

/-- The product of rate and duration counts the window exactly when it is above a whole number
by at most half a nanosecond's part of a request. -/
theorem slotsDue_iff (plan : OpenLoopPlan) (hduration : 0 < plan.duration) :
    SlotsDueRight plan ↔
      Int.fract (plan.rate.rps * plan.duration / 1000) ≤ plan.rate.rps / 2_000_000_000 := by
  have hhalf : 1 / 2 < plan.rate.period := lt_of_lt_of_le one_half_lt_one plan.rate.one_le_period
  have hwindow : 0 ≤ plan.duration.toNanos := mul_nonneg hduration.le (by norm_num)
  have hcount : (indicesDue plan).ncard = ⌊plan.rate.rps * plan.duration / 1000⌋₊ ↔
      Int.fract (plan.rate.rps * plan.duration / 1000) ≤ plan.rate.rps / 2_000_000_000 := by
    rw [indicesDue, plan.rate.dueAt_exact, ← duration_div_period, ← half_div_period]
    exact EvenSpacing.ncard_before_eq_floor_iff hhalf hwindow
  rw [← hcount]
  constructor
  · intro hright
    have hsame := hright.counts Exchange 0 (spawn Exchange plan 0 0)
    rw [slotsDue_eq] at hsame
    exact hsame.symm
  · intro heq
    constructor
    · intro Reply resolution state
      rw [slotsDue_eq, heq]
    · intro Reply perform started threads schedule state resolution hrun
      rw [slotsDue_eq, ← heq]
      exact length_sent_le hrun

/-- 1000 rps for ten seconds: a whole number of requests. -/
theorem slotsDue_iff_whole : SlotsDueRight {} :=
  (slotsDue_iff {} (by decide)).mpr (by norm_num [Rate.thousand, Int.fract, Int.floor_eq_iff])

/-- Three requests per second. -/
def three : Rate where
  rps := 3
  min_le := by norm_num [kMinRps]
  le_max := by norm_num [kMaxRps]

/-- Three requests per second for half a second: the requests due at once and after a third of
a second both lie in the window, and one of them is said to be due. -/
theorem slotsDue_misses_one :
    (∀ resolution (state : State Exchange),
        (collect .exact { rate := three, duration := 500 } resolution state).slotsDue = 1) ∧
      indicesDue { rate := three, duration := 500 } = {0, 1} ∧
      ¬SlotsDueRight { rate := three, duration := 500 } := by
  have hdue : ∀ resolution (state : State Exchange),
      (collect .exact { rate := three, duration := 500 } resolution state).slotsDue = 1 := by
    intro resolution state
    rw [slotsDue_eq]
    norm_num [three, Nat.floor_eq_iff]
  refine ⟨hdue, ?_, ?_⟩
  · have hfirst : EvenSpacing.firstFrom three.period (500_000_000 : ℤ) = 2 := by
      norm_num [EvenSpacing.firstFrom, Rate.period, three, Nat.ceil_eq_iff]
    rw [indicesDue, three.dueAt_exact, EvenSpacing.before_eq three.period_pos]
    change Set.Iio (EvenSpacing.firstFrom three.period (500_000_000 : ℤ)) = _
    rw [hfirst]
    ext i
    simp only [Set.mem_Iio, Set.mem_insert_iff, Set.mem_singleton_iff]
    omega
  · rw [slotsDue_iff _ (by decide), not_le]
    norm_num [three, Int.fract, Int.floor_eq_iff]

end OpenLoop

end Dariyanaap

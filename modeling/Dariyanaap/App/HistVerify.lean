import Dariyanaap.Stats.Percentile

/-!
# The verifier of the histogram

`main` (`apps/hist_verify.cpp`) records samples of a distribution in a histogram, sorts them, and
compares five percentiles of the histogram with the samples of their ranks. It fails when one of
them is reported too low, or too high by more than the width of a slot.

The distribution is left open: whatever the samples were, no percentile is reported too low, and a
percentile inside the layout is within the bound. So the verifier fails only for samples past the
layout (`verify_eq_zero_iff`).
-/

namespace Dariyanaap

open Buckets Histogram OrderStatistic

namespace HistVerify

/-- The percentiles that are compared. -/
def percentiles : List ℚ := [50, 90, 99, 999 / 10, 100]

/-- How the comparison ends. -/
inductive Comparison where
  /-- A percentile is reported below its sample. -/
  | below
  | finished (worst : ℚ)
  deriving DecidableEq

/-- The relative error of what is reported. -/
def error (fl : Rounding) (got truth : Nanos) : ℚ := fl (fl ↑(got - truth) / fl truth)

/-- The loop over the percentiles, given the sorted samples. -/
def compare (fl : Rounding) (exact : List Nanos) (h : Histogram) :
    List ℚ → (worst : ℚ) → Option Comparison
  | [], worst => some (.finished worst)
  | p :: ps, worst => do
    let truth ← exact[rank fl (fl p) exact.length - 1]?
    let got ← h.percentile fl (fl p)
    if got < truth then pure .below else compare fl exact h ps (max worst |error fl got truth|)

/-- The exit code of `main`, given the samples that were drawn. -/
def verify (fl : Rounding) (samples : List Nanos) : Option ℕ := do
  let h := recordAll samples
  let exact := samples.insertionSort (· ≤ ·)
  match ← compare fl exact h percentiles 0 with
  | .below => pure 1
  | .finished worst => pure (if worst ≤ fl (1 / kSubBuckets) then 0 else 1)

section Errors

variable {fl : Rounding} {xs : List Nanos} {p worst : ℚ} {x v : Nanos}

/-- What a rank names, and what is reported for it, is not too low. -/
theorem exists_reported (fl : Rounding) (hpos : ∀ x ∈ xs, 1 ≤ x) (hne : xs ≠ []) (p : ℚ) :
    ∃ x v, nthSmallest xs (rank fl p xs.length) = some x ∧ 1 ≤ x ∧
      (recordAll xs).percentile fl p = some v ∧ x ≤ v ∧
      (x ≤ kMaxValue → kSubBuckets * (v - x) ≤ x) ∧
      ((kMaxValue : ℤ) < x → v = (recordAll xs).max) := by
  obtain ⟨-, hrep⟩ := represents_of_records
    (records_recordAll fun x hx => le_trans zero_le_one (hpos x hx))
  obtain ⟨x, hx⟩ := exists_ranked hne fl p
  have hmem := (nthSmallest_spec (one_le_rank fl p _) hx).1
  refine ⟨x, _, hx, hpos x hmem, percentile_eq hrep hx, ?_⟩
  by_cases hcovered : covered x
  · obtain ⟨k, rfl⟩ := Int.eq_ofNat_of_zero_le (le_trans zero_le_one (hpos x hmem))
    have hk : k ≤ kMaxValue := by exact_mod_cast covered_iff.mp hcovered
    have hge := le_slotHigh_indexOf hk
    have hwidth := slotHigh_sub_le hk
    rw [if_pos hcovered, slotOf, Int.toNat_natCast]
    refine ⟨by exact_mod_cast hge, fun _ => ?_, fun hlt => ?_⟩
    · rw [← Int.ofNat_sub hge]
      exact_mod_cast hwidth
    · exact absurd (covered_iff.mp hcovered) (not_le.mpr hlt)
  · rw [if_neg hcovered]
    refine ⟨hrep.max ▸ le_largest hmem, fun hle => ?_, fun _ => rfl⟩
    exact absurd (covered_iff.mpr hle) hcovered

/-- An error is no lower than zero. -/
theorem error_nonneg (hx : 0 ≤ x) (hxv : x ≤ v) : 0 ≤ error fl v x := by
  have hdiff : (0 : ℚ) ≤ ((v - x : ℤ) : ℚ) := by exact_mod_cast sub_nonneg.mpr hxv
  exact fl.nonneg (div_nonneg (fl.nonneg hdiff) (fl.nonneg (by exact_mod_cast hx)))

/-- Inside the layout it is within the bound. -/
theorem error_le (hfl : fl.KeepsHalves (2 ^ 52)) (hx : 1 ≤ x) (hmax : x ≤ kMaxValue)
    (hxv : x ≤ v) (hwidth : kSubBuckets * (v - x) ≤ x) :
    error fl v x ≤ fl (1 / kSubBuckets) := by
  obtain ⟨k, rfl⟩ := Int.eq_ofNat_of_zero_le (le_trans zero_le_one hx)
  obtain ⟨d, hd⟩ := Int.eq_ofNat_of_zero_le (sub_nonneg.mpr hxv)
  rw [hd] at hwidth
  have hwidth : kSubBuckets * d ≤ k := by exact_mod_cast hwidth
  have hk : k ≤ kMaxValue := by exact_mod_cast hmax
  have hdk : d ≤ k := le_trans (Nat.le_mul_of_pos_left d (by decide)) hwidth
  have hfits : kMaxValue ≤ 2 ^ 52 := by decide
  rw [error, hd, Int.cast_natCast, Int.cast_natCast, hfl.natCast (hk.trans hfits),
    hfl.natCast (hdk.trans (hk.trans hfits))]
  refine fl.mono ?_
  have hkpos : (0 : ℚ) < k := by exact_mod_cast hx
  rw [div_le_div_iff₀ hkpos (by norm_num [kSubBuckets, kSubBucketBits])]
  have hwidth' : (kSubBuckets : ℚ) * d ≤ k := by exact_mod_cast hwidth
  linarith

/-- The loop ends with the worst of the errors. -/
theorem exists_compare (fl : Rounding) (hpos : ∀ x ∈ xs, 1 ≤ x) (hne : xs ≠ []) (ps : List ℚ)
    (worst : ℚ) : ∃ w, compare fl (xs.insertionSort (· ≤ ·)) (recordAll xs) ps worst =
        some (.finished w) ∧
      ∀ bound, w ≤ bound ↔ worst ≤ bound ∧ ∀ p ∈ ps, ∀ x v,
        nthSmallest xs (rank fl (fl p) xs.length) = some x →
        (recordAll xs).percentile fl (fl p) = some v → error fl v x ≤ bound := by
  induction ps generalizing worst with
  | nil => exact ⟨worst, rfl, fun bound => by simp⟩
  | cons p ps ih =>
    obtain ⟨x, v, hx, hone, hv, hxv, -, -⟩ := exists_reported fl hpos hne (fl p)
    obtain ⟨w, hw, hbound⟩ := ih (max worst |error fl v x|)
    refine ⟨w, ?_, fun bound => ?_⟩
    · rw [nthSmallest] at hx
      rw [compare, List.length_insertionSort, hx, hv]
      simp [not_lt.mpr hxv, hw]
    · rw [hbound, max_le_iff, List.forall_mem_cons, and_assoc,
        abs_of_nonneg (error_nonneg (le_trans zero_le_one hone) hxv)]
      simp [hx, hv]

/-- The verifier compares all percentiles of samples that are not empty, and none of them is
reported too low. It exits with 0 unless one of them lies past the layout, where the maximum is
reported, and exceeds its sample by more than the bound. -/
theorem verify_eq_zero_iff (fl : Rounding) (hfl : fl.KeepsHalves (2 ^ 52)) (hne : xs ≠ [])
    (hpos : ∀ x ∈ xs, 1 ≤ x) :
    (∃ worst, compare fl (xs.insertionSort (· ≤ ·)) (recordAll xs) percentiles 0 =
        some (.finished worst)) ∧
      (verify fl xs = some 0 ↔ ∀ p ∈ percentiles, ∀ x,
        nthSmallest xs (rank fl (fl p) xs.length) = some x → (kMaxValue : ℤ) < x →
        error fl (recordAll xs).max x ≤ fl (1 / kSubBuckets)) := by
  obtain ⟨w, hw, hbound⟩ := exists_compare fl hpos hne percentiles 0
  refine ⟨⟨w, hw⟩, ?_⟩
  have hzero : verify fl xs = some 0 ↔ w ≤ fl (1 / kSubBuckets) := by
    simp [verify, hw]
  rw [hzero, hbound]
  constructor
  · rintro ⟨-, herrors⟩ p hp x hx hlt
    obtain ⟨x', v, hx', -, hv, -, -, hmax⟩ := exists_reported fl hpos hne (fl p)
    obtain rfl := Option.some.inj (hx.symm.trans hx')
    exact hmax hlt ▸ herrors p hp x v hx hv
  · intro hpast
    refine ⟨fl.nonneg (by positivity), fun p hp x v hx hv => ?_⟩
    obtain ⟨x', v', hx', hone, hv', hxv, hwidth, hmax⟩ := exists_reported fl hpos hne (fl p)
    obtain rfl := Option.some.inj (hx.symm.trans hx')
    obtain rfl := Option.some.inj (hv.symm.trans hv')
    rcases le_or_gt x kMaxValue with hle | hlt
    · exact error_le hfl hone hle hxv (hwidth hle)
    · exact hmax hlt ▸ hpast p hp x hx hlt

/-- Three samples, the largest of them past the layout. -/
theorem verify_eq_zero_iff_three : verify .exact [5, 61_000_000_000, 300] = some 0 := by
  have hpos : ∀ x ∈ [5, 61_000_000_000, (300 : Nanos)], 1 ≤ x := by decide
  refine (verify_eq_zero_iff .exact (Rounding.keepsHalves_exact _) (List.cons_ne_nil _ _)
    hpos).2.mpr fun p _ x hx hlt => ?_
  have hmem := (nthSmallest_spec (one_le_rank _ _ _) hx).1
  obtain ⟨-, hrep⟩ := represents_of_records
    (records_recordAll fun x hx => le_trans zero_le_one (hpos x hx))
  -- the sample past the layout is the maximum
  obtain rfl : x = 61_000_000_000 := by
    have hx : x = 5 ∨ x = 61_000_000_000 ∨ x = 300 := by simpa using hmem
    rcases hx with rfl | rfl | rfl
    · exact absurd hlt (by decide)
    · rfl
    · exact absurd hlt (by decide)
  have hmax : (recordAll [5, 61_000_000_000, 300]).max = 61_000_000_000 := hrep.max
  rw [hmax, error, sub_self, Int.cast_zero, Rounding.map_zero, zero_div, Rounding.map_zero]
  exact Rounding.nonneg .exact (by positivity)

end Errors

end HistVerify

end Dariyanaap

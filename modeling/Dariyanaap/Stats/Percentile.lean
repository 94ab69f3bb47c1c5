import Dariyanaap.Library.Binary64
import Dariyanaap.Stats.Histogram
import Mathlib.Tactic.FieldSimp

/-!
# What a percentile reports

`Histogram::percentile` against the samples. `percentile_eq` is the one fact every later
result uses: the reported value is the high edge of the slot of the sample the rank names, or
the exact maximum when that sample lies past the layout. Honesty (`percentile_honest`) and the
order of percentiles follow from it and the arithmetic of the layout.

The rank is computed in `double` arithmetic, which can end one rank below the exact one or above
it. Percentiles are honest towards the exact rank when it does not (`percentile_honest_iff`).
-/

namespace Dariyanaap.Histogram

open Buckets OrderStatistic

variable {h : Histogram} {xs : List Nanos} {fl : Rounding} {p q : ℚ} {n : ℕ} {x v w : Nanos}

theorem one_le_rank (fl : Rounding) (p : ℚ) (n : ℕ) : 1 ≤ rank fl p n := le_max_left _ _

theorem rank_le (fl : Rounding) (p : ℚ) (hn : 1 ≤ n) : rank fl p n ≤ n :=
  max_le hn (min_le_right _ _)

/-- The rank asked for grows with the percentile, whatever the rounding. -/
theorem rank_mono (fl : Rounding) (n : ℕ) (hpq : p ≤ q) : rank fl p n ≤ rank fl q n := by
  have hfrac : fl (p / 100) ≤ fl (q / 100) := fl.mono (by gcongr)
  have hcount : 0 ≤ fl (n : ℚ) := fl.nonneg (Nat.cast_nonneg n)
  have hceil : ⌈fl (fl (p / 100) * fl n)⌉₊ ≤ ⌈fl (fl (q / 100) * fl n)⌉₊ :=
    Nat.ceil_mono (fl.mono (mul_le_mul_of_nonneg_right hfrac hcount))
  exact max_le_max_left 1 (min_le_min_right n hceil)

/-- In exact arithmetic the rank is `ceil(p * n / 100)` between `1` and `n`. -/
theorem rank_exact (p : ℚ) (n : ℕ) : rank .exact p n = Max.max 1 (min ⌈p * n / 100⌉₊ n) := by
  simp only [rank, Rounding.exact_apply, div_mul_eq_mul_div]

/-- In exact arithmetic every rank is asked for by some percentile. -/
theorem rank_exact_of_div {r : ℕ} (hr : 1 ≤ r) (hrn : r ≤ n) : rank .exact (100 * r / n) n = r := by
  have hn : (n : ℚ) ≠ 0 := by
    have : 0 < n := lt_of_lt_of_le hr hrn
    positivity
  have hval : (100 * r / n * n / 100 : ℚ) = r := by field_simp
  rw [rank_exact, hval, Nat.ceil_natCast, min_eq_left hrn, max_eq_right hr]

theorem covered_iff : covered v = true ↔ v ≤ kMaxValue := by simp [covered]

/-- In exact arithmetic a count reaches the rank exactly when its part of all samples reaches the
percentile. -/
theorem rank_exact_le_iff {m : ℕ} (hp : p ≤ 100) (hm : 1 ≤ m) (hmn : m ≤ n) :
    rank .exact p n ≤ m ↔ p ≤ 100 * m / n := by
  have hn : (0 : ℚ) < n := by exact_mod_cast hm.trans hmn
  -- a percentile of at most 100 asks for no more than all samples
  have hceil : ⌈p * n / 100⌉₊ ≤ n := Nat.ceil_le.mpr (by nlinarith)
  rw [rank_exact, min_eq_left hceil, max_le_iff, Nat.ceil_le, le_div_iff₀ hn,
    div_le_iff₀ (by norm_num), mul_comm (m : ℚ)]
  exact and_iff_right hm

/-- Coverage is a lower set. -/
theorem covered_of_le (hvw : v ≤ w) (hw : covered w) : covered v := by
  simp only [covered, decide_eq_true_eq] at hw ⊢
  exact hvw.trans hw

theorem toNat_le_of_covered (hv : covered v) : v.toNat ≤ kMaxValue :=
  Int.toNat_le.mpr (covered_iff.mp hv)

/-- A covered sample has a slot. -/
theorem slotOf_lt_kCount (hv : covered v) : slotOf v < kCount :=
  indexOf_lt_kCount (toNat_le_of_covered hv)

/-- What `percentile` reports, given the sample its rank names. -/
theorem percentile_eq (hrep : Represents h xs)
    (hx : nthSmallest xs (rank fl p xs.length) = some x) :
    h.percentile fl p = some (if covered x then (slotHigh (slotOf x) : Nanos) else h.max) := by
  have hmem := (nthSmallest_spec (one_le_rank fl p _) hx).1
  have hcount : h.count ≠ 0 := by
    rw [hrep.count]
    exact (List.length_pos_of_mem hmem).ne'
  -- the walk over the slots is the walk over the counters of the samples
  have hwalk : firstReaching (rank fl p xs.length) (counters covered slotOf xs kCount) 0 0 =
      if covered x then some (slotOf x) else none :=
    bucketed_rank (fun _ _ => covered_of_le)
      (fun v w hvw hw => indexOf_mono (Int.toNat_le_toNat hvw) (toNat_le_of_covered hw))
      (fun _ => slotOf_lt_kCount) (one_le_rank fl p _) hx
  rw [percentile, if_neg hcount, hrep.count, hrep.slots_toList, hwalk]
  by_cases hc : covered x
  · simp only [hc, if_true]
  · simp only [hc, Bool.false_eq_true, if_false]

/-- A histogram with samples has the sample each rank names. -/
theorem exists_ranked (hne : xs ≠ []) (fl : Rounding) (p : ℚ) :
    ∃ x, nthSmallest xs (rank fl p xs.length) = some x :=
  exists_nthSmallest (one_le_rank fl p _) (rank_le fl p (List.length_pos_of_ne_nil hne))

/-- Nothing is reported exactly when nothing was recorded. -/
theorem percentile_eq_none_iff (hrep : Represents h xs) :
    h.percentile fl p = none ↔ xs = [] := by
  constructor
  · intro hnone
    by_contra hne
    obtain ⟨x, hx⟩ := exists_ranked hne fl p
    rw [percentile_eq hrep hx] at hnone
    cases hnone
  · rintro rfl
    have hzero : h.count = 0 := hrep.count
    rw [percentile, if_pos hzero]

/-- A percentile of a histogram with samples is present. -/
theorem exists_percentile (fl : Rounding) (hne : h.count ≠ 0) (p : ℚ) :
    ∃ v, h.percentile fl p = some v := by
  rw [percentile, if_neg hne]
  split
  · exact ⟨_, rfl⟩
  · exact ⟨_, rfl⟩

/-- Percentiles respect the pointwise order of the samples inside the layout. -/
theorem percentile_le_of_forall₂ {g : Histogram} {ys : List Nanos} (hh : Represents h xs)
    (hg : Represents g ys) (hxys : List.Forall₂ (· ≤ ·) xs ys) (hys : ∀ y ∈ ys, covered y)
    (hv : h.percentile fl p = some v) : ∃ w, g.percentile fl p = some w ∧ v ≤ w := by
  have hlength := hxys.length_eq
  have hne : xs ≠ [] := by
    intro hnil
    rw [(percentile_eq_none_iff hh).mpr hnil] at hv
    cases hv
  have hne' : ys ≠ [] := by
    rintro rfl
    exact hne (List.length_eq_zero_iff.mp hlength)
  -- both histograms are asked for the same rank
  obtain ⟨x, hx⟩ := exists_ranked hne fl p
  obtain ⟨y, hy⟩ := exists_ranked hne' fl p
  have hxy : x ≤ y := by
    rw [← hlength] at hy
    exact nthSmallest_le_of_forall₂ hxys (one_le_rank fl p _) hx hy
  have hcy : covered y := hys y (nthSmallest_spec (one_le_rank fl p _) hy).1
  rw [percentile_eq hh hx, if_pos (covered_of_le hxy hcy), Option.some.injEq] at hv
  refine ⟨_, percentile_eq hg hy, ?_⟩
  rw [← hv, if_pos hcy]
  exact_mod_cast slotHigh_indexOf_mono (Int.toNat_le_toNat hxy) (toNat_le_of_covered hcy)

/-- Whatever the rounding, the reported value is never below the sample of the rank that was
computed, exceeds a sample of the layout by at most `1/128` of it, and is the exact maximum for a
sample past the layout. -/
theorem percentile_honest (hrec : Records xs h) (fl : Rounding) (p : ℚ) (hne : xs ≠ []) :
    ∃ x v, nthSmallest xs (rank fl p xs.length) = some x ∧ h.percentile fl p = some v ∧
      (x ≤ kMaxValue → x ≤ v ∧ 128 * (v - x) ≤ x ∧ (x < 128 → v = x)) ∧
      ((kMaxValue : ℤ) < x → v = h.max ∧ x ≤ v) := by
  obtain ⟨hnn, hrep⟩ := represents_of_records hrec
  obtain ⟨x, hx⟩ := exists_ranked hne fl p
  have hmem := (nthSmallest_spec (one_le_rank _ p _) hx).1
  refine ⟨x, _, hx, percentile_eq hrep hx, fun hle => ?_, fun hlt => ?_⟩
  · -- within the layout the answer is the top of the slot of `x`
    obtain ⟨k, rfl⟩ := Int.eq_ofNat_of_zero_le (hnn x hmem)
    have hk : k ≤ kMaxValue := by exact_mod_cast hle
    have hge := le_slotHigh_indexOf hk
    have hwidth : 128 * (slotHigh (indexOf k) - k) ≤ k := slotHigh_sub_le hk
    rw [if_pos (by simpa [covered] using hle)]
    simp only [slotOf, Int.toNat_natCast]
    lia
  · rw [if_neg (by simpa [covered] using hlt)]
    exact ⟨rfl, hrep.max ▸ le_largest hmem⟩

/-! ## The rank in `double` arithmetic -/

/-- A rank: a share of `count` samples rounded up, between the first sample and the last. -/
def clampedCeil (share : ℚ) (count : ℕ) : ℕ := Max.max 1 (min ⌈share⌉₊ count)

/-- A percentile against the sample of its exact rank: nothing is reported exactly when there is no
sample. Otherwise the report is not below the sample, above one of the layout by at most `1/128`,
and the maximum for one past the layout. -/
structure Honest (h : Histogram) (xs : List Nanos) (fl : Rounding) (p : ℚ) : Prop where
  absent : h.percentile fl p = none ↔ xs = []
  reported (hne : xs ≠ []) : ∃ x v,
    nthSmallest xs (clampedCeil (p * xs.length / 100) xs.length) = some x ∧
      h.percentile fl p = some v ∧
      (x ≤ kMaxValue → x ≤ v ∧ 128 * (v - x) ≤ x ∧ (x < 128 → v = x)) ∧
      ((kMaxValue : ℤ) < x → v = h.max ∧ x ≤ v)

/-- Some samples of zero, and some of one nanosecond. -/
def zerosAndOnes (zeros ones : ℕ) : List Nanos := List.replicate zeros 0 ++ List.replicate ones 1

theorem length_zerosAndOnes (zeros ones : ℕ) : (zerosAndOnes zeros ones).length = zeros + ones := by
  rw [zerosAndOnes, List.length_append, List.length_replicate, List.length_replicate]

theorem records_zerosAndOnes (zeros ones : ℕ) :
    Records (zerosAndOnes zeros ones) (recordAll (zerosAndOnes zeros ones)) := by
  refine records_recordAll fun v hv => ?_
  rcases List.mem_append.mp hv with hv | hv
  · rw [List.eq_of_mem_replicate hv]
  · rw [List.eq_of_mem_replicate hv]
    decide

section ZerosAndOnes

variable {zeros ones r : ℕ}

theorem nthSmallest_zerosAndOnes (hr : 1 ≤ r) (hle : r ≤ zeros + ones) :
    nthSmallest (zerosAndOnes zeros ones) r = some (if r ≤ zeros then 0 else 1) := by
  have hsorted : (zerosAndOnes zeros ones).Pairwise (· ≤ ·) := by
    refine List.pairwise_append.mpr ⟨List.pairwise_replicate.mpr (.inr le_rfl),
      List.pairwise_replicate.mpr (.inr le_rfl), fun v hv w hw => ?_⟩
    rw [List.eq_of_mem_replicate hv, List.eq_of_mem_replicate hw]
    decide
  rw [nthSmallest, hsorted.insertionSort_eq, zerosAndOnes, List.getElem?_append,
    List.length_replicate]
  by_cases hzero : r ≤ zeros
  · rw [if_pos (by omega), if_pos hzero, List.getElem?_replicate, if_pos (by omega)]
  · rw [if_neg (by omega), if_neg hzero, List.getElem?_replicate, if_pos (by omega)]

/-- Both are the high edge of their slot. -/
theorem percentile_zerosAndOnes (fl : Rounding) (p : ℚ) (hpos : 1 ≤ zeros + ones) :
    (recordAll (zerosAndOnes zeros ones)).percentile fl p =
      some (if rank fl p (zeros + ones) ≤ zeros then 0 else 1) := by
  have hx : nthSmallest (zerosAndOnes zeros ones) (rank fl p (zerosAndOnes zeros ones).length) =
      some (if rank fl p (zeros + ones) ≤ zeros then 0 else 1) := by
    rw [length_zerosAndOnes]
    exact nthSmallest_zerosAndOnes (one_le_rank fl p _) (rank_le fl p hpos)
  rw [percentile_eq (represents_of_records (records_zerosAndOnes zeros ones)).2 hx]
  split
  · rfl
  · rfl

end ZerosAndOnes

/-- Honest percentiles of all lists of `n` zeros and ones pin the rank. -/
theorem rank_eq_of_honest {fl : Rounding} {p : ℚ} {n : ℕ}
    (hhonest : ∀ xs h, Records xs h → xs.length = n → Honest h xs fl p) :
    rank fl p n = clampedCeil (p * n / 100) n := by
  by_contra hne
  set wanted := clampedCeil (p * n / 100) n with hwanted
  have hn : 1 ≤ n := by
    by_contra hzero
    obtain rfl : n = 0 := by omega
    exact hne (by simp [hwanted, rank, clampedCeil])
  have hone : 1 ≤ wanted := le_max_left _ _
  have hle : wanted ≤ n := max_le hn (min_le_right _ _)
  -- a zero at the lower of the two ranks, and a one at the other
  obtain ⟨ones, hsum⟩ : ∃ ones, min (rank fl p n) wanted + ones = n :=
    ⟨_, Nat.add_sub_of_le ((min_le_right _ _).trans hle)⟩
  have hlength := length_zerosAndOnes (min (rank fl p n) wanted) ones
  have hreport := percentile_zerosAndOnes fl p (hsum.symm ▸ hn)
  rw [hsum] at hlength hreport
  have hne' := List.ne_nil_of_length_pos (hn.trans_eq hlength.symm)
  obtain ⟨x, v, hx, hv, hinside, -⟩ :=
    (hhonest _ _ (records_zerosAndOnes _ ones) hlength).reported hne'
  rw [hlength, ← hwanted, nthSmallest_zerosAndOnes hone (hle.trans_eq hsum.symm)] at hx
  rw [hreport] at hv
  obtain rfl := Option.some.inj hx
  obtain rfl := Option.some.inj hv
  rcases Nat.lt_or_gt_of_ne hne with hlow | hhigh
  · -- zero is reported for the one
    rw [if_neg (by omega), if_pos (by omega)] at hinside
    exact absurd (hinside (by decide)).1 (by decide)
  · -- one is reported for the zero
    rw [if_pos (by omega), if_neg (by omega)] at hinside
    exact absurd ((hinside (by decide)).2.2 (by decide)) (by decide)

/-- The percentiles of `n` samples are honest, whichever the samples are, if and only if the
`double` arithmetic of the rank ends at the exact rank. -/
theorem percentile_honest_iff (fl : Rounding) (p : ℚ) (n : ℕ) :
    (∀ xs h, Records xs h → xs.length = n → Honest h xs fl p) ↔
      clampedCeil (fl (fl (p / 100) * fl n)) n = clampedCeil (p * n / 100) n := by
  have hrank : rank fl p n = clampedCeil (fl (fl (p / 100) * fl n)) n := rfl
  rw [← hrank]
  refine ⟨rank_eq_of_honest, ?_⟩
  rintro hsame xs h hrec rfl
  refine ⟨percentile_eq_none_iff (represents_of_records hrec).2, fun hne => ?_⟩
  rw [← hsame]
  exact percentile_honest hrec fl p hne

/-- Three samples, and the `double` next to a hundred thirds. A third of it is rounded down, so the
smallest sample is reported where the exact rank is that of the second one: a report below the
real value. Of a hundred samples the eighth is reported as the seventh percentile. -/
theorem percentile_under_reports :
    ∃ p : ℚ, Rounding.binary64 p = p ∧ (0 ≤ p ∧ p ≤ 100) ∧
      nthSmallest [1, 2, (3 : Nanos)] (clampedCeil (p * 3 / 100) 3) = some 2 ∧
      (recordAll [1, 2, 3]).percentile .binary64 p = some 1 ∧
      ¬Honest (recordAll [1, 2, 3]) [1, 2, 3] .binary64 p ∧
      rank .binary64 7 100 = 8 ∧ clampedCeil (7 * 100 / 100) 100 = 7 := by
  have hexact : nthSmallest [1, 2, (3 : Nanos)]
      (clampedCeil (4691249611844267 / 140737488355328 * 3 / 100) 3) = some 2 := by
    decide +kernel
  have hreport : (recordAll [1, 2, 3]).percentile .binary64 (4691249611844267 / 140737488355328) =
      some 1 := by
    decide +kernel
  refine ⟨4691249611844267 / 140737488355328, by decide +kernel, by norm_num, hexact, hreport,
    fun hhonest => ?_, by decide +kernel, by decide +kernel⟩
  obtain ⟨x, v, hx, hv, hinside, -⟩ := hhonest.reported (List.cons_ne_nil _ _)
  obtain rfl : 2 = x := Option.some.inj (hexact.symm.trans hx)
  obtain rfl : 1 = v := Option.some.inj (hreport.symm.trans hv)
  exact absurd (hinside (by decide)).1 (by decide)

end Dariyanaap.Histogram

import Dariyanaap.Stats.Buckets

/-!
# The slots as a partition

The slots of `stats/buckets.hpp` cut the recordable values into intervals, in order, without gaps,
and each narrow against the values in it (`layout`). The arithmetic that finds them stays inside
the types of the source: no difference falls below zero, no shift is by more than a word, and no
value that is shifted to the left loses a bit.

Values may be as large as the high edge of the top slot here, which is past `kMaxValue`.
-/

namespace Dariyanaap.Buckets

/-- The arithmetic of `index_of` outside the exact region. -/
structure IndexFits (value : ℕ) : Prop where
  /-- `msb - kSubBucketBits` is a shift. -/
  leading : kSubBucketBits ≤ 63 - countlZero value
  shift : 63 - countlZero value - kSubBucketBits < 64
  /-- The leading bit is among those that are kept. -/
  mantissa : kSubBuckets ≤ value >>> (63 - countlZero value - kSubBucketBits)
  /-- The octave is shifted as an `int`. -/
  octave : (63 - countlZero value - kSubBucketBits + 1) <<< kSubBucketBits < 2 ^ 31

/-- The arithmetic of `decode` and of the edges outside the exact region. -/
structure DecodeFits (index : ℕ) : Prop where
  /-- `(index >> kSubBucketBits) - 1` is an octave. -/
  octave : 1 ≤ index >>> kSubBucketBits
  shift : (decode index).exponent - kSubBucketBits < 64
  low : (decode index).mantissa <<< ((decode index).exponent - kSubBucketBits) < 2 ^ 63
  high : ((decode index).mantissa + 1) <<< ((decode index).exponent - kSubBucketBits) < 2 ^ 63

/-- The slots partition the recordable values. -/
structure Layout : Prop where
  /-- `record` stays inside its array. -/
  inBounds : ∀ v ≤ kMaxValue, indexOf v < kCount
  /-- A value lies between the edges of its slot. -/
  low : ∀ v ≤ kMaxValue, slotLow (indexOf v) ≤ v
  high : ∀ v ≤ kMaxValue, v ≤ slotHigh (indexOf v)
  /-- Small values are reported as they are, and the others hardly above. -/
  exact : ∀ v < 128, slotHigh (indexOf v) = v
  width : ∀ v ≤ kMaxValue, 128 ≤ v → 128 * (slotHigh (indexOf v) - v) < v
  mono : ∀ v w, v ≤ w → w ≤ kMaxValue → indexOf v ≤ indexOf w
  /-- No slot is empty. -/
  onto : ∀ i < kCount, ∃ v ≤ kMaxValue, indexOf v = i
  /-- A slot is the one of both its edges. -/
  indexLow : ∀ i < kCount, indexOf (slotLow i) = i
  indexHigh : ∀ i < kCount, indexOf (slotHigh i) = i
  /-- The next slot begins where a slot ends. -/
  gapless : ∀ i, i + 1 < kCount → slotHigh i + 1 = slotLow (i + 1)
  indexFits : ∀ v ≤ kMaxValue, kSubBuckets ≤ v → IndexFits v
  decodeFits : ∀ i < kCount, kSubBuckets ≤ i → DecodeFits i

variable {v i : ℕ}

/-- The high edges of the slots fit in 63 bits, the one of the top slot included. -/
theorem slotHigh_lt (hi : i < kCount) : slotHigh i + 1 < 2 ^ 63 := by
  have htop : slotHigh (kCount - 1) + 1 < 2 ^ 63 := by decide
  have hle : slotHigh i ≤ slotHigh (kCount - 1) := by
    rw [slotHigh_eq, slotHigh_eq]
    exact LogLinear.high_mono (Nat.le_sub_one_of_lt hi)
  omega

/-- The low edge of a slot is recordable. -/
theorem slotLow_le_kMaxValue (hi : i < kCount) : slotLow i ≤ kMaxValue := by
  have hle : slotLow i ≤ slotLow (indexOf kMaxValue) := by
    rw [slotLow_eq, slotLow_eq]
    exact LogLinear.low_mono (Nat.lt_succ_iff.mp hi)
  exact hle.trans (slotLow_indexOf_le le_rfl)

theorem indexOf_slotLow (hi : i < kCount) : indexOf (slotLow i) = i := by
  rw [indexOf_eq (lt_two_pow_of_le_kMaxValue (slotLow_le_kMaxValue hi)), slotLow_eq,
    LogLinear.index_low]

theorem indexOf_slotHigh (hi : i < kCount) : indexOf (slotHigh i) = i := by
  have hfits := slotHigh_lt hi
  rw [indexOf_eq (by omega), slotHigh_eq, LogLinear.index_high]

/-- The next slot begins where a slot ends. -/
theorem slotHigh_add_one (i : ℕ) : slotHigh i + 1 = slotLow (i + 1) := by
  rw [slotHigh_eq, slotLow_eq, LogLinear.high_add_one]

theorem slotHigh_indexOf_of_lt (hv : v < kSubBuckets) : slotHigh (indexOf v) = v := by
  rw [indexOf, if_pos hv, slotHigh, if_pos hv]

/-- Outside the exact region the reported edge exceeds a value by less than `1/128` of it. -/
theorem slotHigh_sub_lt (hv : v ≤ kMaxValue) (hge : kSubBuckets ≤ v) :
    kSubBuckets * (slotHigh (indexOf v) - v) < v := by
  rw [slotHigh_eq, indexOf_eq (lt_two_pow_of_le_kMaxValue hv), kSubBuckets_eq]
  exact LogLinear.width_lt hge

theorem indexFits (hv : v ≤ kMaxValue) (hge : kSubBuckets ≤ v) : IndexFits v := by
  have hne : v ≠ 0 := (lt_of_lt_of_le (by decide) hge).ne'
  have hfits := lt_two_pow_of_le_kMaxValue hv
  have hlog : Nat.log 2 v < 64 := Nat.log_lt_of_lt_pow hne hfits
  have hmsb := msb_eq hne hfits
  constructor
  · rw [hmsb]
    exact Nat.le_log_of_pow_le one_lt_two hge
  · rw [hmsb]
    omega
  · rw [hmsb, Nat.shiftRight_eq_div_pow]
    exact (LogLinear.mantissa_bounds (b := kSubBucketBits) hge).1
  · rw [hmsb, Nat.shiftLeft_eq, kSubBucketBits]
    omega

theorem decodeFits (hi : i < kCount) (hge : kSubBuckets ≤ i) : DecodeFits i := by
  have hcount : kCount = 3808 := by decide
  have hdiv : i / 2 ^ kSubBucketBits < 64 :=
    (Nat.div_lt_iff_lt_mul (by decide)).mpr (by rw [kSubBucketBits]; omega)
  have hhigh := slotHigh_lt hi
  rw [slotHigh, if_neg (not_lt.mpr hge)] at hhigh
  have hedge : ((decode i).mantissa + 1) <<< ((decode i).exponent - kSubBucketBits) < 2 ^ 63 := by
    dsimp only at hhigh
    omega
  constructor
  · rw [Nat.shiftRight_eq_div_pow]
    exact (Nat.le_div_iff_mul_le (by decide)).mpr (by rwa [Nat.one_mul])
  · rw [decode_exponent_sub]
    omega
  · -- the low edge is below the high one
    refine lt_of_le_of_lt ?_ hedge
    rw [Nat.shiftLeft_eq, Nat.shiftLeft_eq]
    exact Nat.mul_le_mul_right _ (Nat.le_succ _)
  · exact hedge

/-- The slots partition the recordable values, in order, without gaps, each of them narrow, and
the arithmetic that finds them stays inside its types. -/
theorem layout : Layout where
  inBounds _ hv := indexOf_lt_kCount hv
  low _ hv := slotLow_indexOf_le hv
  high _ hv := le_slotHigh_indexOf hv
  exact _ hv := slotHigh_indexOf_of_lt hv
  width _ hv hge := slotHigh_sub_lt hv hge
  mono _ _ hvw hw := indexOf_mono hvw hw
  onto i hi := ⟨slotLow i, slotLow_le_kMaxValue hi, indexOf_slotLow hi⟩
  indexLow _ hi := indexOf_slotLow hi
  indexHigh _ hi := indexOf_slotHigh hi
  gapless i _ := slotHigh_add_one i
  indexFits _ hv hge := indexFits hv hge
  decodeFits _ hi hge := decodeFits hi hge

end Dariyanaap.Buckets

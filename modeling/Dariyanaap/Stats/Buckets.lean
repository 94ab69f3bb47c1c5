import Dariyanaap.Library.LogLinear

/-!
# The histogram's bucket layout

Log-linear slots over nanoseconds (`stats/buckets.hpp`): the index arithmetic of the source,
shown to be the layout of `Library.LogLinear` with seven sub-bucket bits, and the facts the
histogram uses in the source's own words.

Values are the non-negative `int64` latencies the layout is documented for, so they are
natural numbers here.
-/

namespace Dariyanaap.Buckets

/-- `kSubBucketBits`. -/
def kSubBucketBits : ℕ := 7

/-- `kSubBuckets`, the slots of one octave. -/
def kSubBuckets : ℕ := 1 <<< kSubBucketBits

/-- `kMaxValue`, 60 s in nanoseconds: the largest latency the layout holds. -/
def kMaxValue : ℕ := 60_000_000_000

/-- `std::countl_zero` of a 64-bit value. -/
def countlZero (value : ℕ) : ℕ :=
  if value = 0 then 64 else 63 - Nat.log2 value

/-- The slot holding `value` nanoseconds. -/
def indexOf (value : ℕ) : ℕ :=
  if value < kSubBuckets then value
  else
    let msb := 63 - countlZero value
    let shift := msb - kSubBucketBits
    let mantissa := (value >>> shift) - kSubBuckets
    ((msb - kSubBucketBits + 1) <<< kSubBucketBits) + mantissa

/-- `kCount`, the number of slots, derived from the layout as in the source. -/
def kCount : ℕ := indexOf kMaxValue + 1

/-- The (exponent, mantissa) a slot decodes to. -/
structure Decoded where
  exponent : ℕ
  mantissa : ℕ

/-- Decode a slot outside the exact region. -/
def decode (index : ℕ) : Decoded where
  exponent := (index >>> kSubBucketBits) - 1 + kSubBucketBits
  mantissa := (index &&& (kSubBuckets - 1)) + kSubBuckets

/-- Lowest value that lands in a slot. -/
def slotLow (index : ℕ) : ℕ :=
  if index < kSubBuckets then index
  else
    let d := decode index
    d.mantissa <<< (d.exponent - kSubBucketBits)

/-- Highest value that lands in a slot: the value `percentile` reports. -/
def slotHigh (index : ℕ) : ℕ :=
  if index < kSubBuckets then index
  else
    let d := decode index
    ((d.mantissa + 1) <<< (d.exponent - kSubBucketBits)) - 1

/-! ## The layout is log-linear -/

theorem kSubBuckets_eq : kSubBuckets = 2 ^ kSubBucketBits := rfl

-- the figure of the design for the slots the layout allocates
example : kCount = 3808 := by decide

/-- The position of the leading bit, as the source finds it. -/
theorem msb_eq {value : ℕ} (hne : value ≠ 0) (h : value < 2 ^ 64) :
    63 - countlZero value = Nat.log 2 value := by
  have hlog : Nat.log 2 value < 64 := Nat.log_lt_of_lt_pow hne h
  rw [countlZero, if_neg hne, Nat.log2_eq_log_two]
  omega

/-- The index arithmetic of the source is the log-linear index with seven sub-bucket bits,
for every value that fits in 64 bits. -/
theorem indexOf_eq {value : ℕ} (h : value < 2 ^ 64) :
    indexOf value = LogLinear.index kSubBucketBits value := by
  unfold indexOf
  split_ifs with hlt
  · exact (LogLinear.index_of_lt hlt).symm
  · rw [kSubBuckets_eq, not_lt] at hlt
    have hne : value ≠ 0 := by have := Nat.two_pow_pos kSubBucketBits; omega
    have hmsb := msb_eq hne h
    have hlo := (LogLinear.mantissa_bounds hlt).1
    simp only [hmsb, Nat.shiftLeft_eq, Nat.shiftRight_eq_div_pow, kSubBuckets_eq,
      LogLinear.index, LogLinear.octave, Nat.add_mul] at hlo ⊢
    omega

theorem decode_exponent_sub (index : ℕ) :
    (decode index).exponent - kSubBucketBits = index / 2 ^ kSubBucketBits - 1 := by
  rw [decode, Nat.shiftRight_eq_div_pow, Nat.add_sub_cancel]

theorem decode_mantissa (index : ℕ) :
    (decode index).mantissa = index % 2 ^ kSubBucketBits + 2 ^ kSubBucketBits := by
  rw [decode, kSubBuckets_eq, Nat.and_two_pow_sub_one_eq_mod]

theorem slotLow_eq (index : ℕ) : slotLow index = LogLinear.low kSubBucketBits index := by
  simp only [slotLow, LogLinear.low, kSubBuckets_eq, Nat.shiftLeft_eq, decode_exponent_sub,
    decode_mantissa]

theorem slotHigh_eq (index : ℕ) : slotHigh index = LogLinear.high kSubBucketBits index := by
  simp only [slotHigh, LogLinear.high, kSubBuckets_eq, Nat.shiftLeft_eq, decode_exponent_sub,
    decode_mantissa]

/-! ## What the histogram uses -/

section Recordable

variable {v w : ℕ}

/-- Recordable values fit in 64 bits. -/
theorem lt_two_pow_of_le_kMaxValue (h : v ≤ kMaxValue) : v < 2 ^ 64 :=
  lt_of_le_of_lt h (by decide)

theorem indexOf_mono (hvw : v ≤ w) (hw : w ≤ kMaxValue) : indexOf v ≤ indexOf w := by
  rw [indexOf_eq (lt_two_pow_of_le_kMaxValue hw),
    indexOf_eq (lt_two_pow_of_le_kMaxValue (hvw.trans hw))]
  exact LogLinear.index_mono hvw

/-- `record` stays inside its array. -/
theorem indexOf_lt_kCount (h : v ≤ kMaxValue) : indexOf v < kCount :=
  Nat.lt_succ_of_le (indexOf_mono h le_rfl)

/-- The reported edge is never below a value of the slot. -/
theorem le_slotHigh_indexOf (h : v ≤ kMaxValue) : v ≤ slotHigh (indexOf v) := by
  rw [slotHigh_eq, indexOf_eq (lt_two_pow_of_le_kMaxValue h)]
  exact LogLinear.le_high_index _ _

/-- The reported edge exceeds a value of the slot by at most `1/128` of it. -/
theorem slotHigh_sub_le (h : v ≤ kMaxValue) :
    kSubBuckets * (slotHigh (indexOf v) - v) ≤ v := by
  rw [slotHigh_eq, indexOf_eq (lt_two_pow_of_le_kMaxValue h), kSubBuckets_eq]
  rcases lt_or_ge v (2 ^ kSubBucketBits) with hlt | hge
  -- the exact region reports the value itself
  · rw [LogLinear.high_index_of_lt hlt]
    simp
  · exact (LogLinear.width_lt hge).le

/-- Reported edges are ordered like the values they report. -/
theorem slotHigh_indexOf_mono (hvw : v ≤ w) (hw : w ≤ kMaxValue) :
    slotHigh (indexOf v) ≤ slotHigh (indexOf w) := by
  rw [slotHigh_eq, slotHigh_eq, indexOf_eq (lt_two_pow_of_le_kMaxValue hw),
    indexOf_eq (lt_two_pow_of_le_kMaxValue (hvw.trans hw))]
  exact LogLinear.high_index_mono hvw

/-- A value is not below the low edge of its slot. -/
theorem slotLow_indexOf_le (h : v ≤ kMaxValue) : slotLow (indexOf v) ≤ v := by
  rw [slotLow_eq, indexOf_eq (lt_two_pow_of_le_kMaxValue h)]
  exact LogLinear.low_index_le _ _

end Recordable

/-- A slot is an interval. -/
theorem slotLow_le_slotHigh (index : ℕ) : slotLow index ≤ slotHigh index := by
  rw [slotLow_eq, slotHigh_eq]
  exact LogLinear.low_le_high _ _

/-- Later slots lie entirely above earlier ones. -/
theorem slotHigh_lt_slotLow {i j : ℕ} (h : i < j) : slotHigh i < slotLow j := by
  rw [slotHigh_eq, slotLow_eq]
  exact LogLinear.high_lt_low h

/-- The top slot reaches past the values the layout is for, and only the top slot does. -/
theorem kMaxValue_lt_slotHigh_iff {i : ℕ} (hi : i < kCount) :
    kMaxValue < slotHigh i ↔ i = kCount - 1 := by
  constructor
  · intro h
    by_contra hne
    have hlow := slotHigh_lt_slotLow (show i < indexOf kMaxValue from by
      have : kCount = indexOf kMaxValue + 1 := rfl
      omega)
    have := slotLow_indexOf_le (le_refl kMaxValue)
    omega
  · rintro rfl
    decide

end Dariyanaap.Buckets

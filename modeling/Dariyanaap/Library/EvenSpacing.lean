import Mathlib.Algebra.Order.Round
import Mathlib.Data.Set.Card
import Mathlib.Order.Interval.Set.Nat
import Mathlib.Tactic.FieldSimp
import Mathlib.Tactic.Linarith
import Mathlib.Tactic.Positivity
import Mathlib.Tactic.Ring

/-!
# Evenly spaced ticks on an integer clock

Tick `i` belongs at `i * period` and falls on the nearest integer. Rounding each tick by itself
keeps it within a half of where it belongs (`abs_tick_sub_le`), and a window of integers holds as
many ticks as its length demands, rounded down or up (`ncard_window`): shifting both ends by a
half turns the rounded ticks into the unrounded ones, of which a window holds a difference of two
ceilings. A window that begins at zero needs a period above a half, or tick zero would not be the
first one in it.

`ncard_before_eq_floor_iff` compares the ticks before a bound with the quotient rounded down.
-/

namespace EvenSpacing

variable {K : Type*} [Field K] [LinearOrder K] [IsStrictOrderedRing K] [FloorRing K]
  {period x d : K} {a b : ℤ} {i : ℕ}

/-- When tick `i` falls. -/
def tick (period : K) (i : ℕ) : ℤ := round (i * period)

/-- The first tick at or after `a`. -/
def firstFrom (period : K) (a : ℤ) : ℕ := ⌈((a : K) - 1 / 2) / period⌉₊

/-- No tick is far from where it belongs. -/
theorem abs_tick_sub_le (period : K) (i : ℕ) : |(tick period i : K) - i * period| ≤ 1 / 2 := by
  rw [abs_sub_comm]
  exact abs_sub_round _

/-- The ticks at or after `a` are those from `firstFrom` on. -/
theorem le_tick_iff (hperiod : 0 < period) : a ≤ tick period i ↔ firstFrom period a ≤ i := by
  calc a ≤ tick period i
    _ ↔ (a : K) ≤ i * period + 1 / 2 := by rw [tick, round_eq, Int.le_floor]
    _ ↔ ((a : K) - 1 / 2) / period ≤ i := by rw [div_le_iff₀ hperiod, sub_le_iff_le_add]
    _ ↔ firstFrom period a ≤ i := Nat.ceil_le.symm

/-- The ticks before `b` are those before `firstFrom`. -/
theorem tick_lt_iff (hperiod : 0 < period) : tick period i < b ↔ i < firstFrom period b := by
  rw [← not_le, ← not_le, le_tick_iff hperiod]

/-- The ticks in a window. -/
theorem window_eq (hperiod : 0 < period) (a b : ℤ) :
    {i | a ≤ tick period i ∧ tick period i < b} =
      Set.Ico (firstFrom period a) (firstFrom period b) := by
  ext i
  exact and_congr (le_tick_iff hperiod) (tick_lt_iff hperiod)

/-- The ticks before a bound. -/
theorem before_eq (hperiod : 0 < period) (b : ℤ) :
    {i | tick period i < b} = Set.Iio (firstFrom period b) := by
  ext i
  exact tick_lt_iff hperiod

theorem ncard_Ico (m n : ℕ) : (Set.Ico m n).ncard = n - m := by
  rw [← Finset.coe_Ico, Set.ncard_coe_finset, Nat.card_Ico]

theorem ncard_Iio (n : ℕ) : (Set.Iio n).ncard = n := by
  rw [← Finset.coe_Iio, Set.ncard_coe_finset, Nat.card_Iio]

/-- Two ceilings differ by the distance of their arguments, rounded down or up. -/
theorem ceil_add_sub_ceil (hx : -1 < x) (hd : 0 ≤ d) :
    ⌈x + d⌉₊ - ⌈x⌉₊ = ⌊d⌋₊ ∨ ⌈x + d⌉₊ - ⌈x⌉₊ = ⌈d⌉₊ := by
  have hlow : ⌈x⌉₊ + ⌊d⌋₊ ≤ ⌈x + d⌉₊ := by
    rcases le_or_gt x 0 with hneg | hpos
    · -- a negative argument above `-1` has the ceiling zero
      rw [Nat.ceil_eq_zero.mpr hneg, Nat.zero_add]
      rcases Nat.eq_zero_or_pos ⌊d⌋₊ with hzero | hfloor
      · rw [hzero]
        exact Nat.zero_le _
      · have hlt : ((⌊d⌋₊ - 1 : ℕ) : K) < x + d := by
          have hd' := Nat.floor_le hd
          rw [Nat.cast_sub hfloor, Nat.cast_one]
          linarith
        have := Nat.lt_ceil.mpr hlt
        omega
    · rw [← Nat.ceil_add_natCast hpos.le]
      exact Nat.ceil_mono (by linarith [Nat.floor_le hd])
  have hhigh : ⌈x + d⌉₊ ≤ ⌈x⌉₊ + ⌈d⌉₊ := Nat.ceil_add_le x d
  have hgap : ⌈d⌉₊ ≤ ⌊d⌋₊ + 1 := Nat.ceil_le_floor_add_one d
  omega

/-- A window holds as many ticks as its length demands, rounded down or up. -/
theorem ncard_window (hperiod : 1 / 2 < period) (ha : 0 ≤ a) (hab : a ≤ b) :
    {i | a ≤ tick period i ∧ tick period i < b}.ncard = ⌊((b - a : ℤ) : K) / period⌋₊ ∨
      {i | a ≤ tick period i ∧ tick period i < b}.ncard = ⌈((b - a : ℤ) : K) / period⌉₊ := by
  have hpos : 0 < period := lt_trans one_half_pos hperiod
  have ha' : (0 : K) ≤ a := Int.cast_nonneg ha
  have hstart : -1 < ((a : K) - 1 / 2) / period := by
    rw [lt_div_iff₀ hpos]
    linarith
  have hlength : (0 : K) ≤ ((b - a : ℤ) : K) / period :=
    div_nonneg (Int.cast_nonneg (sub_nonneg.mpr hab)) hpos.le
  have hend : ((b : K) - 1 / 2) / period = ((a : K) - 1 / 2) / period +
      ((b - a : ℤ) : K) / period := by
    rw [← add_div, Int.cast_sub]
    ring
  rw [window_eq hpos, ncard_Ico, firstFrom, firstFrom, hend]
  exact ceil_add_sub_ceil hstart hlength

/-- A window is finite. -/
theorem finite_window (hperiod : 0 < period) (a b : ℤ) :
    {i | a ≤ tick period i ∧ tick period i < b}.Finite := by
  rw [window_eq hperiod]
  exact Set.finite_Ico _ _

/-- A ceiling just below a number is its floor when the number is that little above it. -/
theorem ceil_sub_eq_floor_iff (hx : 0 ≤ x) (hd : d < 1) :
    ⌈x - d⌉₊ = ⌊x⌋₊ ↔ Int.fract x ≤ d := by
  have hfloor : (⌊x⌋₊ : K) = ⌊x⌋ := by
    rw [← natCast_floor_eq_intCast_floor hx]
  have hfract : Int.fract x = x - ⌊x⌋₊ := by rw [hfloor, Int.self_sub_floor]
  have hle := Nat.floor_le hx
  rw [hfract, sub_le_comm]
  constructor
  · intro heq
    rw [← heq]
    exact Nat.le_ceil _
  · intro hclose
    refine le_antisymm (Nat.ceil_le.mpr hclose) ?_
    -- the bound below: nothing is lost by less than one
    rcases Nat.eq_zero_or_pos ⌊x⌋₊ with hzero | hpos
    · rw [hzero]
      exact Nat.zero_le _
    · have hlt : ((⌊x⌋₊ - 1 : ℕ) : K) < x - d := by
        rw [Nat.cast_sub hpos, Nat.cast_one]
        linarith
      have := Nat.lt_ceil.mpr hlt
      omega

/-- The ticks before a bound are the quotient rounded down exactly when the quotient is above a
whole number by at most half a unit over the period. -/
theorem ncard_before_eq_floor_iff (hperiod : 1 / 2 < period) (hb : 0 ≤ b) :
    {i | tick period i < b}.ncard = ⌊(b : K) / period⌋₊ ↔
      Int.fract ((b : K) / period) ≤ 1 / (2 * period) := by
  have hpos : 0 < period := lt_trans one_half_pos hperiod
  have hshift : ((b : K) - 1 / 2) / period = b / period - 1 / (2 * period) := by
    field_simp
  have hsmall : 1 / (2 * period) < 1 := by
    rw [div_lt_one (by linarith)]
    linarith
  rw [before_eq hpos, ncard_Iio, firstFrom, hshift]
  exact ceil_sub_eq_floor_iff (div_nonneg (Int.cast_nonneg hb) hpos.le) hsmall

end EvenSpacing

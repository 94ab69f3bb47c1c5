import Dariyanaap.Core.Units
import Dariyanaap.Library.EvenSpacing

/-!
# When requests are due

`Rate::due_at` (`core/units.cpp`) multiplies the index and rounds once, so its due times are the
ticks of an evenly spaced clock (`dueAt_exact`). A schedule that is computed so offers the
configured rate over every window, and not only in the long run (`offered_rate`).
-/

namespace Dariyanaap

/-- Away from zero or upwards is the same above zero. -/
theorem llround_eq_round {x : ℚ} (h : 0 ≤ x) : llround x = round x := by
  rw [llround, if_pos h, round_eq]

theorem llround_mono {x y : ℚ} (hx : 0 ≤ x) (hxy : x ≤ y) : llround x ≤ llround y := by
  rw [llround, llround, if_pos hx, if_pos (hx.trans hxy)]
  exact Int.floor_mono (by gcongr)

namespace Rate

/-- The time between two requests in nanoseconds, before it is rounded. -/
def period (rate : Rate) : ℚ := 1_000_000_000 / rate.rps

/-- At the largest rate a request is due every nanosecond. -/
theorem one_le_period (rate : Rate) : 1 ≤ rate.period := by
  rw [period, one_le_div rate.rps_pos]
  exact rate.le_max

theorem period_pos (rate : Rate) : 0 < rate.period := one_pos.trans_le rate.one_le_period

/-- A length of time holds as many periods as the rate says. -/
theorem div_period (rate : Rate) (x : ℚ) : x / rate.period = x * rate.rps / 1_000_000_000 := by
  rw [period, div_div_eq_mul_div]

/-- In exact arithmetic the due times are evenly spaced ticks. -/
theorem dueAt_exact (rate : Rate) : rate.dueAt .exact = EvenSpacing.tick rate.period := by
  funext index
  have hnonneg : (0 : ℚ) ≤ index * rate.period :=
    mul_nonneg (Nat.cast_nonneg index) rate.period_pos.le
  rw [EvenSpacing.tick, ← llround_eq_round hnonneg, dueAt, period, ← mul_div_assoc]
  rfl

/-- Due times never decrease, whatever the rounding. -/
theorem dueAt_mono (fl : Rounding) (rate : Rate) {i j : ℕ} (hij : i ≤ j) :
    rate.dueAt fl i ≤ rate.dueAt fl j := by
  have hcast : (i : ℚ) ≤ j := Nat.cast_le.mpr hij
  have hindex : fl (fl i * 1_000_000_000) ≤ fl (fl j * 1_000_000_000) :=
    fl.mono (mul_le_mul_of_nonneg_right (fl.mono hcast) (by norm_num))
  have hscaled : 0 ≤ fl (fl i * 1_000_000_000) :=
    fl.nonneg (mul_nonneg (fl.nonneg (Nat.cast_nonneg i)) (by norm_num))
  exact llround_mono (fl.nonneg (div_nonneg hscaled rate.rps_pos.le))
    (fl.mono (div_le_div_of_nonneg_right hindex rate.rps_pos.le))

/-- The configured rate is the offered rate over every window: as many requests are due in it
as the rate demands, rounded down or up. Due times never decrease, and none drifts. -/
theorem offered_rate (rate : Rate) :
    (∀ a b : Nanos, 0 ≤ a → a < b →
      {i | a ≤ rate.dueAt .exact i ∧ rate.dueAt .exact i < b}.Finite ∧
        ({i | a ≤ rate.dueAt .exact i ∧ rate.dueAt .exact i < b}.ncard =
            ⌊((b - a : ℤ) : ℚ) * rate.rps / 1_000_000_000⌋₊ ∨
          {i | a ≤ rate.dueAt .exact i ∧ rate.dueAt .exact i < b}.ncard =
            ⌈((b - a : ℤ) : ℚ) * rate.rps / 1_000_000_000⌉₊)) ∧
      (∀ fl i j, i ≤ j → rate.dueAt fl i ≤ rate.dueAt fl j) ∧
      ∀ i : ℕ, |(rate.dueAt .exact i : ℚ) - i * 1_000_000_000 / rate.rps| ≤ 1 / 2 := by
  have hhalf : 1 / 2 < rate.period := lt_of_lt_of_le one_half_lt_one rate.one_le_period
  refine ⟨fun a b ha hab => ?_, fun fl i j hij => rate.dueAt_mono fl hij, fun i => ?_⟩
  · rw [rate.dueAt_exact, ← rate.div_period]
    exact ⟨EvenSpacing.finite_window rate.period_pos a b,
      EvenSpacing.ncard_window hhalf ha hab.le⟩
  · rw [rate.dueAt_exact, mul_div_assoc]
    exact EvenSpacing.abs_tick_sub_le rate.period i

/-- Between half a millisecond and three milliseconds, 1000 rps offers two requests or three. -/
theorem offered_rate_thousand :
    {i | 500_000 ≤ thousand.dueAt .exact i ∧ thousand.dueAt .exact i < 3_000_000}.ncard = 2 ∨
      {i | 500_000 ≤ thousand.dueAt .exact i ∧ thousand.dueAt .exact i < 3_000_000}.ncard = 3 := by
  obtain ⟨-, hcount⟩ := (offered_rate thousand).1 500_000 3_000_000 (by decide) (by decide)
  have hquotient : (((3_000_000 : ℤ) - 500_000 : ℤ) : ℚ) * thousand.rps / 1_000_000_000 =
      5 / 2 := by
    norm_num [thousand]
  rw [hquotient] at hcount
  have hdown : ⌊(5 / 2 : ℚ)⌋₊ = 2 := by norm_num [Nat.floor_eq_iff]
  have hup : ⌈(5 / 2 : ℚ)⌉₊ = 3 := by norm_num [Nat.ceil_eq_iff]
  rwa [hdown, hup] at hcount

end Rate

end Dariyanaap

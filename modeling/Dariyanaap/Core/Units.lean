import Dariyanaap.Library.Rounding
import Mathlib.Algebra.Order.Field.Rat
import Mathlib.Tactic.Positivity
import Mathlib.Tactic.NormNum

/-!
# Units

Durations, instants and the offered rate (`core/units.hpp`, `core/units.cpp`). Durations and
instants are integer nanosecond counts. A rate carries the bounds its only constructor
checks, so `interval` and `dueAt` are total. The `double` arithmetic of both is rational
arithmetic with a `Rounding` after each operation.
-/

namespace Dariyanaap

/-- A duration in nanoseconds, `chrono::nanoseconds`. -/
abbrev Nanos : Type := ℤ

/-- A duration in milliseconds, `Millis`. -/
abbrev Millis : Type := ℤ

/-- The conversion of `chrono` from milliseconds. -/
def Millis.toNanos (duration : Millis) : Nanos := duration * 1_000_000

/-- A reading of the monotonic clock, in nanoseconds since its epoch. -/
abbrev Instant : Type := ℤ

/-- `MonotonicClock::between`. -/
def between (start finish : Instant) : Nanos := finish - start

/-- A `double` as the checks of the source tell them apart. -/
inductive Double where
  | finite (value : ℚ)
  | infinite (negative : Bool)
  | nan
  deriving DecidableEq

/-- `llround`: nearest integer, halfway cases away from zero. -/
def llround (x : ℚ) : ℤ :=
  if 0 ≤ x then ⌊x + 1 / 2⌋ else ⌈x - 1 / 2⌉

theorem llround_nonneg {x : ℚ} (h : 0 ≤ x) : 0 ≤ llround x := by
  rw [llround, if_pos h]
  exact Int.floor_nonneg.mpr (by positivity)

/-- `kMinRps`. -/
def kMinRps : ℚ := 1 / 1000

/-- `kMaxRps`. -/
def kMaxRps : ℚ := 1_000_000_000

/-- Offered load in requests per second, between the bounds that keep `interval` and `dueAt`
total. -/
structure Rate where
  /-- Requests per second. -/
  rps : ℚ
  min_le : kMinRps ≤ rps
  le_max : rps ≤ kMaxRps

/-- Why `Rate::per_second` throws its `UsageError`. -/
inductive RateError where
  | notFinite
  | outOfRange (rps : ℚ)
  deriving DecidableEq

namespace Rate

/-- `Rate::per_second`, the only way to make a rate. -/
def perSecond : Double → Except RateError Rate
  | .finite rps =>
      if h : rps < kMinRps ∨ kMaxRps < rps then .error (.outOfRange rps)
      else .ok ⟨rps, not_lt.mp fun hlt => h (.inl hlt), not_lt.mp fun hlt => h (.inr hlt)⟩
  | .infinite _ => .error .notFinite
  | .nan => .error .notFinite

/-- `Rate::per_second(1000.0)`, the rate of a plan that names none. -/
def thousand : Rate where
  rps := 1000
  min_le := by norm_num [kMinRps]
  le_max := by norm_num [kMaxRps]

theorem rps_pos (rate : Rate) : 0 < rate.rps :=
  lt_of_lt_of_le (by norm_num [kMinRps]) rate.min_le

/-- The gap between consecutive requests. -/
def interval (fl : Rounding) (rate : Rate) : Nanos :=
  llround (fl (1_000_000_000 / rate.rps))

/-- When request `index` is due, measured from the start of the run. -/
def dueAt (fl : Rounding) (rate : Rate) (index : ℕ) : Nanos :=
  llround (fl (fl (fl index * 1_000_000_000) / rate.rps))

/-- No request is due before the run starts. -/
theorem dueAt_nonneg (fl : Rounding) (rate : Rate) (index : ℕ) : 0 ≤ rate.dueAt fl index := by
  have hindex : 0 ≤ fl (index : ℚ) := fl.nonneg (Nat.cast_nonneg index)
  have hscaled : 0 ≤ fl (fl index * 1_000_000_000) := fl.nonneg (by positivity)
  exact llround_nonneg (fl.nonneg (div_nonneg hscaled rate.rps_pos.le))

end Rate

end Dariyanaap

import Dariyanaap.Fault.Knobs
import Dariyanaap.Library.Binary64

/-!
# Injected drops

`set_drop_probability` keeps a probability as a whole number of parts per million. A number goes
through three roundings on its way there: to the nearest `double`, of the product with a million,
and of the sum with a half, which is then cut off. What is kept is the nearest whole number of
parts, up to these roundings, and so a number that has whole parts is kept as it is.
-/

namespace Dariyanaap

namespace Fault

open Rounding (binary64 abs_binary64_sub_le)

variable {fl : Rounding} {p q ε : ℚ} {n : ℤ}

/-- The parts per million are off by a half and what the two operations lose. -/
theorem abs_dropPpm_sub_le_add (hfl : ∀ x : ℚ, |x| < 2 ^ 20 → |fl x - x| ≤ ε) (hε : ε ≤ 1)
    (hpos : 0 ≤ p) (hle : p ≤ 1) : |(dropPpm fl p : ℚ) - p * 1_000_000| ≤ 1 / 2 + 2 * ε := by
  have hproduct := abs_le.mp (hfl (p * 1_000_000) (abs_lt.mpr ⟨by linarith, by linarith⟩))
  have hsum := abs_le.mp (hfl (fl (p * 1_000_000) + 1 / 2)
    (abs_lt.mpr ⟨by linarith, by linarith⟩))
  have hbelow : (dropPpm fl p : ℚ) ≤ fl (fl (p * 1_000_000) + 1 / 2) := Int.floor_le _
  have habove : fl (fl (p * 1_000_000) + 1 / 2) < (dropPpm fl p : ℚ) + 1 := Int.lt_floor_add_one _
  rw [abs_le]
  constructor <;> linarith

/-- Exact operations lose nothing. -/
theorem abs_dropPpm_sub_le (hpos : 0 ≤ p) (hle : p ≤ 1) :
    |(dropPpm .exact p : ℚ) - p * 1_000_000| ≤ 1 / 2 := by
  have hexact : ∀ x : ℚ, |x| < 2 ^ 20 → |Rounding.exact x - x| ≤ 0 := fun x _ => by simp
  simpa using abs_dropPpm_sub_le_add hexact zero_le_one hpos hle

/-- A number whose nearest `double` is a probability is kept within one part per million. -/
theorem abs_dropPpm_binary64_sub_lt (hpos : 0 ≤ binary64 q)
    (hle : binary64 q ≤ 1) :
    |(dropPpm binary64 (binary64 q) : ℚ) - q * 1_000_000| < 1 := by
  have hsmall : |q| < 2 ^ (1 : ℤ) := by
    -- the `double`s of other numbers are no probabilities
    have htwo : ¬binary64 2 ≤ 1 := by decide +kernel
    have hminus : ¬0 ≤ binary64 (-2) := by decide +kernel
    rw [zpow_one, abs_lt]
    constructor
    · by_contra h
      exact hminus (hpos.trans (binary64.mono (not_lt.mp h)))
    · by_contra h
      exact htwo ((binary64.mono (not_lt.mp h)).trans hle)
  have hnumber := abs_le.mp (abs_binary64_sub_le (by decide) hsmall)
  have hoperation : ∀ x : ℚ, |x| < 2 ^ 20 → |binary64 x - x| ≤ 1 / 2 ^ 34 := fun x hx => by
    have hlost := abs_binary64_sub_le (x := x) (e := 20) (by decide) (by exact_mod_cast hx)
    norm_num at hlost ⊢
    exact hlost
  have hparts := abs_le.mp (abs_dropPpm_sub_le_add hoperation (by norm_num) hpos hle)
  norm_num at hnumber hparts
  rw [abs_lt]
  constructor <;> linarith

/-- Whole parts per million are kept. -/
theorem dropPpm_binary64_eq (hpos : 0 ≤ binary64 q) (hle : binary64 q ≤ 1)
    (hn : q * 1_000_000 = n) : dropPpm binary64 (binary64 q) = n := by
  have hnear := abs_dropPpm_binary64_sub_lt hpos hle
  rw [hn, ← Int.cast_sub, ← Int.cast_abs, ← Int.cast_one, Int.cast_lt, Int.abs_lt_one_iff] at hnear
  exact sub_eq_zero.mp hnear

/-- A number with whole parts per million is a probability when its nearest `double` is one. -/
theorem probability_of_parts (hpos : 0 ≤ binary64 q) (hle : binary64 q ≤ 1)
    (hn : q * 1_000_000 = n) : 0 ≤ q ∧ q ≤ 1 := by
  have hbelow : ¬0 ≤ binary64 (-1 / 1_000_000) := by decide +kernel
  have habove : ¬binary64 (1_000_001 / 1_000_000) ≤ 1 := by decide +kernel
  constructor
  · -- a negative number lies a part below zero at least
    by_contra hneg
    have hpart : n ≤ -1 := by
      have hlt : (n : ℚ) < 0 := by linarith
      have hlt' : n < 0 := by exact_mod_cast hlt
      lia
    have hpart' : (n : ℚ) ≤ -1 := by exact_mod_cast hpart
    exact hbelow (hpos.trans (binary64.mono (by linarith)))
  · by_contra hbig
    have hpart : 1_000_001 ≤ n := by
      have hlt : (1_000_000 : ℚ) < n := by linarith
      have hlt' : 1_000_000 < n := by exact_mod_cast hlt
      lia
    have hpart' : (1_000_001 : ℚ) ≤ n := by exact_mod_cast hpart
    exact habove ((binary64.mono (by linarith)).trans hle)

end Fault

end Dariyanaap

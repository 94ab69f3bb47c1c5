import Dariyanaap.Library.Rounding
import Mathlib.Data.Int.Log
import Mathlib.Tactic.Linarith
import Mathlib.Tactic.Positivity
import Mathlib.Tactic.Ring

/-!
# The rounding of binary64

Round to nearest, ties to even, with 53 bits of precision and gradual underflow: a value is
rounded to a multiple of the quantum of its binade. The exponent has no upper bound, so this is
what a `double` operation returns as long as its result does not overflow.

It is a `Rounding` (`Rounding.binary64`). It keeps what has a mantissa of 53 bits
(`binary64_eq_self`), and is off by half a quantum at most (`abs_binary64_sub_le`).
-/

namespace Binary64

variable {x y : ℚ} {e k : ℤ} {n m : ℕ}

/-! ## The nearest whole number -/

/-- The nearest whole number, the even one of two. -/
def roundHalfEven (x : ℚ) : ℕ :=
  let below := ⌊x⌋₊
  if x - below < 1 / 2 ∨ x - below = 1 / 2 ∧ below % 2 = 0 then below else below + 1

theorem abs_roundHalfEven_sub_le (hx : 0 ≤ x) : |(roundHalfEven x : ℚ) - x| ≤ 1 / 2 := by
  have hbelow : (⌊x⌋₊ : ℚ) ≤ x := Nat.floor_le hx
  have habove : x < ⌊x⌋₊ + 1 := Nat.lt_floor_add_one x
  rw [roundHalfEven, abs_le]
  split
  · next h =>
    have hhalf : x - ⌊x⌋₊ ≤ 1 / 2 := by
      rcases h with h | ⟨h, -⟩
      · exact h.le
      · exact h.le
    constructor <;> linarith
  · next h =>
    have hhalf : 1 / 2 ≤ x - ⌊x⌋₊ := by
      by_contra hlt
      exact h (.inl (not_le.mp hlt))
    push_cast
    constructor <;> linarith

@[simp]
theorem roundHalfEven_natCast (n : ℕ) : roundHalfEven (n : ℚ) = n := by
  simp [roundHalfEven]

/-- The number below is one of the two it is chosen from. -/
theorem roundHalfEven_bounds (x : ℚ) : ⌊x⌋₊ ≤ roundHalfEven x ∧ roundHalfEven x ≤ ⌊x⌋₊ + 1 := by
  rw [roundHalfEven]
  split
  · exact ⟨le_rfl, Nat.le_succ _⟩
  · exact ⟨Nat.le_succ _, le_rfl⟩

theorem roundHalfEven_mono (hxy : x ≤ y) : roundHalfEven x ≤ roundHalfEven y := by
  rcases (Nat.floor_mono hxy).lt_or_eq with hlt | heq
  · calc roundHalfEven x
      _ ≤ ⌊x⌋₊ + 1 := (roundHalfEven_bounds x).2
      _ ≤ ⌊y⌋₊ := hlt
      _ ≤ roundHalfEven y := (roundHalfEven_bounds y).1
  · -- both lie between the same two numbers
    by_cases hdown : y - ⌊y⌋₊ < 1 / 2 ∨ y - ⌊y⌋₊ = 1 / 2 ∧ ⌊y⌋₊ % 2 = 0
    · have hdown' : x - ⌊x⌋₊ < 1 / 2 ∨ x - ⌊x⌋₊ = 1 / 2 ∧ ⌊x⌋₊ % 2 = 0 := by
        rw [heq]
        rcases (sub_le_sub_right hxy (⌊y⌋₊ : ℚ)).lt_or_eq with hless | hsame
        · refine .inl (hless.trans_le ?_)
          rcases hdown with h | ⟨h, -⟩
          · exact h.le
          · exact h.le
        · rwa [hsame]
      rw [roundHalfEven, roundHalfEven, if_pos hdown, if_pos hdown', heq]
    · calc roundHalfEven x
        _ ≤ ⌊x⌋₊ + 1 := (roundHalfEven_bounds x).2
        _ = roundHalfEven y := by rw [roundHalfEven, if_neg hdown, heq]

/-! ## The multiples of a power of two -/

/-- The exponent of the quantum: the last of 53 bits, and no less than that of the smallest
subnormal. -/
def exponent (x : ℚ) : ℤ := max (Int.log 2 x - 52) (-1074)

/-- The nearest multiple of the quantum, for what is not negative. -/
def magnitude (x : ℚ) : ℚ := roundHalfEven (x / 2 ^ exponent x) * 2 ^ exponent x

/-- The nearest `double`. -/
def round (x : ℚ) : ℚ := if 0 ≤ x then magnitude x else -magnitude (-x)

theorem two_zpow_pos (k : ℤ) : (0 : ℚ) < 2 ^ k := zpow_pos two_pos k

theorem magnitude_nonneg (x : ℚ) : 0 ≤ magnitude x :=
  mul_nonneg (Nat.cast_nonneg _) (two_zpow_pos _).le

/-- A power of two is a multiple of a smaller one. -/
theorem exists_natCast_zpow (h : k ≤ e) : ∃ n : ℕ, (2 : ℚ) ^ e = n * 2 ^ k := by
  obtain ⟨n, hn⟩ := Int.eq_ofNat_of_zero_le (sub_nonneg.mpr h)
  refine ⟨2 ^ n, ?_⟩
  rw [Nat.cast_pow, Nat.cast_ofNat, ← zpow_natCast, ← zpow_add₀ two_ne_zero]
  congr 1
  lia

/-- What lies below a multiple of the quantum is rounded to below it, -/
theorem magnitude_le (h : x ≤ n * 2 ^ exponent x) : magnitude x ≤ n * 2 ^ exponent x := by
  have hquotient : x / 2 ^ exponent x ≤ n := (div_le_iff₀ (two_zpow_pos _)).mpr h
  have hround := roundHalfEven_mono hquotient
  rw [roundHalfEven_natCast] at hround
  exact mul_le_mul_of_nonneg_right (Nat.cast_le.mpr hround) (two_zpow_pos _).le

/-- and what lies above it to above it. -/
theorem le_magnitude (h : n * 2 ^ exponent x ≤ x) : n * 2 ^ exponent x ≤ magnitude x := by
  have hquotient : (n : ℚ) ≤ x / 2 ^ exponent x := (le_div_iff₀ (two_zpow_pos _)).mpr h
  have hround := roundHalfEven_mono hquotient
  rw [roundHalfEven_natCast] at hround
  exact mul_le_mul_of_nonneg_right (Nat.cast_le.mpr hround) (two_zpow_pos _).le

theorem magnitude_mono (hx : 0 ≤ x) (hxy : x ≤ y) : magnitude x ≤ magnitude y := by
  rcases hx.eq_or_lt with rfl | hpos
  · simpa [magnitude, roundHalfEven] using magnitude_nonneg y
  have hlog : Int.log 2 x ≤ Int.log 2 y := Int.log_mono_right hpos hxy
  have hle : exponent x ≤ exponent y := max_le_max_right _ (by lia)
  rcases hle.eq_or_lt with heq | hlt
  · rw [magnitude, magnitude, heq]
    have hquotient : x / 2 ^ exponent y ≤ y / 2 ^ exponent y :=
      div_le_div_of_nonneg_right hxy (two_zpow_pos _).le
    exact mul_le_mul_of_nonneg_right (Nat.cast_le.mpr (roundHalfEven_mono hquotient))
      (two_zpow_pos _).le
  · -- the power of two that the binade of `y` begins with lies between them
    have hy : exponent y = Int.log 2 y - 52 := by
      have hlow : -1074 ≤ exponent x := le_max_right _ _
      unfold exponent at hlow hlt ⊢
      lia
    have hbinade : Int.log 2 x + 1 ≤ Int.log 2 y := by
      unfold exponent at hlt hy
      lia
    have hbelow : x ≤ 2 ^ Int.log 2 y := by
      have hnext := Int.lt_zpow_succ_log_self (R := ℚ) (b := 2) Nat.one_lt_two x
      rw [Nat.cast_ofNat] at hnext
      exact hnext.le.trans (zpow_le_zpow_right₀ one_le_two hbinade)
    have habove : 2 ^ Int.log 2 y ≤ y := by
      have hself := Int.zpow_log_le_self (R := ℚ) (b := 2) Nat.one_lt_two (hpos.trans_le hxy)
      rwa [Nat.cast_ofNat] at hself
    obtain ⟨n, hn⟩ := exists_natCast_zpow (e := Int.log 2 y) (k := exponent x) (by lia)
    obtain ⟨m, hm⟩ := exists_natCast_zpow (e := Int.log 2 y) (k := exponent y) (by lia)
    calc magnitude x
      _ ≤ n * 2 ^ exponent x := magnitude_le (hn ▸ hbelow)
      _ = m * 2 ^ exponent y := by rw [← hn, hm]
      _ ≤ magnitude y := le_magnitude (hm ▸ habove)

theorem round_zero : round 0 = 0 := by
  simp [round, magnitude, roundHalfEven]

theorem round_mono : Monotone round := by
  intro x y hxy
  rw [round, round]
  split
  · next hx =>
    rw [if_pos (hx.trans hxy)]
    exact magnitude_mono hx hxy
  · next hx =>
    have hneg : 0 ≤ -x := neg_nonneg.mpr (not_le.mp hx).le
    split
    · exact (neg_nonpos.mpr (magnitude_nonneg _)).trans (magnitude_nonneg _)
    · next hy =>
      exact neg_le_neg (magnitude_mono (neg_nonneg.mpr (not_le.mp hy).le) (neg_le_neg hxy))

end Binary64

namespace Rounding

open Binary64

variable {x : ℚ} {e k : ℤ} {n m : ℕ}

/-- The rounding of `double` operations. -/
def binary64 : Rounding where
  toFun := Binary64.round
  mono := round_mono
  map_zero := round_zero

theorem binary64_of_nonneg (hx : 0 ≤ x) : binary64 x = magnitude x := if_pos hx

theorem binary64_neg (x : ℚ) : binary64 (-x) = -binary64 x := by
  show Binary64.round (-x) = -Binary64.round x
  rcases lt_trichotomy x 0 with hneg | rfl | hpos
  · rw [Binary64.round, Binary64.round, if_pos (by linarith), if_neg (by linarith), neg_neg]
  · rw [neg_zero, round_zero, neg_zero]
  · rw [Binary64.round, Binary64.round, if_neg (by linarith), if_pos hpos.le, neg_neg]

/-- A multiple of the quantum is kept. -/
theorem magnitude_eq_self (hx : x = n * 2 ^ exponent x) : magnitude x = x :=
  le_antisymm ((magnitude_le hx.le).trans_eq hx.symm) (hx.le.trans (le_magnitude hx.ge))

/-- The quantum of what lies below a power of two. -/
theorem exponent_le (he : -1021 ≤ e) (hpos : 0 < x) (h : x < 2 ^ e) : exponent x ≤ e - 53 := by
  have hlog : Int.log 2 x < e := by
    rwa [← Int.lt_zpow_iff_log_lt Nat.one_lt_two hpos, Nat.cast_ofNat]
  exact max_le (by lia) (by lia)

/-- A mantissa of less than 53 bits above the smallest quantum is kept. -/
theorem binary64_eq_self (hm : m < 2 ^ 53) (hk : -1074 ≤ k) :
    binary64 (m * 2 ^ k) = m * 2 ^ k := by
  have hnonneg : (0 : ℚ) ≤ m * 2 ^ k := mul_nonneg (Nat.cast_nonneg m) (two_zpow_pos k).le
  rw [binary64_of_nonneg hnonneg]
  rcases hnonneg.eq_or_lt with hzero | hpos
  · rw [← hzero]
    simp [magnitude, roundHalfEven]
  · have hlt : (m * 2 ^ k : ℚ) < 2 ^ (k + 53) := by
      rw [zpow_add₀ two_ne_zero, mul_comm]
      have hcast : (m : ℚ) < 2 ^ (53 : ℤ) := by exact_mod_cast hm
      exact mul_lt_mul_of_pos_left hcast (two_zpow_pos k)
    have hquantum : exponent (m * 2 ^ k : ℚ) ≤ k := by
      have hle := exponent_le (by lia) hpos hlt
      lia
    -- it is a multiple of its quantum
    obtain ⟨n, hn⟩ := exists_natCast_zpow hquantum
    refine magnitude_eq_self (n := m * n) ?_
    rw [Nat.cast_mul, mul_assoc, ← hn]

/-- Half a quantum is the most that is lost. -/
theorem abs_binary64_sub_le (he : -1021 ≤ e) (h : |x| < 2 ^ e) :
    |binary64 x - x| ≤ 2 ^ (e - 54) := by
  wlog hx : 0 ≤ x generalizing x
  · have hneg := this (x := -x) (by rwa [abs_neg]) (by linarith)
    rwa [binary64_neg, ← abs_neg, neg_sub, sub_neg_eq_add, neg_add_eq_sub] at hneg
  rw [abs_of_nonneg hx] at h
  rw [binary64_of_nonneg hx]
  rcases hx.eq_or_lt with rfl | hpos
  · simpa [magnitude, roundHalfEven] using (two_zpow_pos (e - 54)).le
  have hround := abs_roundHalfEven_sub_le (div_nonneg hx (two_zpow_pos (exponent x)).le)
  calc |magnitude x - x|
    _ = |roundHalfEven (x / 2 ^ exponent x) - x / 2 ^ exponent x| * 2 ^ exponent x := by
        rw [magnitude, ← abs_of_pos (two_zpow_pos (exponent x)), ← abs_mul, sub_mul,
          abs_of_pos (two_zpow_pos (exponent x)), div_mul_cancel₀ _ (two_zpow_pos _).ne']
    _ ≤ 1 / 2 * 2 ^ exponent x := mul_le_mul_of_nonneg_right hround (two_zpow_pos _).le
    _ ≤ 1 / 2 * 2 ^ (e - 53) := by
        have hquantum := zpow_le_zpow_right₀ (one_le_two (α := ℚ)) (exponent_le he hpos h)
        exact mul_le_mul_of_nonneg_left hquantum (by norm_num)
    _ = 2 ^ (e - 54) := by
        have hhalf : (2 : ℚ) ^ (e - 53) = 2 ^ (e - 54) * 2 := by
          rw [← zpow_add_one₀ two_ne_zero]
          congr 1
          lia
        rw [hhalf]
        ring

/-- The halves of the counts up to `2 ^ 52` have such mantissas. -/
theorem keepsHalves_binary64 (hn : n ≤ 2 ^ 52) : binary64.KeepsHalves n := by
  intro k hk
  have hle : k ≤ 2 ^ 53 := by lia
  rcases hle.lt_or_eq with hlt | rfl
  · have hself : binary64 (k * 2 ^ (-1 : ℤ)) = k * 2 ^ (-1 : ℤ) :=
      binary64_eq_self hlt (by decide)
    rwa [zpow_neg_one, ← div_eq_mul_inv] at hself
  · -- a half of the first one past them is a power of two
    have hself : binary64 ((1 : ℕ) * 2 ^ (52 : ℤ)) = (1 : ℕ) * 2 ^ (52 : ℤ) :=
      binary64_eq_self (by decide) (by decide)
    norm_num at hself ⊢
    exact hself

end Rounding

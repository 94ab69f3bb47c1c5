import Mathlib.Data.Rat.Floor
import Mathlib.Order.Monotone.Basic

/-!
# Monotone roundings

Floating-point arithmetic rounds the exact result of each operation to a nearby
representable number. Every rounding direction is monotone and keeps zero, and that is all
the order arguments of this development need, so a computation on `double` is modelled as
exact rational arithmetic with a `Rounding` applied where the source rounds.
`Rounding.exact` is the arithmetic without any rounding.
-/

/-- A monotone map on the rationals that keeps zero. -/
structure Rounding where
  /-- The rounded value. -/
  toFun : ℚ → ℚ
  /-- Rounding never reverses an order. -/
  mono : Monotone toFun
  /-- Zero is representable. -/
  map_zero : toFun 0 = 0

namespace Rounding

instance : CoeFun Rounding fun _ => ℚ → ℚ := ⟨toFun⟩

/-- Exact arithmetic: nothing is rounded. -/
def exact : Rounding where
  toFun := id
  mono := monotone_id
  map_zero := rfl

@[simp]
theorem exact_apply (x : ℚ) : exact x = x := rfl

variable (fl : Rounding) {x : ℚ}

/-- Rounding keeps a value on its side of zero. -/
theorem nonneg (h : 0 ≤ x) : 0 ≤ fl x := by
  rw [← fl.map_zero]
  exact fl.mono h

/-- The halves of all counts up to `n` are representable. -/
def KeepsHalves (n : ℕ) : Prop := ∀ k ≤ 2 * n, fl (k / 2) = k / 2

variable {fl} {n m : ℕ}

theorem keepsHalves_exact (n : ℕ) : exact.KeepsHalves n := fun _ _ => rfl

/-- And so are the counts. -/
theorem KeepsHalves.natCast (h : fl.KeepsHalves n) (hm : m ≤ n) : fl (m : ℚ) = m := by
  have hdouble := h (2 * m) (Nat.mul_le_mul_left 2 hm)
  rwa [Nat.cast_mul, Nat.cast_ofNat, mul_div_cancel_left₀ _ two_ne_zero] at hdouble

end Rounding

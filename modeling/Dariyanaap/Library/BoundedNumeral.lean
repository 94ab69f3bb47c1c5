import Mathlib.Algebra.Order.Ring.Nat

/-!
# Numerals that must fit

A loop that reads a numeral digit by digit into a number of bounded size, and tests before each
multiplication that the result will fit. The test is exact (`guard_iff`), so the loop returns what
the digits denote if that fits and nothing otherwise (`accumulate_eq_some_iff`).
-/

namespace BoundedNumeral

variable {base max acc n d : ℕ} {digits : List ℕ}

/-- What digits denote behind a number that was read already. -/
def value (base : ℕ) (digits : List ℕ) (acc : ℕ) : ℕ :=
  digits.foldl (fun acc d => acc * base + d) acc

/-- The loop, with the test that keeps its number from growing past the bound. -/
def accumulate (base max : ℕ) : List ℕ → (acc : ℕ) → Option ℕ
  | [], acc => some acc
  | d :: digits, acc =>
      if (max - d) / base < acc then none else accumulate base max digits (acc * base + d)

/-- The test lets a digit pass exactly when the number it makes fits. -/
theorem guard_iff (hbase : 0 < base) (hd : d ≤ max) :
    ¬(max - d) / base < acc ↔ acc * base + d ≤ max := by
  rw [not_lt, Nat.le_div_iff_mul_le hbase, Nat.le_sub_iff_add_le hd]

/-- Further digits never make a number smaller. -/
theorem le_value (hbase : 0 < base) (digits : List ℕ) (acc : ℕ) : acc ≤ value base digits acc := by
  induction digits generalizing acc with
  | nil => exact le_rfl
  | cons d digits ih =>
    calc acc ≤ acc * base := Nat.le_mul_of_pos_right acc hbase
      _ ≤ acc * base + d := Nat.le_add_right _ _
      _ ≤ value base digits (acc * base + d) := ih _

/-- The loop returns what the digits denote when that fits, and nothing otherwise. -/
theorem accumulate_eq_some_iff (hbase : 0 < base) (hdigits : ∀ d ∈ digits, d ≤ max)
    (hacc : acc ≤ max) :
    accumulate base max digits acc = some n ↔ value base digits acc = n ∧ n ≤ max := by
  induction digits generalizing acc with
  | nil =>
    constructor
    · intro h
      obtain rfl : acc = n := Option.some.inj h
      exact ⟨rfl, hacc⟩
    · rintro ⟨rfl, -⟩
      rfl
  | cons d digits ih =>
    obtain ⟨hd, hdigits⟩ := List.forall_mem_cons.mp hdigits
    have hguard : ¬(max - d) / base < acc ↔ acc * base + d ≤ max := guard_iff hbase hd
    rw [accumulate]
    by_cases hfits : acc * base + d ≤ max
    · rw [if_neg (hguard.mpr hfits), ih hdigits hfits]
      rfl
    · rw [if_pos (not_not.mp (mt hguard.mp hfits))]
      refine iff_of_false (by simp) ?_
      -- a number that is too large stays so
      rintro ⟨rfl, hle⟩
      exact hfits ((le_value hbase digits _).trans hle)

/-! ## Decimal digits as characters -/

/-- A digit is worth at most nine. -/
theorem digit_le {c : Char} (h : c.isDigit = true) : c.toNat - '0'.toNat ≤ 9 := by
  simp only [Char.isDigit, Bool.and_eq_true, decide_eq_true_eq] at h
  have hnine : c.toNat ≤ '9'.toNat := h.2
  have hten : '9'.toNat = '0'.toNat + 9 := rfl
  omega

/-- What decimal digits denote. -/
theorem value_digits (text : List Char) (acc : ℕ) :
    value 10 (text.map fun c => c.toNat - '0'.toNat) acc = Nat.ofDigitChars 10 text acc := by
  rw [value, List.foldl_map, Nat.ofDigitChars_eq_foldl]
  simp only [Nat.mul_comm]

/-- Further digits never make a number smaller. -/
theorem le_ofDigitChars (text : List Char) (acc : ℕ) : acc ≤ Nat.ofDigitChars 10 text acc := by
  rw [← value_digits]
  exact le_value (by decide) _ _

end BoundedNumeral

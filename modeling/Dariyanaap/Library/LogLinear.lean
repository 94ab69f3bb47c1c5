import Mathlib.Data.Nat.Log
import Mathlib.Tactic.Ring
import Mathlib.Tactic.Linarith

/-!
# Log-linear layouts

A log-linear layout with `2 ^ b` sub-buckets gives every value below `2 ^ b` a slot of its
own and cuts each octave `[2 ^ k, 2 ^ (k + 1))` above it into `2 ^ b` slots of equal width.

Writing `e = octave b v` for the number of low bits a value loses, the slot of `v` is
`e * 2 ^ b + v / 2 ^ e`, one formula for the exact region and every octave. The layout is
monotone (`index_mono`), each slot is the interval `[low, high]` (`low_index_le`,
`le_high_index`) whose width is below `2 ^ (-b)` of any value in it (`width_lt`), and
later slots lie entirely above earlier ones (`high_lt_of_index_lt`, `high_lt_low`) with nothing in
between (`high_add_one`).
-/

namespace LogLinear

variable {b v w i : ℕ}

/-- The number of low bits of `v` its slot does not distinguish: `0` in the exact region. -/
def octave (b v : ℕ) : ℕ := Nat.log 2 v - b

/-- The slot that holds the value `v`. -/
def index (b v : ℕ) : ℕ := octave b v * 2 ^ b + v / 2 ^ octave b v

/-- The lowest value of slot `i`. -/
def low (b i : ℕ) : ℕ :=
  if i < 2 ^ b then i else (i % 2 ^ b + 2 ^ b) * 2 ^ (i / 2 ^ b - 1)

/-- The highest value of slot `i`. -/
def high (b i : ℕ) : ℕ :=
  if i < 2 ^ b then i else (i % 2 ^ b + 2 ^ b + 1) * 2 ^ (i / 2 ^ b - 1) - 1

theorem octave_of_lt (h : v < 2 ^ b) : octave b v = 0 :=
  Nat.sub_eq_zero_of_le (Nat.lt_succ_iff.mp (Nat.log_lt_of_lt_pow' (by omega)
    (lt_of_lt_of_le h (Nat.pow_le_pow_right two_pos b.le_succ))))

/-- The exact region is stored as it is. -/
theorem index_of_lt (h : v < 2 ^ b) : index b v = v := by
  simp [index, octave_of_lt h]

theorem octave_mono (h : v ≤ w) : octave b v ≤ octave b w :=
  Nat.sub_le_sub_right (Nat.log_mono_right h) b

/-- Above the exact region, the retained bits of a value form a number of `b + 1` bits. -/
theorem mantissa_bounds (h : 2 ^ b ≤ v) :
    2 ^ b ≤ v / 2 ^ octave b v ∧ v / 2 ^ octave b v < 2 * 2 ^ b := by
  have hv : v ≠ 0 := by have := Nat.two_pow_pos b; omega
  have hb : b ≤ Nat.log 2 v := Nat.le_log_of_pow_le one_lt_two h
  have hlo : 2 ^ Nat.log 2 v ≤ v := Nat.pow_log_le_self 2 hv
  have hhi : v < 2 ^ (Nat.log 2 v + 1) := Nat.lt_pow_succ_log_self one_lt_two v
  -- the weight of the leading bit, split into the kept bits and the lost ones
  have hsplit : 2 ^ Nat.log 2 v = 2 ^ b * 2 ^ octave b v := by
    rw [octave, ← pow_add, Nat.add_sub_cancel' hb]
  rw [pow_succ, hsplit] at hhi
  rw [hsplit] at hlo
  constructor
  · exact (Nat.le_div_iff_mul_le (Nat.two_pow_pos _)).mpr hlo
  · rw [Nat.div_lt_iff_lt_mul (Nat.two_pow_pos _)]
    linarith

/-- The retained bits never exceed `b + 1` bits. -/
theorem mantissa_lt (b v : ℕ) : v / 2 ^ octave b v < 2 * 2 ^ b := by
  rcases lt_or_ge v (2 ^ b) with h | h
  · rw [octave_of_lt h]
    have := Nat.two_pow_pos b
    simp only [pow_zero, Nat.div_one]
    omega
  · exact (mantissa_bounds h).2

/-- A larger value never has a smaller slot. -/
theorem index_mono (h : v ≤ w) : index b v ≤ index b w := by
  rcases (octave_mono (b := b) h).eq_or_lt with heq | hlt
  · rw [index, index, heq]
    exact Nat.add_le_add_left (Nat.div_le_div_right h) _
  · -- `w` lies in a later octave, which starts past the last slot of the octave of `v`
    have hw : 2 ^ b ≤ w := by
      by_contra hw
      rw [octave_of_lt (not_le.mp hw)] at hlt
      omega
    calc index b v
        ≤ octave b v * 2 ^ b + 2 * 2 ^ b := Nat.add_le_add_left (mantissa_lt b v).le _
      _ = (octave b v + 1) * 2 ^ b + 2 ^ b := by ring
      _ ≤ octave b w * 2 ^ b + 2 ^ b := by gcongr; exact hlt
      _ ≤ index b w := Nat.add_le_add_left (mantissa_bounds hw).1 _

/-- Outside the exact region a slot number splits into its octave and its mantissa. -/
theorem index_div_mod (h : 2 ^ b ≤ v) :
    2 ^ b ≤ index b v ∧ index b v / 2 ^ b - 1 = octave b v ∧
      index b v % 2 ^ b + 2 ^ b = v / 2 ^ octave b v := by
  obtain ⟨hlo, hhi⟩ := mantissa_bounds h
  have hb := Nat.two_pow_pos b
  -- the kept bits are a leading one and the mantissa `m`
  obtain ⟨m, hm⟩ : ∃ m, v / 2 ^ octave b v = 2 ^ b + m := Nat.exists_eq_add_of_le hlo
  have hmlt : m < 2 ^ b := by omega
  have hidx : index b v = m + 2 ^ b * (octave b v + 1) := by rw [index, hm]; ring
  refine ⟨?_, ?_, ?_⟩
  · rw [index]; omega
  · rw [hidx, Nat.add_mul_div_left _ _ hb, Nat.div_eq_of_lt hmlt]; omega
  · rw [hidx, Nat.add_mul_mod_self_left, Nat.mod_eq_of_lt hmlt, hm, Nat.add_comm]

/-- The low edge of the slot of `v`: `v` with its low bits cleared. -/
theorem low_index (h : 2 ^ b ≤ v) :
    low b (index b v) = v / 2 ^ octave b v * 2 ^ octave b v := by
  obtain ⟨hge, hdiv, hmod⟩ := index_div_mod h
  rw [low, if_neg (by omega), hdiv, hmod]

/-- The high edge of the slot of `v`: `v` with its low bits set. -/
theorem high_index (h : 2 ^ b ≤ v) :
    high b (index b v) = (v / 2 ^ octave b v + 1) * 2 ^ octave b v - 1 := by
  obtain ⟨hge, hdiv, hmod⟩ := index_div_mod h
  rw [high, if_neg (by omega), hdiv, hmod]

/-- A value is not below the low edge of its slot. -/
theorem low_index_le (b v : ℕ) : low b (index b v) ≤ v := by
  rcases lt_or_ge v (2 ^ b) with h | h
  · rw [index_of_lt h, low, if_pos h]
  · rw [low_index h]
    exact Nat.div_mul_le_self _ _

/-- A value is not above the high edge of its slot. -/
theorem le_high_index (b v : ℕ) : v ≤ high b (index b v) := by
  rcases lt_or_ge v (2 ^ b) with h | h
  · rw [index_of_lt h, high, if_pos h]
  · rw [high_index h]
    have := Nat.lt_mul_div_succ v (Nat.two_pow_pos (octave b v))
    rw [Nat.mul_comm] at this
    omega

/-- In the exact region the high edge of a slot is the value itself. -/
theorem high_index_of_lt (h : v < 2 ^ b) : high b (index b v) = v := by
  rw [index_of_lt h, high, if_pos h]

/-- Above the exact region the high edge exceeds a value of its slot by less than
`2 ^ (-b)` of that value. -/
theorem width_lt (h : 2 ^ b ≤ v) : 2 ^ b * (high b (index b v) - v) < v := by
  obtain ⟨hlo, -⟩ := mantissa_bounds h
  have hpow := Nat.two_pow_pos (octave b v)
  have hfloor := Nat.div_mul_le_self v (2 ^ octave b v)
  -- a slot is as wide as the lost bits
  have hgap : high b (index b v) - v < 2 ^ octave b v := by
    rw [high_index h, Nat.succ_mul]
    omega
  calc 2 ^ b * (high b (index b v) - v)
      < 2 ^ b * 2 ^ octave b v := Nat.mul_lt_mul_of_pos_left hgap (Nat.two_pow_pos b)
    _ ≤ v / 2 ^ octave b v * 2 ^ octave b v := Nat.mul_le_mul_right _ hlo
    _ ≤ v := hfloor

/-- A value of a later slot lies above the high edge. -/
theorem high_lt_of_index_lt (h : index b v < index b w) : high b (index b v) < w := by
  by_contra hw
  rw [not_lt] at hw
  have hvw : v < w := by
    by_contra hle
    exact absurd (index_mono (b := b) (not_lt.mp hle)) (by omega)
  rcases lt_or_ge v (2 ^ b) with hv | hv
  · rw [high_index_of_lt hv] at hw
    omega
  · -- `w` agrees with `v` on the retained bits, hence shares its octave and its slot
    obtain ⟨-, hhi⟩ := mantissa_bounds hv
    have hpow := Nat.two_pow_pos (octave b v)
    rw [high_index hv] at hw
    have hwlt : w < (v / 2 ^ octave b v + 1) * 2 ^ octave b v := by
      have := Nat.mul_le_mul_right (2 ^ octave b v) (Nat.le_add_left 1 (v / 2 ^ octave b v))
      omega
    -- `w` is not past the edge, so its kept bits are not past those of `v`
    have hquot : w / 2 ^ octave b v ≤ v / 2 ^ octave b v :=
      Nat.lt_succ_iff.mp ((Nat.div_lt_iff_lt_mul hpow).mpr hwlt)
    have hlog : Nat.log 2 w < b + octave b v + 1 := by
      refine Nat.log_lt_of_lt_pow (by omega) (lt_of_lt_of_le hwlt ?_)
      calc (v / 2 ^ octave b v + 1) * 2 ^ octave b v
          ≤ 2 * 2 ^ b * 2 ^ octave b v := Nat.mul_le_mul_right _ hhi
        _ = 2 ^ (b + octave b v + 1) := by ring
    have hoct : octave b w = octave b v :=
      le_antisymm (by unfold octave at *; omega) (octave_mono hvw.le)
    have hle : index b w ≤ index b v := by
      rw [index, index, hoct]
      exact Nat.add_le_add_left hquot _
    omega

/-- Every slot is the slot of its low edge. -/
theorem index_low (b i : ℕ) : index b (low b i) = i := by
  rcases lt_or_ge i (2 ^ b) with h | h
  · rw [low, if_pos h, index_of_lt h]
  · have hb := Nat.two_pow_pos b
    have hmod := Nat.mod_lt i hb
    rw [low, if_neg (by omega)]
    -- the low edge is a number of `b + 1` bits, shifted by the octave of the slot
    have hlog : ∀ e, Nat.log 2 ((i % 2 ^ b + 2 ^ b) * 2 ^ e) = b + e := by
      intro e
      refine (Nat.log_eq_iff (.inr ⟨one_lt_two, by positivity⟩)).mpr ⟨?_, ?_⟩
      · rw [pow_add]
        gcongr
        omega
      · rw [add_right_comm, pow_add, pow_succ]
        gcongr
        omega
    have hoctave : octave b ((i % 2 ^ b + 2 ^ b) * 2 ^ (i / 2 ^ b - 1)) = i / 2 ^ b - 1 := by
      rw [octave, hlog, Nat.add_sub_cancel_left]
    have hdiv : 1 ≤ i / 2 ^ b := (Nat.le_div_iff_mul_le hb).mpr (by omega)
    rw [index, hoctave, Nat.mul_div_cancel _ (Nat.two_pow_pos _)]
    calc (i / 2 ^ b - 1) * 2 ^ b + (i % 2 ^ b + 2 ^ b)
        = (i / 2 ^ b - 1 + 1) * 2 ^ b + i % 2 ^ b := by ring
      _ = i := by rw [Nat.sub_add_cancel hdiv, Nat.mul_comm, Nat.div_add_mod]

/-- A slot is an interval. -/
theorem low_le_high (b i : ℕ) : low b i ≤ high b i := by
  have h := le_high_index b (low b i)
  rwa [index_low] at h

/-- The intervals of two slots are disjoint, and in the order of the slots. -/
theorem high_lt_low {j : ℕ} (h : i < j) : high b i < low b j := by
  have hlt : index b (low b i) < index b (low b j) := by
    rwa [index_low, index_low]
  have := high_lt_of_index_lt hlt
  rwa [index_low] at this

/-- Every slot is the slot of its high edge, too. -/
theorem index_high (b i : ℕ) : index b (high b i) = i := by
  have hle : i ≤ index b (high b i) := by
    have h := index_mono (b := b) (low_le_high b i)
    rwa [index_low] at h
  by_contra hne
  -- the high edge would lie in a later slot, all of which is above it
  have hlt : high b i < low b (index b (high b i)) := high_lt_low (lt_of_le_of_ne hle (Ne.symm hne))
  exact absurd (low_index_le b (high b i)) (not_le.mpr hlt)

/-- Low edges are ordered like their slots. -/
theorem low_mono {j : ℕ} (h : i ≤ j) : low b i ≤ low b j := by
  rcases h.eq_or_lt with rfl | hlt
  · exact le_rfl
  · exact (low_le_high b i).trans (high_lt_low hlt).le

/-- High edges are ordered like their slots. -/
theorem high_mono {j : ℕ} (h : i ≤ j) : high b i ≤ high b j := by
  rcases h.eq_or_lt with rfl | hlt
  · exact le_rfl
  · exact (high_lt_low hlt).le.trans (low_le_high b j)

/-- Between two slots no value is left out. -/
theorem high_add_one (b i : ℕ) : high b i + 1 = low b (i + 1) := by
  refine le_antisymm (high_lt_low (Nat.lt_succ_self i)) ?_
  -- the value after the high edge lies in no slot up to `i`, so in a later one
  have hlater : i < index b (high b i + 1) := by
    by_contra hle
    have hvalue := le_high_index b (high b i + 1)
    have hedge : high b (index b (high b i + 1)) ≤ high b i := high_mono (not_lt.mp hle)
    omega
  exact (low_mono hlater).trans (low_index_le b _)

/-- High edges are ordered like the values of their slots. -/
theorem high_index_mono (h : v ≤ w) : high b (index b v) ≤ high b (index b w) :=
  high_mono (index_mono h)

end LogLinear

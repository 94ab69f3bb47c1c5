import Mathlib.Data.List.Sort
import Mathlib.Data.List.TakeDrop
import Mathlib.Algebra.BigOperators.Group.List.Basic
import Mathlib.Algebra.GroupWithZero.Nat

/-!
# Order statistics and bucketed ranks

The `r`-th smallest element of a list, characterised by how many elements lie below it
(`nthSmallest_spec`), and the walk that finds it again after every element has been replaced
by a counter of its bucket.

`bucketed_rank` is the reason a histogram can answer a rank at all: when the bucket map is
monotone on the values it covers, and the covered values form a lower set, the first bucket
at which the running total reaches `r` is the bucket of the `r`-th smallest element, and no
bucket reaches it exactly when that element is not covered.
-/

namespace OrderStatistic

section Rank

variable {α : Type*} [LinearOrder α] {xs ys : List α} {r : ℕ} {x : α}

/-- The `r`-th smallest element of a list, counting from one. -/
def nthSmallest (xs : List α) (r : ℕ) : Option α :=
  (xs.insertionSort (· ≤ ·))[r - 1]?

/-- Every rank from one to the number of elements names an element. -/
theorem exists_nthSmallest (hr : 1 ≤ r) (hle : r ≤ xs.length) : ∃ x, nthSmallest xs r = some x := by
  have hlt : r - 1 < (xs.insertionSort (· ≤ ·)).length := by
    rw [List.length_insertionSort]; omega
  exact ⟨_, List.getElem?_eq_getElem hlt⟩

/-- The `r`-th smallest element occurs in the list, has fewer than `r` elements strictly
below it and at least `r` elements not above it. -/
theorem nthSmallest_spec (hr : 1 ≤ r) (h : nthSmallest xs r = some x) :
    x ∈ xs ∧ xs.countP (· < x) < r ∧ r ≤ xs.countP (· ≤ x) := by
  have hperm := List.perm_insertionSort (· ≤ ·) xs
  have hsorted := List.pairwise_insertionSort (· ≤ ·) xs
  unfold nthSmallest at h
  generalize xs.insertionSort (· ≤ ·) = s at h hperm hsorted
  obtain ⟨hk, hx⟩ := List.getElem?_eq_some_iff.mp h
  -- cut the sorted list at the element the rank names
  have hsplit : s = s.take (r - 1) ++ x :: s.drop (r - 1 + 1) := by
    rw [← hx, ← List.drop_eq_getElem_cons hk, List.take_append_drop]
  have hlen : (s.take (r - 1)).length = r - 1 := by
    rw [List.length_take]; omega
  rw [hsplit, List.pairwise_append] at hsorted
  obtain ⟨-, htail, hcross⟩ := hsorted
  rw [List.pairwise_cons] at htail
  refine ⟨hperm.mem_iff.mp (hx ▸ List.getElem_mem hk), ?_, ?_⟩
  · rw [← hperm.countP_eq, hsplit, List.countP_append, List.countP_cons_of_neg (by simp)]
    have hhead : (s.take (r - 1)).countP (· < x) ≤ r - 1 :=
      List.countP_le_length.trans hlen.le
    have hrest : (s.drop (r - 1 + 1)).countP (· < x) = 0 :=
      List.countP_eq_zero.mpr fun a ha => by simpa using htail.1 a ha
    omega
  · rw [← hperm.countP_eq, hsplit, List.countP_append, List.countP_cons_of_pos (by simp)]
    have hhead : (s.take (r - 1)).countP (· ≤ x) = r - 1 :=
      (List.countP_eq_length.mpr fun a ha => by simpa using hcross a ha x (by simp)).trans hlen
    omega

/-- Every element of the list is the element of some rank. -/
theorem exists_rank_of_mem (h : x ∈ xs) :
    ∃ r, 1 ≤ r ∧ r ≤ xs.length ∧ nthSmallest xs r = some x := by
  obtain ⟨k, hk, hx⟩ := List.mem_iff_getElem.mp ((List.mem_insertionSort (· ≤ ·)).mpr h)
  have hlen := List.length_insertionSort (· ≤ ·) xs
  exact ⟨k + 1, by omega, by omega, List.getElem?_eq_some_iff.mpr ⟨hk, hx⟩⟩

/-- A higher rank never names a smaller element. -/
theorem nthSmallest_mono {s : ℕ} {y : α} (hr : 1 ≤ r) (hrs : r ≤ s)
    (hx : nthSmallest xs r = some x) (hy : nthSmallest xs s = some y) : x ≤ y := by
  obtain ⟨-, hxlt, -⟩ := nthSmallest_spec hr hx
  obtain ⟨-, -, hyle⟩ := nthSmallest_spec (hr.trans hrs) hy
  by_contra h
  have hcross : xs.countP (· ≤ y) ≤ xs.countP (· < x) :=
    List.countP_mono_left fun v _ hv => by
      simpa using lt_of_le_of_lt (by simpa using hv) (not_le.mp h)
  omega

/-- Elements that satisfy `q` stand in for elements that satisfy `p`. -/
theorem countP_le_of_forall₂ {β γ : Type*} {R : β → γ → Prop} {bs : List β} {cs : List γ}
    {p : β → Bool} {q : γ → Bool} (h : List.Forall₂ R bs cs)
    (hR : ∀ b c, R b c → q c = true → p b = true) : cs.countP q ≤ bs.countP p := by
  induction h with
  | nil => exact le_rfl
  | @cons b c bs cs hbc hrest ih =>
    rw [List.countP_cons, List.countP_cons]
    by_cases hq : q c = true
    · rw [if_pos hq, if_pos (hR b c hbc hq)]
      exact Nat.succ_le_succ ih
    · rw [if_neg hq]
      exact ih.trans (Nat.le_add_right _ _)

/-- Replacing every element by a larger one makes no order statistic smaller. -/
theorem nthSmallest_le_of_forall₂ {y : α} (h : List.Forall₂ (· ≤ ·) xs ys) (hr : 1 ≤ r)
    (hx : nthSmallest xs r = some x) (hy : nthSmallest ys r = some y) : x ≤ y := by
  obtain ⟨-, hxlt, -⟩ := nthSmallest_spec hr hx
  obtain ⟨-, -, hyle⟩ := nthSmallest_spec hr hy
  by_contra hlt
  -- what is not above `y` among the larger is below `x` among the smaller
  have hcross : ys.countP (· ≤ y) ≤ xs.countP (· < x) :=
    countP_le_of_forall₂ h fun a b hab hb => by
      simpa using (hab.trans (by simpa using hb)).trans_lt (not_le.mp hlt)
  omega

end Rank

section Walk

/-- Walk a list of counters from bucket `i` with `running` already counted, and return the
first bucket at which the running total reaches `target`. -/
def firstReaching (target : ℕ) : List ℕ → (i running : ℕ) → Option ℕ
  | [], _, _ => none
  | c :: cs, i, running =>
      if target ≤ running + c then some i else firstReaching target cs (i + 1) (running + c)

variable {target : ℕ} {cs : List ℕ} {i running k : ℕ}

/-- The walk stops at the bucket that takes the running total to the target. -/
theorem firstReaching_eq_some (hk : k < cs.length)
    (hlo : running + (cs.take k).sum < target)
    (hhi : target ≤ running + (cs.take (k + 1)).sum) :
    firstReaching target cs i running = some (i + k) := by
  induction cs generalizing i running k with
  | nil => simp at hk
  | cons c cs ih =>
    cases k with
    | zero =>
      rw [firstReaching, if_pos (by simpa using hhi), Nat.add_zero]
    | succ k =>
      simp only [List.take_succ_cons, List.sum_cons, List.length_cons] at hk hlo hhi
      rw [firstReaching, if_neg (by omega), ih (k := k) (by omega) (by omega) (by omega)]
      congr 1
      omega

/-- The walk falls off the end when the counters never add up to the target. -/
theorem firstReaching_eq_none (h : running + cs.sum < target) :
    firstReaching target cs i running = none := by
  induction cs generalizing i running with
  | nil => rfl
  | cons c cs ih =>
    rw [List.sum_cons] at h
    rw [firstReaching, if_neg (by omega), ih (by omega)]

/-- And only then. -/
theorem lt_of_firstReaching_eq_none (h : firstReaching target cs i running = none)
    (hrunning : running < target) : running + cs.sum < target := by
  induction cs generalizing i running with
  | nil => simpa using hrunning
  | cons c cs ih =>
    rw [firstReaching] at h
    split at h
    · cases h
    · next hreached =>
      have hrest := ih h (not_le.mp hreached)
      rw [List.sum_cons]
      omega

end Walk

section Buckets

variable {α : Type*} (covered : α → Bool) (bucket : α → ℕ) (xs : List α)

/-- One counter per bucket below `n`, each counting the covered elements of its bucket. -/
def counters (n : ℕ) : List ℕ :=
  (List.range n).map fun i => xs.countP fun v => covered v && bucket v == i

@[simp]
theorem length_counters (n : ℕ) : (counters covered bucket xs n).length = n := by
  simp [counters]

/-- Raising the bucket bound by one adds the elements of one bucket. -/
theorem countP_bucket_succ (k : ℕ) :
    (xs.countP fun v => covered v && decide (bucket v < k + 1)) =
      (xs.countP fun v => covered v && decide (bucket v < k)) +
        xs.countP fun v => covered v && bucket v == k := by
  induction xs with
  | nil => rfl
  | cons v xs ih =>
    simp only [List.countP_cons, ih]
    -- only the last bucket is new
    have hsplit : (bucket v < k + 1) ↔ (bucket v < k ∨ bucket v = k) := by omega
    by_cases hlt : bucket v < k
    · cases covered v
      · simp
      · simp [hsplit, hlt, hlt.ne]
        omega
    · cases covered v
      · simp
      · simp [hsplit, hlt]
        omega

/-- The first `k` counters together count the covered elements of the first `k` buckets. -/
theorem sum_take_counters {n k : ℕ} (hk : k ≤ n) :
    ((counters covered bucket xs n).take k).sum =
      xs.countP fun v => covered v && decide (bucket v < k) := by
  rw [counters, ← List.map_take, List.take_range, Nat.min_eq_left hk]
  clear hk
  induction k with
  | zero => simp
  | succ k ih =>
    rw [List.range_succ, List.map_append, List.sum_append, ih, countP_bucket_succ]
    simp

end Buckets

section BucketedRank

variable {α : Type*} [LinearOrder α] {covered : α → Bool} {bucket : α → ℕ} {xs : List α}
  {n r : ℕ} {x : α}

/-- With a monotone bucket map on a covered lower set, walking the counters to rank `r` ends
in the bucket of the `r`-th smallest element, or past the last bucket if that element is not
covered. -/
theorem bucketed_rank (hlower : ∀ v w, v ≤ w → covered w → covered v)
    (hmono : ∀ v w, v ≤ w → covered w → bucket v ≤ bucket w)
    (hbound : ∀ v, covered v → bucket v < n)
    (hr : 1 ≤ r) (hx : nthSmallest xs r = some x) :
    firstReaching r (counters covered bucket xs n) 0 0 =
      if covered x then some (bucket x) else none := by
  obtain ⟨-, hlt, hle⟩ := nthSmallest_spec hr hx
  by_cases hc : covered x
  · rw [if_pos hc]
    have hb := hbound x hc
    -- what lies in an earlier bucket is strictly smaller than `x`
    have hlo : ((counters covered bucket xs n).take (bucket x)).sum < r := by
      rw [sum_take_counters _ _ _ hb.le]
      refine lt_of_le_of_lt (List.countP_mono_left fun v _ hv => ?_) hlt
      simp only [Bool.and_eq_true, decide_eq_true_eq] at hv ⊢
      exact lt_of_not_ge fun hxv => absurd (hmono x v hxv hv.1) (by omega)
    -- what is not above `x` is covered, and in its bucket or an earlier one
    have hhi : r ≤ ((counters covered bucket xs n).take (bucket x + 1)).sum := by
      rw [sum_take_counters _ _ _ hb]
      refine le_trans hle (List.countP_mono_left fun v _ hv => ?_)
      simp only [Bool.and_eq_true, decide_eq_true_eq] at hv ⊢
      exact ⟨hlower v x hv hc, Nat.lt_succ_of_le (hmono v x hv hc)⟩
    rw [firstReaching_eq_some (k := bucket x) (by simpa using hb) (by omega) (by omega),
      Nat.zero_add]
  · rw [if_neg hc]
    -- everything covered is strictly smaller than `x`, so the total stays below the rank
    apply firstReaching_eq_none
    rw [Nat.zero_add, ← List.take_of_length_le (length_counters covered bucket xs n).le,
      sum_take_counters _ _ _ le_rfl]
    refine lt_of_le_of_lt (List.countP_mono_left fun v _ hv => ?_) hlt
    simp only [Bool.and_eq_true, decide_eq_true_eq] at hv ⊢
    exact lt_of_not_ge fun hxv => hc (hlower x v hxv hv.1)

end BucketedRank

end OrderStatistic

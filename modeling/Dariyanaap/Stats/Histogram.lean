import Dariyanaap.Core.Units
import Dariyanaap.Library.OrderStatistic
import Dariyanaap.Stats.Buckets

/-!
# The latency histogram

`stats/histogram.hpp` and `stats/histogram.cpp`: `record`, `merge` and `percentile`, and the
abstraction that says what a histogram is for. `Represents h xs` links the four fields to the
multiset of samples `xs`; recording a sample and merging another histogram both preserve it,
so it holds of every histogram assembled from the empty one (`represents_of_records`), however
the samples were split over threads and in whatever order they were recorded and merged.

Counters are natural numbers: a count that reaches `2 ^ 64` is out of scope.
-/

namespace Dariyanaap

open Buckets

/-- The counters of one thread, or of a whole run once merged. -/
structure Histogram where
  /-- One counter per slot of the layout. -/
  slots : Vector ℕ kCount
  /-- Every sample recorded, overflow included. -/
  count : ℕ
  /-- Samples above `kMaxValue`. -/
  overflow : ℕ
  /-- The largest sample, exact; zero before the first. -/
  max : Nanos
  deriving DecidableEq

namespace Histogram

/-- A histogram before its first sample. -/
def empty : Histogram where
  slots := Vector.replicate kCount 0
  count := 0
  overflow := 0
  max := 0

theorem toNat_le_kMaxValue {latency : Nanos} (h : ¬(kMaxValue : ℤ) < latency) :
    latency.toNat ≤ kMaxValue :=
  Int.toNat_le.mpr (not_lt.mp h)

/-- `Histogram::record`. The asserted precondition is a latency that is not negative. -/
def record (h : Histogram) (latency : Nanos) : Histogram :=
  let counted :=
    { h with count := h.count + 1, max := if h.max < latency then latency else h.max }
  if hover : (kMaxValue : ℤ) < latency then
    { counted with overflow := h.overflow + 1 }
  else
    have hslot := indexOf_lt_kCount (toNat_le_kMaxValue hover)
    { counted with
      slots := h.slots.set (indexOf latency.toNat) (h.slots[indexOf latency.toNat] + 1) }

/-- A latency past the layout is counted apart and touches no slot. -/
theorem record_of_lt (h : Histogram) {latency : Nanos} (hover : (kMaxValue : ℤ) < latency) :
    h.record latency =
      { slots := h.slots
        count := h.count + 1
        overflow := h.overflow + 1
        max := if h.max < latency then latency else h.max } := by
  rw [record, dif_pos hover]

/-- Any other latency is counted in its slot. -/
theorem record_of_not_lt (h : Histogram) {latency : Nanos} (hover : ¬(kMaxValue : ℤ) < latency)
    (hslot : indexOf latency.toNat < kCount) :
    h.record latency =
      { slots := h.slots.set (indexOf latency.toNat) (h.slots[indexOf latency.toNat] + 1)
        count := h.count + 1
        overflow := h.overflow
        max := if h.max < latency then latency else h.max } := by
  rw [record, dif_neg hover]

/-- `Histogram::merge`. -/
def merge (h other : Histogram) : Histogram where
  slots := Vector.ofFn fun i => h.slots[i] + other.slots[i]
  count := h.count + other.count
  overflow := h.overflow + other.overflow
  max := Max.max h.max other.max

/-- The merge loop after a join: all workers' histograms, one after the other. -/
def mergeAll (hs : List Histogram) : Histogram := hs.foldl merge empty

/-- The rank `percentile` asks for: `ceil(p / 100.0 * count)` between `1` and `count`. -/
def rank (fl : Rounding) (p : ℚ) (count : ℕ) : ℕ :=
  Max.max 1 (min ⌈fl (fl (p / 100) * fl count)⌉₊ count)

/-- `Histogram::percentile`: the high edge of the slot in which the running total reaches the
rank, and `max` once the rank lies past every slot. -/
def percentile (h : Histogram) (fl : Rounding) (p : ℚ) : Option Nanos :=
  if h.count = 0 then none
  else
    match OrderStatistic.firstReaching (rank fl p h.count) h.slots.toList 0 0 with
    | some i => some (slotHigh i)
    | none => some h.max

/-! ## The samples behind a histogram -/

/-- A sample the layout has a slot for. -/
def covered (v : Nanos) : Bool := decide (v ≤ kMaxValue)

/-- The slot of a covered sample. -/
def slotOf (v : Nanos) : ℕ := indexOf v.toNat

/-- The largest of some samples, zero if there are none. -/
def largest (xs : List Nanos) : Nanos := xs.foldr Max.max 0

/-- `h` holds exactly the samples `xs`: every field is the one fact about them it stands
for. -/
structure Represents (h : Histogram) (xs : List Nanos) : Prop where
  /-- Each slot counts the samples of its value range. -/
  slot : ∀ (i : ℕ) (hi : i < kCount), h.slots[i] = xs.countP fun v => covered v && slotOf v == i
  /-- Samples the layout cannot hold. -/
  overflow : h.overflow = xs.countP fun v => decide ((kMaxValue : ℤ) < v)
  /-- All samples. -/
  count : h.count = xs.length
  /-- The largest sample. -/
  max : h.max = largest xs

/-- The histograms that `record` and `merge` assemble, with the samples each was given. -/
inductive Records : List Nanos → Histogram → Prop
  | empty : Records [] empty
  | record {xs : List Nanos} {h : Histogram} {v : Nanos} :
      Records xs h → 0 ≤ v → Records (xs ++ [v]) (h.record v)
  | merge {xs ys : List Nanos} {h g : Histogram} :
      Records xs h → Records ys g → Records (xs ++ ys) (h.merge g)

/-- Record a list of samples on one thread, in order. -/
def recordAll (xs : List Nanos) : Histogram := xs.foldl record empty

theorem largest_nonneg (xs : List Nanos) : 0 ≤ largest xs := by
  induction xs with
  | nil => exact le_rfl
  | cons v xs ih => exact le_max_of_le_right ih

@[simp]
theorem largest_append (xs ys : List Nanos) :
    largest (xs ++ ys) = Max.max (largest xs) (largest ys) := by
  induction xs with
  | nil => exact (max_eq_right (largest_nonneg ys)).symm
  | cons v xs ih =>
    change Max.max v (largest (xs ++ ys)) = _
    rw [ih, ← max_assoc]
    rfl

theorem le_largest {xs : List Nanos} {v : Nanos} (h : v ∈ xs) : v ≤ largest xs := by
  induction xs with
  | nil => cases h
  | cons w xs ih =>
    rcases List.mem_cons.mp h with rfl | h
    · exact le_max_left _ _
    · exact le_max_of_le_right (ih h)

/-- The largest of some non-negative samples is one of them. -/
theorem largest_mem {xs : List Nanos} (hne : xs ≠ []) (hnn : ∀ v ∈ xs, 0 ≤ v) :
    largest xs ∈ xs := by
  induction xs with
  | nil => exact absurd rfl hne
  | cons w xs ih =>
    change Max.max w (largest xs) ∈ _
    rcases max_choice w (largest xs) with h | h
    · rw [h]; exact List.mem_cons_self
    · rw [h]
      rcases eq_or_ne xs [] with rfl | hxs
      · -- the maximum over no further samples is zero, which `w` then equals
        have hw : w = 0 := by
          have := le_max_left w (largest [])
          rw [h] at this
          exact le_antisymm this (hnn w List.mem_cons_self)
        rw [hw]
        exact List.mem_cons_self
      · exact List.mem_cons_of_mem _ (ih hxs fun v hv => hnn v (List.mem_cons_of_mem _ hv))

theorem largest_perm {xs ys : List Nanos} (h : xs.Perm ys) : largest xs = largest ys :=
  h.foldr_eq 0

namespace Represents

variable {h g : Histogram} {xs ys : List Nanos}

/-- An empty histogram holds no samples. -/
theorem empty : Represents Histogram.empty [] where
  slot i hi := by simp [Histogram.empty]
  overflow := rfl
  count := rfl
  max := rfl

/-- Recording a sample adds exactly that sample. -/
theorem record (hrep : Represents h xs) (v : Nanos) :
    Represents (h.record v) (xs ++ [v]) := by
  have hmax : (if h.max < v then v else h.max) = largest (xs ++ [v]) := by
    -- `max` starts at zero, as `largest` does
    have hzero : 0 ≤ h.max := hrep.max ▸ largest_nonneg xs
    have hone : largest [v] = Max.max v 0 := rfl
    rw [largest_append, hone, ← hrep.max]
    split_ifs with hlt
    · rw [max_eq_left (hzero.trans hlt.le), max_eq_right hlt.le]
    · rw [max_eq_left (max_le (not_lt.mp hlt) hzero)]
  by_cases hover : (kMaxValue : ℤ) < v
  · -- the early return: the slots are left alone
    have hcov : covered v = false := by simpa [covered] using hover
    rw [record_of_lt h hover]
    exact
      { slot := fun i hi => by simp [hrep.slot i hi, hcov]
        overflow := by simp [hrep.overflow, hover]
        count := by simp [hrep.count]
        max := hmax }
  · have hcov : covered v = true := by simpa [covered] using hover
    have hlt : slotOf v < kCount := indexOf_lt_kCount (toNat_le_kMaxValue hover)
    rw [record_of_not_lt h hover hlt]
    exact
      { slot := fun i hi => by
          change (h.slots.set (slotOf v) (h.slots[slotOf v] + 1))[i] = _
          rw [Vector.getElem_set, hrep.slot _ hlt, hrep.slot i hi]
          split_ifs with heq
          · simp [hcov, heq]
          · simp [hcov, heq]
        overflow := by simp [hrep.overflow, hover]
        count := by simp [hrep.count]
        max := hmax }

/-- Merging adds exactly the other histogram's samples. -/
theorem merge (hh : Represents h xs) (hg : Represents g ys) :
    Represents (h.merge g) (xs ++ ys) where
  slot i hi := by simp [Histogram.merge, hh.slot i hi, hg.slot i hi]
  overflow := by simp [Histogram.merge, hh.overflow, hg.overflow]
  count := by simp [Histogram.merge, hh.count, hg.count]
  max := by simp [Histogram.merge, hh.max, hg.max]

/-- Only the multiset of samples matters. -/
theorem of_perm (hrep : Represents h xs) (hperm : xs.Perm ys) : Represents h ys where
  slot i hi := by rw [hrep.slot i hi, hperm.countP_eq]
  overflow := by rw [hrep.overflow, hperm.countP_eq]
  count := by rw [hrep.count, hperm.length_eq]
  max := by rw [hrep.max, largest_perm hperm]

/-- The samples determine every field. -/
theorem unique (hh : Represents h xs) (hg : Represents g xs) : h = g := by
  obtain ⟨hs, hc, ho, hm⟩ := h
  obtain ⟨gs, gc, go, gm⟩ := g
  have hslots : hs = gs := Vector.ext fun i hi => (hh.slot i hi).trans (hg.slot i hi).symm
  rw [hslots, show hc = gc from hh.count.trans hg.count.symm,
    show ho = go from hh.overflow.trans hg.overflow.symm,
    show hm = gm from hh.max.trans hg.max.symm]

/-- The slots are the counters of the log-linear buckets over the samples. -/
theorem slots_toList (hrep : Represents h xs) :
    h.slots.toList = OrderStatistic.counters covered slotOf xs kCount := by
  apply List.ext_getElem
  · simp
  · intro i hi _
    have hk : i < kCount := by simpa using hi
    simpa [OrderStatistic.counters] using hrep.slot i hk

/-- The slots hold every covered sample. -/
theorem sum_slots (hrep : Represents h xs) : h.slots.toList.sum = xs.countP covered := by
  rw [hrep.slots_toList, ← List.take_of_length_le (OrderStatistic.length_counters ..).le,
    OrderStatistic.sum_take_counters _ _ _ le_rfl]
  refine List.countP_congr fun v _ => ?_
  simp only [Bool.and_eq_true, decide_eq_true_eq, and_iff_left_iff_imp]
  intro hcov
  exact indexOf_lt_kCount (toNat_le_kMaxValue (by simpa [covered] using hcov))

/-- The slots and the overflow counter account for every sample. -/
theorem sum_slots_add_overflow (hrep : Represents h xs) :
    h.slots.toList.sum + h.overflow = h.count := by
  rw [hrep.sum_slots, hrep.overflow, hrep.count, List.length_eq_countP_add_countP covered]
  congr 1
  refine List.countP_congr fun v _ => ?_
  simp [covered]

/-- Without overflow the slots hold every sample. -/
theorem sum_slots_eq_length (hrep : Represents h xs) (hover : h.overflow = 0) :
    h.slots.toList.sum = xs.length := by
  rw [← hrep.count, ← hrep.sum_slots_add_overflow, hover, Nat.add_zero]

/-- The slots are empty when every sample lies past the layout. -/
theorem sum_slots_eq_zero_iff (hrep : Represents h xs) :
    h.slots.toList.sum = 0 ↔ ∀ v ∈ xs, (kMaxValue : ℤ) < v := by
  rw [hrep.sum_slots, List.countP_eq_zero]
  simp only [covered, decide_eq_true_eq, not_le]

/-- Nothing overflows when every sample lies inside it. -/
theorem overflow_eq_zero_iff (hrep : Represents h xs) :
    h.overflow = 0 ↔ ∀ v ∈ xs, v ≤ kMaxValue := by
  rw [hrep.overflow, List.countP_eq_zero]
  simp only [decide_eq_true_eq, not_lt]

end Represents

/-- Samples are never negative, and a histogram represents the samples it was given. -/
theorem represents_of_records {xs : List Nanos} {h : Histogram} (hrec : Records xs h) :
    (∀ v ∈ xs, 0 ≤ v) ∧ Represents h xs := by
  induction hrec with
  | empty => exact ⟨by simp, .empty⟩
  | record _ hv ih =>
    refine ⟨?_, ih.2.record _⟩
    simpa [or_imp, forall_and] using ⟨ih.1, hv⟩
  | merge _ _ ihh ihg =>
    refine ⟨?_, ihh.2.merge ihg.2⟩
    simpa [or_imp, forall_and] using ⟨ihh.1, ihg.1⟩

/-- Recording a sample counts it, wherever it falls. -/
@[simp]
theorem count_record (h : Histogram) (latency : Nanos) :
    (h.record latency).count = h.count + 1 := by
  by_cases hover : (kMaxValue : ℤ) < latency
  · rw [h.record_of_lt hover]
  · rw [h.record_of_not_lt hover (indexOf_lt_kCount (toNat_le_kMaxValue hover))]

@[simp]
theorem recordAll_append_singleton (xs : List Nanos) (v : Nanos) :
    recordAll (xs ++ [v]) = (recordAll xs).record v := by
  simp [recordAll]

@[simp]
theorem count_recordAll (xs : List Nanos) : (recordAll xs).count = xs.length := by
  induction xs using List.reverseRecOn with
  | nil => rfl
  | append_singleton xs v ih => simp [ih]

theorem mergeAll_append_singleton (hs : List Histogram) (h : Histogram) :
    mergeAll (hs ++ [h]) = (mergeAll hs).merge h := by
  simp [mergeAll]

/-- Recording a list of samples on one thread gives a histogram of those samples. -/
theorem records_recordAll {xs : List Nanos} (hnn : ∀ v ∈ xs, 0 ≤ v) :
    Records xs (recordAll xs) := by
  induction xs using List.reverseRecOn with
  | nil => exact .empty
  | append_singleton xs v ih =>
    rw [recordAll_append_singleton]
    exact .record (ih fun w hw => hnn w (by simp [hw])) (hnn v (by simp))

/-- Merging what several workers recorded gives a histogram of all their samples. -/
theorem records_mergeAll {α : Type*} {workers : List α} {samples : α → List Nanos}
    (hnn : ∀ w ∈ workers, ∀ v ∈ samples w, 0 ≤ v) :
    Records (workers.flatMap samples) (mergeAll (workers.map fun w => recordAll (samples w))) := by
  induction workers using List.reverseRecOn with
  | nil => exact .empty
  | append_singleton workers w ih =>
    rw [List.map_append, List.map_singleton, mergeAll_append_singleton, List.flatMap_append,
      List.flatMap_singleton]
    have hw := records_recordAll (hnn w (by simp))
    exact (ih fun v hv => hnn v (by simp [hv])).merge hw

/-- Merging adds the counts, whatever the samples are. -/
theorem count_mergeAll {α : Type*} (workers : List α) (samples : α → List Nanos) :
    (mergeAll (workers.map fun w => recordAll (samples w))).count =
      (workers.flatMap samples).length := by
  induction workers using List.reverseRecOn with
  | nil => rfl
  | append_singleton workers w ih =>
    rw [List.map_append, List.map_singleton, mergeAll_append_singleton, merge, ih]
    simp

/-- A histogram recorded on one thread holds what it was given. -/
theorem represents_recordAll (xs : List Nanos) : Represents (recordAll xs) xs := by
  induction xs using List.reverseRecOn with
  | nil => exact .empty
  | append_singleton xs v ih =>
    rw [recordAll_append_singleton]
    exact ih.record v

/-- The order of the samples does not matter. -/
theorem recordAll_perm {xs ys : List Nanos} (h : xs.Perm ys) : recordAll xs = recordAll ys :=
  ((represents_recordAll xs).of_perm h).unique (represents_recordAll ys)

/-- Merging two histograms is recording the samples of both. -/
@[simp]
theorem merge_recordAll (xs ys : List Nanos) :
    (recordAll xs).merge (recordAll ys) = recordAll (xs ++ ys) :=
  ((represents_recordAll xs).merge (represents_recordAll ys)).unique (represents_recordAll _)

/-- So is merging any number of them. -/
theorem mergeAll_recordAll {α : Type*} (workers : List α) (samples : α → List Nanos) :
    mergeAll (workers.map fun w => recordAll (samples w)) =
      recordAll (workers.flatMap samples) := by
  induction workers using List.reverseRecOn with
  | nil => rfl
  | append_singleton workers w ih =>
    rw [List.map_append, List.map_singleton, mergeAll_append_singleton, ih, merge_recordAll,
      List.flatMap_append, List.flatMap_singleton]

/-- However a list of latencies is split over threads, recorded and merged, the final
histogram is the one a single thread would have recorded, and each field is exactly the fact
about the latencies it is documented to be. -/
theorem records_faithful {xs ys : List Nanos} {h : Histogram} (hrec : Records xs h)
    (hsplit : xs.Perm ys) :
    (∀ (i : ℕ) (hi : i < kCount), h.slots[i] =
        ys.countP fun v : ℤ => decide (v ≤ kMaxValue) && indexOf v.toNat == i) ∧
      h.overflow = (ys.countP fun v => decide ((kMaxValue : ℤ) < v)) ∧
      h.count = ys.length ∧
      h.slots.toList.sum + h.overflow = h.count ∧
      (ys = [] → h.max = 0) ∧ (∀ v ∈ ys, v ≤ h.max) ∧ (ys ≠ [] → h.max ∈ ys) ∧
      h = recordAll ys := by
  obtain ⟨hnn, hxs⟩ := represents_of_records hrec
  have hys : Represents h ys := hxs.of_perm hsplit
  have hnn' : ∀ v ∈ ys, 0 ≤ v := fun v hv => hnn v (hsplit.mem_iff.mpr hv)
  refine ⟨hys.slot, hys.overflow, hys.count, hys.sum_slots_add_overflow, ?_, ?_, ?_, ?_⟩
  · rintro rfl
    exact hys.max
  · intro v hv
    rw [hys.max]
    exact le_largest hv
  · intro hne
    rw [hys.max]
    exact largest_mem hne hnn'
  · exact hys.unique (represents_of_records (records_recordAll hnn')).2

/-- Two threads, one sample past the layout, merged and compared with one thread. -/
theorem records_faithful_two_threads :
    ((recordAll [5, 61_000_000_000]).merge (recordAll [3])).overflow = 1 ∧
      (recordAll [5, 61_000_000_000]).merge (recordAll [3]) =
        recordAll [3, 5, 61_000_000_000] := by
  have hsplit : ([5, 61_000_000_000] ++ [3] : List Nanos).Perm [3, 5, 61_000_000_000] := by decide
  obtain ⟨-, hover, -, -, -, -, -, heq⟩ := records_faithful
    (.merge (records_recordAll (by decide)) (records_recordAll (by decide))) hsplit
  exact ⟨hover.trans (by decide), heq⟩

end Histogram

end Dariyanaap

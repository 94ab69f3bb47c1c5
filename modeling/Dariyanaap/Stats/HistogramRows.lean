import Dariyanaap.Stats.Csv

/-!
# The rows of `histogram.csv` as intervals

Every row carries its own `[low_ns, high_ns]`, so that the file can be read without the layout.
The rows should therefore cut the value axis into disjoint intervals, and each sample should lie
in the interval of the row that counts it and in no other (`Partition`). The rows of the slots
do. The top slot is wider than the range of recordable latencies, though: its `high_ns` lies past
`kMaxValue`, where the row of the overflow begins (`partition_iff`).
-/

namespace Dariyanaap

open Buckets Histogram

namespace Csv

/-- The slot column of the row a sample is counted in. -/
def countedAt (v : Nanos) : ℤ := if covered v then slotOf v else -1

/-- The value lies in the interval of the row. -/
def Row.Holds (row : Row) (v : Nanos) : Prop := row.low ≤ v ∧ v ≤ row.high

/-- The rows are disjoint intervals in increasing order, and say where each sample lies. -/
structure Partition (rows : List Row) (xs : List Nanos) : Prop where
  nonempty : ∀ row ∈ rows, row.low ≤ row.high
  increasing : rows.Pairwise fun a b => a.high < b.low
  /-- A sample lies in the interval of the row that counts it, and of no other row. -/
  counted : ∀ v ∈ xs, ∃ row ∈ rows, row.slot = countedAt v ∧
    row.count = xs.countP (fun w => countedAt w == countedAt v) ∧
    row.Holds v ∧ ∀ other ∈ rows, other.Holds v → other = row

/-- The row of a slot. -/
def slotRow (k count : ℕ) : Row := ⟨k, slotLow k, slotHigh k, count⟩

theorem mem_slotRows {slots : List ℕ} {i : ℕ} {row : Row} :
    row ∈ slotRows slots i ↔
      ∃ k count, slots[k]? = some count ∧ count ≠ 0 ∧ row = slotRow (i + k) count := by
  induction slots generalizing i with
  | nil => simp [slotRows]
  | cons first slots ih =>
    -- a row of the list is the one of its first slot, or one of the others
    have hsplit : row ∈ slotRows (first :: slots) i ↔
        (first ≠ 0 ∧ row = slotRow i first) ∨ row ∈ slotRows slots (i + 1) := by
      rw [slotRows]
      split
      · next hzero => simp [hzero]
      · next hne => simp [hne, slotRow]
    rw [hsplit, ih]
    constructor
    · rintro (⟨hne, rfl⟩ | ⟨k, count, hk, hne, rfl⟩)
      · exact ⟨0, first, rfl, hne, rfl⟩
      · exact ⟨k + 1, count, hk, hne, by rw [Nat.succ_add_eq_add_succ]⟩
    · rintro ⟨_ | k, count, hk, hne, rfl⟩
      · obtain rfl : first = count := Option.some.inj hk
        exact .inl ⟨hne, rfl⟩
      · exact .inr ⟨k, count, hk, hne, by rw [Nat.succ_add_eq_add_succ]⟩

theorem mem_overflowRows {h : Histogram} {row : Row} :
    row ∈ overflowRows h ↔ 0 < h.overflow ∧ row = ⟨-1, kMaxValue + 1, h.max, h.overflow⟩ := by
  rw [overflowRows]
  split
  · next hover => simp [hover]
  · next hover => simp [hover]

/-- The rows of the slots are disjoint, in increasing order. -/
theorem pairwise_slotRows (slots : List ℕ) (i : ℕ) :
    (slotRows slots i).Pairwise fun a b => a.high < b.low := by
  induction slots generalizing i with
  | nil => exact List.Pairwise.nil
  | cons count slots ih =>
    rw [slotRows]
    split
    · exact ih (i + 1)
    · refine List.pairwise_cons.mpr ⟨fun row hrow => ?_, ih (i + 1)⟩
      obtain ⟨k, later, -, -, rfl⟩ := mem_slotRows.mp hrow
      exact Int.ofNat_lt.mpr (slotHigh_lt_slotLow (by omega))

/-- No value lies in two of the disjoint intervals. -/
theorem eq_of_holds {rows : List Row} (h : rows.Pairwise fun a b => a.high < b.low) {a b : Row}
    {v : Nanos} (ha : a ∈ rows) (hb : b ∈ rows) (hav : a.Holds v) (hbv : b.Holds v) : a = b := by
  have hdisjoint : rows.Pairwise fun a b => a.Holds v → b.Holds v → a = b :=
    h.imp fun hlt hav hbv => absurd (hbv.1.trans hav.2) (not_le.mpr hlt)
  have : Std.Symm fun a b : Row => a.Holds v → b.Holds v → a = b :=
    ⟨fun _ _ heq hbv hav => (heq hav hbv).symm⟩
  exact hdisjoint.forall_of_forall (fun _ _ _ _ => rfl) ha hb hav hbv

section Rows

variable {h : Histogram} {xs : List Nanos} {v : Nanos}

theorem countedAt_of_covered (hv : covered v) : countedAt v = slotOf v := if_pos hv

theorem countedAt_of_not_covered (hv : ¬covered v) : countedAt v = -1 := if_neg hv

/-- The row of a slot is written when a sample lies in the slot, with the number of them. -/
theorem slotRow_mem_slotRows (hrep : h.Represents xs) (hv : v ∈ xs) (hcovered : covered v) :
    slotRow (slotOf v) (xs.countP fun w => countedAt w == countedAt v) ∈
      slotRows h.slots.toList 0 := by
  have hlt := slotOf_lt_kCount hcovered
  have hcount : (xs.countP fun w => countedAt w == countedAt v) = h.slots[slotOf v] := by
    rw [hrep.slot (slotOf v) hlt, countedAt_of_covered hcovered]
    refine List.countP_congr fun w _ => ?_
    rw [countedAt]
    split
    · next hw => simp [hw]
    · next hw => simp [hw]
  refine mem_slotRows.mpr ⟨slotOf v, _, ?_, ?_, by rw [Nat.zero_add]⟩
  · rw [hcount, Vector.getElem?_toList, Vector.getElem?_eq_getElem]
  · exact (List.countP_pos_iff.mpr ⟨v, hv, by simp⟩).ne'

/-- The row of the overflow is written when a sample lies past the layout. -/
theorem overflowRow_mem_overflowRows (hrep : h.Represents xs) (hv : v ∈ xs)
    (hcovered : ¬covered v) :
    ⟨-1, kMaxValue + 1, h.max, xs.countP fun w => countedAt w == countedAt v⟩ ∈
      overflowRows h := by
  have hcount : (xs.countP fun w => countedAt w == countedAt v) = h.overflow := by
    rw [hrep.overflow, countedAt_of_not_covered hcovered]
    refine List.countP_congr fun w _ => ?_
    rw [countedAt]
    split
    · next hw => simpa using covered_iff.mp hw
    · next hw => simpa using not_le.mp (mt covered_iff.mpr hw)
  refine mem_overflowRows.mpr ⟨?_, by rw [hcount]⟩
  rw [← hcount]
  exact List.countP_pos_iff.mpr ⟨v, hv, by simp⟩

/-- A row of a slot stands for samples of it. -/
theorem exists_sample_of_slotRow (hrep : h.Represents xs) {k count : ℕ}
    (hk : h.slots.toList[k]? = some count) (hne : count ≠ 0) :
    k < kCount ∧ ∃ v ∈ xs, covered v ∧ slotOf v = k := by
  obtain ⟨hlt, rfl⟩ := List.getElem?_eq_some_iff.mp hk
  rw [Vector.length_toList] at hlt
  rw [Vector.getElem_toList, hrep.slot k hlt] at hne
  obtain ⟨v, hv, hslot⟩ := List.countP_pos_iff.mp (Nat.pos_of_ne_zero hne)
  rw [Bool.and_eq_true, beq_iff_eq] at hslot
  exact ⟨hlt, v, hv, hslot⟩

/-- The overflow counts samples past the layout. -/
theorem exists_sample_of_overflow (hrep : h.Represents xs) (hover : 0 < h.overflow) :
    ∃ v ∈ xs, (kMaxValue : ℤ) < v := by
  rw [hrep.overflow] at hover
  obtain ⟨v, hv, hlt⟩ := List.countP_pos_iff.mp hover
  exact ⟨v, hv, of_decide_eq_true hlt⟩

/-- The rows are in increasing order when the row of the top slot or that of the overflow is
missing. -/
theorem pairwise_histogramRows (hrep : h.Represents xs)
    (htail : (∀ v ∈ xs, v ≤ kMaxValue) ∨ ∀ v ∈ xs, v ≤ kMaxValue → slotOf v ≠ kCount - 1) :
    (histogramRows h).Pairwise fun a b => a.high < b.low := by
  refine List.pairwise_append.mpr ⟨pairwise_slotRows _ 0, ?_, ?_⟩
  · rw [overflowRows]
    split
    · exact List.pairwise_singleton _ _
    · exact List.Pairwise.nil
  · intro row hrow last hlast
    obtain ⟨k, count, hk, hne, rfl⟩ := mem_slotRows.mp hrow
    obtain ⟨hover, rfl⟩ := mem_overflowRows.mp hlast
    obtain ⟨hlt, v, hv, hcovered, rfl⟩ := exists_sample_of_slotRow hrep hk hne
    obtain ⟨w, hw, hwlt⟩ := exists_sample_of_overflow hrep hover
    -- a sample past the layout leaves only the other case: the top slot is empty
    have htop := htail.resolve_left (fun hall => absurd (hall w hw) (not_le.mpr hwlt)) v hv
      (covered_iff.mp hcovered)
    have hhigh := mt (kMaxValue_lt_slotHigh_iff hlt).mp htop
    simp only [slotRow, Nat.zero_add]
    lia

/-- Otherwise the row of the top slot reaches into the row of the overflow. -/
theorem tail_of_pairwise (hrep : h.Represents xs)
    (hincreasing : (histogramRows h).Pairwise fun a b => a.high < b.low) :
    (∀ v ∈ xs, v ≤ kMaxValue) ∨ ∀ v ∈ xs, v ≤ kMaxValue → slotOf v ≠ kCount - 1 := by
  by_contra htail
  push Not at htail
  obtain ⟨⟨w, hw, hwlt⟩, v, hv, hvle, htop⟩ := htail
  have hcovered := covered_iff.mpr hvle
  have hlt := (List.pairwise_append.mp hincreasing).2.2 _
    (slotRow_mem_slotRows hrep hv hcovered) _
    (overflowRow_mem_overflowRows hrep hw (mt covered_iff.mp (not_le.mpr hwlt)))
  have hhigh := (kMaxValue_lt_slotHigh_iff (slotOf_lt_kCount hcovered)).mpr htop
  simp only [slotRow] at hlt
  lia

/-- No row is empty. -/
theorem low_le_high (hrep : h.Represents xs) {row : Row} (hrow : row ∈ histogramRows h) :
    row.low ≤ row.high := by
  rcases List.mem_append.mp hrow with hrow | hrow
  · obtain ⟨k, count, -, -, rfl⟩ := mem_slotRows.mp hrow
    exact Int.ofNat_le.mpr (slotLow_le_slotHigh _)
  · obtain ⟨hover, rfl⟩ := mem_overflowRows.mp hrow
    obtain ⟨v, hv, hlt⟩ := exists_sample_of_overflow hrep hover
    change (kMaxValue : ℤ) + 1 ≤ h.max
    rw [hrep.max]
    exact hlt.trans_le (le_largest hv)

/-- Every sample lies in the interval of the row that counts it. -/
theorem exists_row_holds (hrep : h.Represents xs) (hnn : ∀ v ∈ xs, 0 ≤ v) (hv : v ∈ xs) :
    ∃ row ∈ histogramRows h, row.slot = countedAt v ∧
      row.count = xs.countP (fun w => countedAt w == countedAt v) ∧ row.Holds v := by
  by_cases hcovered : covered v
  · refine ⟨_, List.mem_append_left _ (slotRow_mem_slotRows hrep hv hcovered),
      (countedAt_of_covered hcovered).symm, rfl, ?_⟩
    obtain ⟨k, rfl⟩ := Int.eq_ofNat_of_zero_le (hnn v hv)
    have hk := toNat_le_of_covered hcovered
    exact ⟨Int.ofNat_le.mpr (slotLow_indexOf_le hk), Int.ofNat_le.mpr (le_slotHigh_indexOf hk)⟩
  · refine ⟨_, List.mem_append_right _ (overflowRow_mem_overflowRows hrep hv hcovered),
      (countedAt_of_not_covered hcovered).symm, rfl, ?_⟩
    exact ⟨not_le.mp (mt covered_iff.mpr hcovered), hrep.max ▸ le_largest hv⟩

/-- The rows partition the value axis exactly when no sample lies past the layout, or none in its
top slot. -/
theorem partition_iff (hrec : Records xs h) :
    readHistogram (writeHistogram h) = some (histogramRows h) ∧
      (Partition (histogramRows h) xs ↔
        (∀ v ∈ xs, v ≤ kMaxValue) ∨ ∀ v ∈ xs, v ≤ kMaxValue → slotOf v ≠ kCount - 1) := by
  obtain ⟨hnn, hrep⟩ := represents_of_records hrec
  refine ⟨readHistogram_writeHistogram h, fun hpartition => ?_, fun htail => ?_⟩
  · exact tail_of_pairwise hrep hpartition.increasing
  · have hincreasing := pairwise_histogramRows hrep htail
    refine ⟨fun row hrow => low_le_high hrep hrow, hincreasing, fun v hv => ?_⟩
    obtain ⟨row, hrow, hslot, hcount, hholds⟩ := exists_row_holds hrep hnn hv
    -- rows that hold one sample are the same
    exact ⟨row, hrow, hslot, hcount, hholds, fun other hother hother' =>
      eq_of_holds hincreasing hother hrow hother' hholds⟩

/-- Three samples, one past the layout and none in its top slot. -/
theorem partition_iff_three :
    Partition (histogramRows (.recordAll [5, 61_000_000_000, 300])) [5, 61_000_000_000, 300] := by
  have hnn : ∀ v ∈ [5, 61_000_000_000, (300 : Nanos)], 0 ≤ v := by decide
  exact (partition_iff (records_recordAll hnn)).2.mpr (by decide)

/-- One sample at 60 s and one a nanosecond later: the second lies in both rows. -/
theorem histogramRows_overlap :
    Records [60_000_000_000, 60_000_000_001] (.recordAll [60_000_000_000, 60_000_000_001]) ∧
      histogramRows (.recordAll [60_000_000_000, 60_000_000_001]) =
        [⟨3807, 59_861_106_688, 60_129_542_143, 1⟩, ⟨-1, 60_000_000_001, 60_000_000_001, 1⟩] ∧
      ¬Partition (histogramRows (.recordAll [60_000_000_000, 60_000_000_001]))
        [60_000_000_000, 60_000_000_001] := by
  have hrows : histogramRows (.recordAll [60_000_000_000, 60_000_000_001]) =
      [⟨3807, 59_861_106_688, 60_129_542_143, 1⟩, ⟨-1, 60_000_000_001, 60_000_000_001, 1⟩] := by
    decide +kernel
  refine ⟨records_recordAll (by decide), hrows, fun hpartition => ?_⟩
  have hincreasing := hpartition.increasing
  rw [hrows] at hincreasing
  exact absurd hincreasing (by decide)

end Rows

end Csv

end Dariyanaap

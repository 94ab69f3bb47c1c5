import Dariyanaap.Core.Text
import Dariyanaap.Library.Delimited
import Dariyanaap.Stats.Percentile

/-!
# The files of a run

`write_histogram` and `write_timeseries` (`stats/csv.cpp`), which write tables of numbers, and
what a reader of the files gets back. `histogram.csv` skips the empty slots and adds a row for
the overflow; `histogram_file_faithful` says that it still loses nothing a percentile needs: a
reader that walks the rows finds the value `percentile` reports, for every rank.
-/

namespace Dariyanaap

open Buckets OrderStatistic Delimited

namespace Csv

/-! ## `histogram.csv` -/

/-- One row of `histogram.csv`. -/
structure Row where
  slot : ℤ
  low : ℤ
  high : ℤ
  count : ℕ
  deriving DecidableEq

/-- The header of `histogram.csv`. -/
def histogramColumns : Text := "slot,low_ns,high_ns,count".toList

/-- One row, as the source streams it. -/
def Row.text (row : Row) : Text :=
  signed row.slot ++ ',' :: (signed row.low ++ ',' :: (signed row.high ++ ',' ::
    (decimal row.count ++ ['\n'])))

/-- The loop over the slots, from slot `i`. -/
def writeSlots : List ℕ → (i : ℕ) → Text
  | [], _ => []
  | count :: slots, i =>
      if count = 0 then writeSlots slots (i + 1)
      else Row.text ⟨i, slotLow i, slotHigh i, count⟩ ++ writeSlots slots (i + 1)

/-- `csv::write_histogram`. -/
def writeHistogram (h : Histogram) : Text :=
  histogramColumns ++ '\n' :: (writeSlots h.slots.toList 0 ++
    if 0 < h.overflow then Row.text ⟨-1, kMaxValue + 1, h.max, h.overflow⟩ else [])

/-- The rows of the non-empty slots, from slot `i`. -/
def slotRows : List ℕ → (i : ℕ) → List Row
  | [], _ => []
  | count :: slots, i =>
      if count = 0 then slotRows slots (i + 1)
      else ⟨i, slotLow i, slotHigh i, count⟩ :: slotRows slots (i + 1)

/-- The row of the samples without a slot, if there are any. -/
def overflowRows (h : Histogram) : List Row :=
  if 0 < h.overflow then [⟨-1, kMaxValue + 1, h.max, h.overflow⟩] else []

/-- The rows of a histogram. -/
def histogramRows (h : Histogram) : List Row := slotRows h.slots.toList 0 ++ overflowRows h

/-- The numbers of a row. -/
def Row.fields (row : Row) : List ℤ := [row.slot, row.low, row.high, row.count]

/-- A row of four numbers. -/
def Row.ofFields : List ℤ → Option Row
  | [slot, low, high, count] => if 0 ≤ count then some ⟨slot, low, high, count.toNat⟩ else none
  | _ => none

/-- Read `histogram.csv`. -/
def readHistogram (text : Text) : Option (List Row) :=
  (readTable text).bind fun rows => rows.mapM Row.ofFields

/-- The count the rows give a slot. -/
def countAt (rows : List Row) (slot : ℤ) : ℕ :=
  ((rows.filter fun row => decide (row.slot = slot)).map Row.count).sum

/-- Walk the rows in file order, and report `high_ns` of the first one whose running total
reaches the rank. -/
def walk : List Row → (r total : ℕ) → Option ℤ
  | [], _, _ => none
  | row :: rows, r, total =>
      if r ≤ total + row.count then some row.high else walk rows r (total + row.count)

theorem signed_natCast (n : ℕ) : signed n = decimal n := by
  rw [signed, if_neg (by omega), Int.natAbs_natCast]

theorem Row.text_eq (row : Row) : row.text = line row.fields := by
  simp [text, line, Delimited.row, fields, signed_natCast, List.intercalate_cons_cons]

theorem writeSlots_eq (slots : List ℕ) (i : ℕ) :
    writeSlots slots i = (slotRows slots i).flatMap Row.text := by
  induction slots generalizing i with
  | nil => rfl
  | cons count slots ih =>
    rw [writeSlots, slotRows]
    split
    · exact ih (i + 1)
    · rw [List.flatMap_cons, ih (i + 1)]

/-- The file is the table of its rows. -/
theorem writeHistogram_eq (h : Histogram) :
    writeHistogram h = table histogramColumns ((histogramRows h).map Row.fields) := by
  -- the row of the overflow is written like any other
  have hoverflow : (if 0 < h.overflow then Row.text ⟨-1, kMaxValue + 1, h.max, h.overflow⟩
      else []) = (overflowRows h).flatMap Row.text := by
    rw [overflowRows]
    split <;> simp
  rw [writeHistogram, table, writeSlots_eq, hoverflow, ← List.flatMap_append, List.flatMap_map]
  exact congrArg (fun f => histogramColumns ++ '\n' :: List.flatMap f (histogramRows h))
    (funext Row.text_eq)

/-- A reader of the file gets the rows back. -/
theorem readHistogram_writeHistogram (h : Histogram) :
    readHistogram (writeHistogram h) = some (histogramRows h) := by
  have hfields : ∀ fields ∈ (histogramRows h).map Row.fields, fields ≠ [] := by
    intro fields hfields
    obtain ⟨row, -, rfl⟩ := List.mem_map.mp hfields
    exact List.cons_ne_nil _ _
  rw [readHistogram, writeHistogram_eq, readTable_table (by decide +kernel) hfields,
    Option.bind_some]
  refine mapM_of_forall fun row _ => ?_
  rw [Row.fields, Row.ofFields, if_pos (Int.natCast_nonneg _), Int.toNat_natCast]

section Slots

variable {slots : List ℕ} {i : ℕ}

@[simp]
theorem countAt_append (rows rows' : List Row) (slot : ℤ) :
    countAt (rows ++ rows') slot = countAt rows slot + countAt rows' slot := by
  simp [countAt]

theorem countAt_cons (row : Row) (rows : List Row) (slot : ℤ) :
    countAt (row :: rows) slot =
      (if row.slot = slot then row.count else 0) + countAt rows slot := by
  rw [countAt, List.filter_cons]
  by_cases hslot : row.slot = slot
  · simp [hslot, countAt]
  · simp [hslot, countAt]

/-- No row stands for a slot before the first one. -/
theorem countAt_slotRows_of_lt {slot : ℤ} (h : slot < i) : countAt (slotRows slots i) slot = 0 := by
  induction slots generalizing i with
  | nil => rfl
  | cons count slots ih =>
    have hnext := ih (i := i + 1) (by omega)
    rw [slotRows]
    split
    · exact hnext
    · rw [countAt_cons, if_neg (by lia), hnext]

/-- The rows give each slot its count. -/
theorem countAt_slotRows (k : ℕ) :
    countAt (slotRows slots i) ((i + k : ℕ) : ℤ) = slots[k]?.getD 0 := by
  induction slots generalizing i k with
  | nil => rfl
  | cons count slots ih =>
    have hlater : ∀ k, countAt (slotRows slots (i + 1)) ((i + (k + 1) : ℕ) : ℤ) =
        slots[k]?.getD 0 := by
      intro k
      rw [← ih (i := i + 1) k]
      congr 2
      omega
    have hhere : countAt (slotRows slots (i + 1)) (i : ℤ) = 0 := countAt_slotRows_of_lt (by omega)
    rw [slotRows]
    rcases k with _ | k
    -- slot `i` itself, which has a row unless it is empty
    · rw [List.getElem?_cons_zero, Option.getD_some]
      show countAt _ (i : ℤ) = count
      split
      · next hzero => rw [hhere, hzero]
      · rw [countAt_cons, if_pos rfl, hhere, Nat.add_zero]
    -- a later slot
    · rw [List.getElem?_cons_succ]
      split
      · exact hlater k
      · rw [countAt_cons, if_neg (by dsimp only; omega), hlater k, Nat.zero_add]

/-- The count column adds up to the slots. -/
theorem sum_slotRows : ((slotRows slots i).map Row.count).sum = slots.sum := by
  induction slots generalizing i with
  | nil => rfl
  | cons count slots ih =>
    rw [slotRows]
    split
    · next hzero => rw [ih, List.sum_cons, hzero, Nat.zero_add]
    · rw [List.map_cons, List.sum_cons, ih, List.sum_cons]

/-- Walking the rows is walking the slots: an empty slot never reaches a rank. -/
theorem walk_slotRows {r total : ℕ} (htotal : total < r) (rows : List Row) :
    walk (slotRows slots i ++ rows) r total =
      match firstReaching r slots i total with
      | some k => some (slotHigh k : ℤ)
      | none => walk rows r (total + slots.sum) := by
  induction slots generalizing i total with
  | nil => rfl
  | cons count slots ih =>
    rw [slotRows, firstReaching, List.sum_cons]
    by_cases hreached : r ≤ total + count
    -- a slot that reaches the rank is not empty
    · rw [if_pos hreached, if_neg (by omega), List.cons_append, walk, if_pos hreached]
    · have hnext := ih (i := i + 1) (not_le.mp hreached)
      rw [if_neg hreached, ← Nat.add_assoc, ← hnext]
      split
      · next hzero =>
        subst hzero
        rfl
      · rw [List.cons_append, walk, if_neg hreached]

end Slots

variable {h : Histogram} {xs : List Nanos} {r : ℕ}

/-- The rows give the overflow its count, under a slot of its own. -/
theorem countAt_overflowRows (slot : ℤ) :
    countAt (overflowRows h) slot = if slot = -1 then h.overflow else 0 := by
  rw [overflowRows]
  by_cases hover : 0 < h.overflow
  · rw [if_pos hover, countAt_cons]
    by_cases hslot : slot = -1
    · rw [if_pos hslot.symm, if_pos hslot]
      rfl
    · rw [if_neg (Ne.symm hslot), if_neg hslot]
      rfl
  · rw [if_neg hover, Nat.eq_zero_of_not_pos hover, ite_self]
    rfl

/-- The overflow row ends the walk at the largest sample. -/
theorem walk_overflowRows {total : ℕ} (htotal : total < r) (hr : r ≤ total + h.overflow) :
    walk (overflowRows h) r total = some h.max := by
  rw [overflowRows, if_pos (by omega), walk, if_pos hr]

/-- Walking the file to a rank finds what `percentile` reports for it. -/
theorem walk_histogramRows (hrep : h.Represents xs) {fl : Rounding} {p : ℚ}
    (hr : Histogram.rank fl p h.count = r) (hne : h.count ≠ 0) :
    walk (histogramRows h) r 0 = h.percentile fl p := by
  have hlow : 1 ≤ r := hr ▸ Histogram.one_le_rank fl p h.count
  have hhigh : r ≤ h.count := hr ▸ Histogram.rank_le fl p (Nat.pos_of_ne_zero hne)
  rw [histogramRows, walk_slotRows hlow, Histogram.percentile, if_neg hne, hr]
  rcases hwalk : firstReaching r h.slots.toList 0 0 with _ | k
  · -- the slots are not enough, so the rank lies in the overflow
    have hslots : 0 + h.slots.toList.sum < r := lt_of_firstReaching_eq_none hwalk hlow
    have hsum := hrep.sum_slots_add_overflow
    exact walk_overflowRows hslots (by omega)
  · rfl

/-- `histogram.csv` loses nothing a percentile needs: its reader gets every slot count and the
overflow count back, the counts add up to `count`, and walking the rows to a rank gives the
value that `percentile` reports for that rank. -/
theorem histogram_file_faithful (hrec : Histogram.Records xs h) :
    readHistogram (writeHistogram h) = some (histogramRows h) ∧
      (∀ (i : ℕ) (hi : i < kCount), countAt (histogramRows h) i = h.slots[i]) ∧
      countAt (histogramRows h) (-1) = h.overflow ∧
      ((histogramRows h).map Row.count).sum = h.count ∧
      ∀ r, 1 ≤ r → r ≤ h.count →
        (∀ fl p, Histogram.rank fl p h.count = r →
          walk (histogramRows h) r 0 = h.percentile fl p) ∧
        walk (histogramRows h) r 0 = h.percentile .exact (100 * r / h.count) ∧
        ∃ v, walk (histogramRows h) r 0 = some v := by
  obtain ⟨-, hrep⟩ := Histogram.represents_of_records hrec
  refine ⟨readHistogram_writeHistogram h, fun i hi => ?_, ?_, ?_, fun r hlow hhigh => ?_⟩
  -- the overflow row is under no slot
  · have hslot : countAt (slotRows h.slots.toList 0) ((0 + i : ℕ) : ℤ) =
        h.slots.toList[i]?.getD 0 := countAt_slotRows i
    rw [Nat.zero_add] at hslot
    rw [histogramRows, countAt_append, hslot, countAt_overflowRows, if_neg (by omega), Nat.add_zero,
      Vector.getElem?_toList, Vector.getElem?_eq_getElem hi, Option.getD_some]
  · rw [histogramRows, countAt_append, countAt_slotRows_of_lt (by decide), countAt_overflowRows,
      if_pos rfl, Nat.zero_add]
  · have hoverflow : ((overflowRows h).map Row.count).sum = h.overflow := by
      rw [overflowRows]
      split
      · rfl
      · next hover => exact (Nat.eq_zero_of_not_pos hover).symm
    rw [histogramRows, List.map_append, List.sum_append, sum_slotRows, hoverflow]
    exact hrep.sum_slots_add_overflow
  -- every rank is the rank of a percentile
  · have hne : h.count ≠ 0 := by omega
    have hexact := Histogram.rank_exact_of_div hlow hhigh
    have hwalk := walk_histogramRows hrep hexact hne
    refine ⟨fun fl p hr => walk_histogramRows hrep hr hne, hwalk, ?_⟩
    rw [hwalk]
    exact Histogram.exists_percentile .exact hne _

/-- Three samples, one past the layout: the file gives the overflow row for the last rank. -/
theorem histogram_file_faithful_three :
    countAt (histogramRows (.recordAll [5, 61_000_000_000, 300])) (-1) = 1 ∧
      walk (histogramRows (.recordAll [5, 61_000_000_000, 300])) 3 0 =
        (Histogram.recordAll [5, 61_000_000_000, 300]).percentile .exact
          (100 * (3 : ℕ) / (Histogram.recordAll [5, 61_000_000_000, 300]).count) := by
  have hnn : ∀ v ∈ [5, 61_000_000_000, (300 : Nanos)], 0 ≤ v := by decide
  obtain ⟨-, -, hover, -, hwalk⟩ := histogram_file_faithful (Histogram.records_recordAll hnn)
  have hoverflow : (Histogram.recordAll [5, 61_000_000_000, 300]).overflow = 1 := by decide
  have hcount : 3 ≤ (Histogram.recordAll [5, 61_000_000_000, 300]).count := by
    rw [Histogram.count_recordAll]
    exact le_rfl
  exact ⟨hover.trans hoverflow, (hwalk 3 (by decide) hcount).2.1⟩

/-! ## `timeseries.csv` -/

/-- The header of `timeseries.csv`. -/
def timeseriesColumns : Text := "second,count,p50_ns,p90_ns,p99_ns,max_ns".toList

/-- One row, as the source streams it. A percentile of a histogram with samples is never absent,
so the `value()` calls of the source do not throw. -/
def writeSecond (fl : Rounding) (i : ℕ) (h : Histogram) : Text :=
  decimal i ++ ',' :: (decimal h.count ++ ',' ::
    if h.count = 0 then "0,0,0,0\n".toList
    else signed ((h.percentile fl (fl 50)).getD 0) ++ ',' ::
      (signed ((h.percentile fl (fl 90)).getD 0) ++ ',' ::
        (signed ((h.percentile fl (fl 99)).getD 0) ++ ',' :: (signed h.max ++ ['\n']))))

/-- The loop over the seconds, from second `i`. -/
def writeSeconds (fl : Rounding) : List Histogram → (i : ℕ) → Text
  | [], _ => []
  | h :: seconds, i => writeSecond fl i h ++ writeSeconds fl seconds (i + 1)

/-- `csv::write_timeseries`. -/
def writeTimeseries (fl : Rounding) (seconds : List Histogram) : Text :=
  timeseriesColumns ++ '\n' :: writeSeconds fl seconds 0

/-- The numbers of a second. -/
def secondFields (fl : Rounding) (i : ℕ) (h : Histogram) : List ℤ :=
  if h.count = 0 then [i, 0, 0, 0, 0, 0]
  else [i, h.count, (h.percentile fl (fl 50)).getD 0, (h.percentile fl (fl 90)).getD 0,
    (h.percentile fl (fl 99)).getD 0, h.max]

theorem writeSecond_eq (fl : Rounding) (i : ℕ) (h : Histogram) :
    writeSecond fl i h = line (secondFields fl i h) := by
  rw [writeSecond, secondFields]
  split
  · next hzero =>
    have hsilent : "0,0,0,0\n".toList = line [0, 0, 0, 0] := by decide +kernel
    have hcount : signed 0 = decimal 0 := signed_natCast 0
    rw [hzero, hsilent]
    simp [line, Delimited.row, signed_natCast, hcount, List.intercalate_cons_cons]
  · simp [line, Delimited.row, signed_natCast, List.intercalate_cons_cons]

/-- The rows of a series, from second `i`. -/
def secondRows (fl : Rounding) : List Histogram → (i : ℕ) → List (List ℤ)
  | [], _ => []
  | h :: seconds, i => secondFields fl i h :: secondRows fl seconds (i + 1)

theorem writeSeconds_eq (fl : Rounding) (seconds : List Histogram) (i : ℕ) :
    writeSeconds fl seconds i = (secondRows fl seconds i).flatMap line := by
  induction seconds generalizing i with
  | nil => rfl
  | cons h seconds ih =>
    rw [writeSeconds, secondRows, List.flatMap_cons, writeSecond_eq, ih (i + 1)]

/-- Row `k` is the one of entry `k`. -/
theorem getElem?_secondRows (fl : Rounding) (seconds : List Histogram) (i k : ℕ) :
    (secondRows fl seconds i)[k]? = seconds[k]?.map (secondFields fl (i + k)) := by
  induction seconds generalizing i k with
  | nil => rfl
  | cons h seconds ih =>
    rcases k with _ | k
    · rfl
    · rw [secondRows, List.getElem?_cons_succ, List.getElem?_cons_succ, ih (i + 1) k,
        Nat.succ_add_eq_add_succ]

/-- A reader of `timeseries.csv` gets the rows back. -/
theorem readTable_writeTimeseries (fl : Rounding) (seconds : List Histogram) :
    readTable (writeTimeseries fl seconds) = some (secondRows fl seconds 0) := by
  have htable : writeTimeseries fl seconds =
      table timeseriesColumns (secondRows fl seconds 0) := by
    rw [writeTimeseries, table, writeSeconds_eq]
  have hrows : ∀ fields ∈ secondRows fl seconds 0, fields ≠ [] := by
    intro fields hfields
    obtain ⟨k, hk⟩ := List.mem_iff_getElem?.mp hfields
    rw [getElem?_secondRows] at hk
    obtain ⟨h, -, rfl⟩ := Option.map_eq_some_iff.mp hk
    unfold secondFields
    split
    · exact List.cons_ne_nil _ _
    · exact List.cons_ne_nil _ _
  rw [htable]
  exact readTable_table (by decide +kernel) hrows

end Csv

end Dariyanaap

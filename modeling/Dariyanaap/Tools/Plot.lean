import Dariyanaap.Stats.HistogramRows

/-!
# The plotted latency CDF

`plot_cdf` (`tools/plot.py`) draws the cumulative distribution from the rows of `histogram.csv`:
a second implementation of `percentile`, over the file. It leaves the row of the overflow out,
and with it the samples of that row from the total it divides by. So the curve agrees with the
percentiles of the run when nothing overflowed, and otherwise not (`agrees_iff`).

Python's `float` arithmetic is modelled like the `double` arithmetic of the rig, by a `Rounding`.
-/

namespace Dariyanaap

open Buckets Histogram Csv

namespace Plot

/-- A point of a curve: microseconds and percent. -/
structure Point where
  x : ℚ
  y : ℚ
  deriving DecidableEq

/-- `(high_ns, count)` of the rows of the slots. -/
def slotPairs (rows : List Row) : List (ℤ × ℕ) :=
  (rows.filter fun row => decide (0 ≤ row.slot)).map fun row => (row.high, row.count)

/-- Python's order of pairs. -/
def PairLE (a b : ℤ × ℕ) : Prop := a.1 < b.1 ∨ a.1 = b.1 ∧ a.2 ≤ b.2

instance : DecidableRel PairLE := fun a b => by
  unfold PairLE
  infer_instance

/-- The loop over the sorted pairs. -/
def cdfPoints (fl : Rounding) (total : ℕ) : List (ℤ × ℕ) → (running : ℕ) → List Point
  | [], _ => []
  | (high, count) :: slots, running =>
      ⟨fl (fl high / 1000), fl (fl (100 * fl ↑(running + count)) / fl total)⟩ ::
        cdfPoints fl total slots (running + count)

/-- `plot_cdf`: the points of the curve. -/
def plotCdf (fl : Rounding) (rows : List Row) : List Point :=
  let slots := (slotPairs rows).insertionSort PairLE
  let total := (slots.map Prod.snd).sum
  if total = 0 then [] else cdfPoints fl total slots 0

/-- The samples counted in rows up to a high edge. -/
def countUpTo (rows : List Row) (high : ℤ) : ℕ :=
  ((rows.filter fun row => decide (row.high ≤ high)).map Row.count).sum

/-- The curve shows the percentiles of the run. -/
structure Agrees (h : Histogram) (xs : List Nanos) (points : List Point) : Prop where
  /-- A point is the part of all samples that its row and the rows below it count. -/
  fraction : ∀ point ∈ points, ∃ row ∈ histogramRows h, point.x = row.high / 1000 ∧
    point.y = 100 * countUpTo (histogramRows h) row.high / xs.length
  /-- The curve reaches a percentile where `percentile` puts it, below the overflow. -/
  reaches : ∀ p ≤ 100, rank .exact p xs.length + h.overflow ≤ xs.length →
    ∃ point v, points.find? (fun point => decide (p ≤ point.y)) = some point ∧
      h.percentile .exact p = some v ∧ point.x = v / 1000
  /-- The curve ends below the overflow. -/
  ends : 0 < h.overflow → ∀ point, points.getLast? = some point → point.y < 100

section Slots

variable {slots : List ℕ} {i : ℕ} {rows : List Row} {total running : ℕ} {p : ℚ}

/-- The pairs of some rows of slots. -/
def pairs (rows : List Row) : List (ℤ × ℕ) := rows.map fun row => (row.high, row.count)

theorem slotPairs_histogramRows (h : Histogram) :
    slotPairs (histogramRows h) = pairs (slotRows h.slots.toList 0) := by
  have hslots : (slotRows h.slots.toList 0).filter (fun row => decide (0 ≤ row.slot)) =
      slotRows h.slots.toList 0 := by
    refine List.filter_eq_self.mpr fun row hrow => ?_
    obtain ⟨k, count, -, -, rfl⟩ := mem_slotRows.mp hrow
    exact decide_eq_true (Int.natCast_nonneg _)
  have hoverflow : (overflowRows h).filter (fun row => decide (0 ≤ row.slot)) = [] := by
    refine List.filter_eq_nil_iff.mpr fun row hrow => ?_
    rw [(mem_overflowRows.mp hrow).2]
    simp
  rw [slotPairs, histogramRows, List.filter_append, hslots, hoverflow, List.append_nil, pairs]

/-- The high edges of the rows increase. -/
theorem pairwise_high (slots : List ℕ) (i : ℕ) :
    (slotRows slots i).Pairwise fun a b => a.high < b.high := by
  refine (pairwise_slotRows slots i).imp_of_mem fun {a b} _ hb hlt => ?_
  obtain ⟨k, count, -, -, rfl⟩ := mem_slotRows.mp hb
  exact hlt.trans_le (Int.ofNat_le.mpr (slotLow_le_slotHigh _))

theorem insertionSort_pairs (slots : List ℕ) (i : ℕ) :
    (pairs (slotRows slots i)).insertionSort PairLE = pairs (slotRows slots i) :=
  List.Pairwise.insertionSort_eq
    (List.pairwise_map.mpr ((pairwise_high slots i).imp fun hlt => .inl hlt))

theorem sum_pairs (slots : List ℕ) (i : ℕ) :
    ((pairs (slotRows slots i)).map Prod.snd).sum = slots.sum := by
  rw [pairs, List.map_map]
  exact sum_slotRows

/-- The curve of a histogram: one point for each row of a slot. -/
theorem plotCdf_histogramRows (fl : Rounding) (h : Histogram) :
    plotCdf fl (histogramRows h) =
      if h.slots.toList.sum = 0 then []
      else cdfPoints fl h.slots.toList.sum (pairs (slotRows h.slots.toList 0)) 0 := by
  rw [plotCdf, slotPairs_histogramRows, insertionSort_pairs, sum_pairs]

theorem countUpTo_cons (row : Row) (rows : List Row) (high : ℤ) :
    countUpTo (row :: rows) high =
      (if row.high ≤ high then row.count else 0) + countUpTo rows high := by
  rw [countUpTo, List.filter_cons]
  by_cases hle : row.high ≤ high
  · simp [hle, countUpTo]
  · simp [hle, countUpTo]

/-- Rows above an edge count nothing up to it. -/
theorem countUpTo_eq_zero {high : ℤ} (h : ∀ row ∈ rows, high < row.high) :
    countUpTo rows high = 0 := by
  rw [countUpTo, List.filter_eq_nil_iff.mpr]
  · rfl
  · intro row hrow
    simpa using h row hrow

/-- Each point is the part of the total that its row and the rows below it count. -/
theorem exists_row_of_mem_cdfPoints (hrows : rows.Pairwise fun a b => a.high < b.high)
    {point : Point} (hpoint : point ∈ cdfPoints .exact total (pairs rows) running) :
    ∃ row ∈ rows, point.x = row.high / 1000 ∧
      point.y = 100 * ↑(running + countUpTo rows row.high) / total := by
  induction rows generalizing running with
  | nil => cases hpoint
  | cons first rows ih =>
    obtain ⟨hfirst, hrows⟩ := List.pairwise_cons.mp hrows
    rcases List.mem_cons.mp hpoint with rfl | hpoint
    · refine ⟨first, List.mem_cons_self, rfl, ?_⟩
      -- the rows after the first one are above its edge
      rw [countUpTo_cons, if_pos le_rfl, countUpTo_eq_zero hfirst, Nat.add_zero]
      rfl
    · obtain ⟨row, hrow, hx, hy⟩ := ih hrows hpoint
      refine ⟨row, List.mem_cons_of_mem _ hrow, hx, ?_⟩
      rw [countUpTo_cons, if_pos (hfirst row hrow).le, ← Nat.add_assoc]
      exact hy

/-- The curve reaches a percentile at the row in which the running total reaches its rank. -/
theorem find_cdfPoints (hp : p ≤ 100) (hpos : ∀ row ∈ rows, 0 < row.count)
    (htotal : running + (rows.map Row.count).sum ≤ total) :
    ((cdfPoints .exact total (pairs rows) running).find? fun point => decide (p ≤ point.y)).map
        Point.x =
      (walk rows (rank .exact p total) running).map fun high : ℤ => (high / 1000 : ℚ) := by
  induction rows generalizing running with
  | nil => rfl
  | cons row rows ih =>
    have hcount : 1 ≤ running + row.count := by
      have := hpos row List.mem_cons_self
      omega
    rw [List.map_cons, List.sum_cons, ← Nat.add_assoc] at htotal
    have hreached := rank_exact_le_iff hp hcount (by omega : running + row.count ≤ total)
    rw [walk, pairs, List.map_cons, cdfPoints]
    by_cases hle : rank .exact p total ≤ running + row.count
    · rw [if_pos hle, List.find?_cons_of_pos (by simpa using hreached.mp hle)]
      rfl
    · rw [if_neg hle, List.find?_cons_of_neg (by simpa using mt hreached.mpr hle)]
      exact ih (fun later hlater => hpos later (List.mem_cons_of_mem _ hlater)) htotal

/-- The curve ends at the part of the total that all rows count. -/
theorem getLast_cdfPoints (total running : ℕ) (hne : rows ≠ []) :
    ((cdfPoints .exact total (pairs rows) running).getLast?).map Point.y =
      some (100 * (running + (rows.map Row.count).sum : ℕ) / total : ℚ) := by
  induction rows generalizing running with
  | nil => exact absurd rfl hne
  | cons row rows ih =>
    rw [pairs, List.map_cons, cdfPoints, List.map_cons, List.sum_cons, ← Nat.add_assoc]
    rcases rows with _ | ⟨next, rows⟩
    · rfl
    · rw [← ih _ (List.cons_ne_nil _ _)]
      rfl

end Slots

variable {h : Histogram} {xs : List Nanos}

/-- An empty curve agrees with a histogram whose slots are empty. -/
theorem agrees_nil (hrep : h.Represents xs) (hzero : h.slots.toList.sum = 0) : Agrees h xs [] := by
  constructor
  · exact fun point hpoint => absurd hpoint List.not_mem_nil
  · -- every rank lies in the overflow
    intro p _ hrank
    have hsum := hrep.sum_slots_add_overflow
    have := one_le_rank .exact p xs.length
    rw [hrep.count] at hsum
    omega
  · intro _ point hlast
    cases hlast

/-- The curve of a histogram without overflow agrees with it. -/
theorem agrees_of_overflow_eq_zero (hrep : h.Represents xs) (hover : h.overflow = 0) :
    Agrees h xs (cdfPoints .exact xs.length (pairs (slotRows h.slots.toList 0)) 0) := by
  have hrows : histogramRows h = slotRows h.slots.toList 0 := by
    rw [histogramRows, overflowRows, if_neg (by omega), List.append_nil]
  have hsum := hrep.sum_slots_eq_length hover
  constructor
  · intro point hpoint
    obtain ⟨row, hrow, hx, hy⟩ := exists_row_of_mem_cdfPoints (pairwise_high _ 0) hpoint
    rw [Nat.zero_add] at hy
    rw [hrows]
    exact ⟨row, hrow, hx, hy⟩
  · intro p hp hrank
    have hne : h.count ≠ 0 := by
      have := one_le_rank .exact p xs.length
      rw [hrep.count]
      omega
    -- the walk over the rows of the file finds the percentile
    obtain ⟨v, hv⟩ := exists_percentile .exact hne p
    have hwalk : walk (histogramRows h) (rank .exact p h.count) 0 = h.percentile .exact p :=
      walk_histogramRows hrep rfl hne
    rw [hrows, hv, hrep.count] at hwalk
    have hcounted : ∀ row ∈ slotRows h.slots.toList 0, 0 < row.count := by
      intro row hrow
      obtain ⟨k, count, -, hne, rfl⟩ := mem_slotRows.mp hrow
      exact Nat.pos_of_ne_zero hne
    have htotal : 0 + ((slotRows h.slots.toList 0).map Row.count).sum ≤ xs.length := by
      rw [sum_slotRows, hsum, Nat.zero_add]
    have hfind := find_cdfPoints hp hcounted htotal
    rw [hwalk] at hfind
    obtain ⟨point, hpoint, hx⟩ := Option.map_eq_some_iff.mp hfind
    exact ⟨point, v, hpoint, hv, hx⟩
  · intro hpos
    omega

/-- A curve of some points ends at 100, and so does not agree with a histogram that has an
overflow. -/
theorem not_agrees (hover : 0 < h.overflow) (hsum : h.slots.toList.sum ≠ 0) :
    ¬Agrees h xs (cdfPoints .exact h.slots.toList.sum (pairs (slotRows h.slots.toList 0)) 0) := by
  intro hagrees
  have hrows : slotRows h.slots.toList 0 ≠ [] := by
    intro hnil
    rw [← sum_slotRows (i := 0), hnil] at hsum
    exact hsum rfl
  obtain ⟨last, hlast, hy⟩ :=
    Option.map_eq_some_iff.mp (getLast_cdfPoints h.slots.toList.sum 0 hrows)
  have hlt := hagrees.ends hover last hlast
  rw [hy, sum_slotRows, Nat.zero_add, mul_div_cancel_right₀ _ (by exact_mod_cast hsum)] at hlt
  exact absurd hlt (lt_irrefl _)

/-- The curve shows the percentiles exactly when nothing overflowed, or nothing else was
recorded and nothing is drawn. -/
theorem agrees_iff (hrec : Records xs h) :
    ∃ points, (readHistogram (writeHistogram h)).map (plotCdf .exact) = some points ∧
      (Agrees h xs points ↔
        (∀ v ∈ xs, v ≤ kMaxValue) ∨ ∀ v ∈ xs, (kMaxValue : ℤ) < v) := by
  obtain ⟨-, hrep⟩ := represents_of_records hrec
  refine ⟨_, congrArg (Option.map (plotCdf .exact)) (readHistogram_writeHistogram h), ?_⟩
  rw [plotCdf_histogramRows, ← hrep.overflow_eq_zero_iff, ← hrep.sum_slots_eq_zero_iff]
  split
  · next hzero => exact iff_of_true (agrees_nil hrep hzero) (.inr hzero)
  · next hsum =>
    rcases Nat.eq_zero_or_pos h.overflow with hover | hover
    · -- the total that is drawn is the number of samples
      rw [hrep.sum_slots_eq_length hover]
      exact iff_of_true (agrees_of_overflow_eq_zero hrep hover) (.inl hover)
    · exact iff_of_false (not_agrees hover hsum) (not_or.mpr ⟨hover.ne', hsum⟩)

/-- Three samples inside the layout. -/
theorem agrees_iff_three :
    ∃ points, (readHistogram (writeHistogram (.recordAll [5, 7, 300]))).map (plotCdf .exact) =
        some points ∧
      Agrees (.recordAll [5, 7, 300]) [5, 7, 300] points := by
  have hrec : Records [5, 7, 300] (recordAll [5, 7, 300]) := records_recordAll (by decide)
  obtain ⟨points, hread, hagrees⟩ := agrees_iff hrec
  exact ⟨points, hread, hagrees.mpr (by decide)⟩

/-- Half of the samples lie past the layout, and the curve ends at 100 nevertheless. -/
theorem plotCdf_flatters :
    Records [1, 61_000_000_000] (.recordAll [1, 61_000_000_000]) ∧
      (readHistogram (writeHistogram (.recordAll [1, 61_000_000_000]))).map (plotCdf .exact) =
        some [⟨1 / 1000, 100⟩] ∧
      ¬Agrees (.recordAll [1, 61_000_000_000]) [1, 61_000_000_000] [⟨1 / 1000, 100⟩] := by
  have hpoints : plotCdf .exact (histogramRows (.recordAll [1, 61_000_000_000])) =
      [⟨1 / 1000, 100⟩] := by
    decide +kernel
  refine ⟨records_recordAll (by decide), ?_, fun hagrees => ?_⟩
  · rw [readHistogram_writeHistogram, Option.map_some, hpoints]
  · have hover : 0 < (recordAll [1, 61_000_000_000]).overflow := by decide
    exact absurd (hagrees.ends hover _ rfl) (lt_irrefl _)

end Plot

end Dariyanaap

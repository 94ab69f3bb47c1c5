import Dariyanaap.Stats.Histogram

/-!
# Latency by second

`TimeSeries` and its `Writer` (`stats/timeseries.hpp`). A writer belongs to one worker and
keeps the histogram of one second; at a boundary it hands that second to the shared series,
under the series' lock, so `absorb` is one step of the interleaving.

`Holds` says what a series is for: entry `s` is the histogram of the samples that finished in
second `s`, and the last entry is not empty. A writer `Keeps` the samples of its current second;
whatever it hands over, the series `Holds` (`Keeps.record`, `Keeps.flush`).
-/

namespace Dariyanaap

/-- One histogram per elapsed second, shared by all workers. -/
structure TimeSeries where
  start : Instant
  seconds : List Histogram := []

namespace TimeSeries

/-- `TimeSeries::second_of`. Everything up to the start is second zero. -/
def secondOf (series : TimeSeries) (now : Instant) : ℕ :=
  let since := between series.start now
  if since ≤ 0 then 0 else (since / 1_000_000_000).toNat

/-- `vector::resize`, as `absorb` uses it: only ever longer. -/
def grow (seconds : List Histogram) (size : ℕ) : List Histogram :=
  seconds ++ List.replicate (size - seconds.length) .empty

/-- `TimeSeries::absorb`. -/
def absorb (series : TimeSeries) (second : ℕ) (histogram : Histogram) : TimeSeries :=
  { series with
    seconds := (grow series.seconds (second + 1)).modify second fun h => h.merge histogram }

/-- The second a worker is in, and its samples so far. -/
structure Writer where
  pending : Histogram := .empty
  current : ℕ := 0

/-- `Writer::flush`. -/
def Writer.flush (writer : Writer) (series : TimeSeries) : TimeSeries × Writer :=
  if 0 < writer.pending.count then
    (series.absorb writer.current writer.pending, { writer with pending := .empty })
  else (series, writer)

/-- `Writer::record`. -/
def Writer.record (writer : Writer) (series : TimeSeries) (now : Instant) (latency : Nanos) :
    TimeSeries × Writer :=
  let second := series.secondOf now
  let (series, writer) :=
    -- a boundary was crossed: the second before it is complete
    if second ≠ writer.current then
      let (series, writer) := writer.flush series
      (series, { writer with current := second })
    else (series, writer)
  (series, { writer with pending := writer.pending.record latency })

/-! ## The samples behind a series -/

/-- A timed request: when it finished, and its latency. -/
structure Sample where
  finished : Instant
  latency : Nanos
  deriving DecidableEq

/-- `now` lies in second `s` after `start`; everything up to `start` lies in second zero. -/
def InSecond (start : Instant) (s : ℕ) (now : Instant) : Prop :=
  (s = 0 ∨ start + s * 1_000_000_000 ≤ now) ∧ now < start + (s + 1) * 1_000_000_000

instance (start : Instant) (s : ℕ) (now : Instant) : Decidable (InSecond start s now) :=
  inferInstanceAs (Decidable (_ ∧ _))

/-- The second `record` files a reading under, as a function of the start. -/
def secondAfter (start now : Instant) : ℕ := secondOf { start := start } now

theorem secondOf_eq (series : TimeSeries) (now : Instant) :
    series.secondOf now = secondAfter series.start now := rfl

/-- Every reading lies in exactly one second. -/
theorem inSecond_iff {start now : Instant} {s : ℕ} :
    InSecond start s now ↔ secondAfter start now = s := by
  have hsecond : secondAfter start now =
      if now - start ≤ 0 then 0 else ((now - start) / 1_000_000_000).toNat := rfl
  rw [InSecond, hsecond]
  by_cases hstarted : now - start ≤ 0
  · rw [if_pos hstarted]
    lia
  · rw [if_neg hstarted]
    lia

/-- The samples that finished in one second. -/
def samplesIn (start : Instant) (s : ℕ) (samples : List Sample) : List Nanos :=
  (samples.filter fun x => decide (secondAfter start x.finished = s)).map Sample.latency

section Samples

variable {start : Instant} {s : ℕ} {xs ys : List Sample}

@[simp]
theorem samplesIn_append :
    samplesIn start s (xs ++ ys) = samplesIn start s xs ++ samplesIn start s ys := by
  simp [samplesIn]

theorem samplesIn_of_forall (h : ∀ x ∈ xs, secondAfter start x.finished = s) :
    samplesIn start s xs = xs.map Sample.latency := by
  rw [samplesIn, List.filter_eq_self.mpr]
  intro x hx
  exact decide_eq_true (h x hx)

theorem samplesIn_eq_nil (h : ∀ x ∈ xs, secondAfter start x.finished ≠ s) :
    samplesIn start s xs = [] := by
  rw [samplesIn, List.filter_eq_nil_iff.mpr, List.map_nil]
  intro x hx
  simpa using h x hx

theorem samplesIn_perm (h : xs.Perm ys) :
    (samplesIn start s xs).Perm (samplesIn start s ys) := (h.filter _).map _

/-- Every sample lies in one of the seconds up to the last one. -/
theorem flatMap_samplesIn_perm {n : ℕ} (h : ∀ x ∈ xs, secondAfter start x.finished < n) :
    ((List.range n).flatMap fun s => samplesIn start s xs).Perm (xs.map Sample.latency) := by
  induction n generalizing xs with
  | zero =>
    rcases xs with _ | ⟨x, xs⟩
    · exact .refl _
    · exact absurd (h x List.mem_cons_self) (Nat.not_lt_zero _)
  | succ n ih =>
    -- the samples before second `n`, and those in it
    let early := fun x : Sample => decide (secondAfter start x.finished < n)
    have hearly : ∀ s < n, samplesIn start s xs = samplesIn start s (xs.filter early) := by
      intro s hs
      rw [samplesIn, samplesIn, List.filter_filter]
      congr 1
      refine List.filter_congr fun x _ => ?_
      simp only [early]
      grind
    have hlate : samplesIn start n xs = (xs.filter fun x => !early x).map Sample.latency := by
      rw [samplesIn]
      congr 1
      refine List.filter_congr fun x hx => ?_
      have := h x hx
      simp only [early]
      grind
    have hrange : ((List.range n).flatMap fun s => samplesIn start s xs) =
        (List.range n).flatMap fun s => samplesIn start s (xs.filter early) :=
      List.flatMap_congr fun s hs => hearly s (List.mem_range.mp hs)
    rw [List.range_succ, List.flatMap_append, List.flatMap_singleton, hrange, hlate]
    refine ((ih fun x hx => ?_).append_right _).trans ?_
    · simpa [early] using (List.mem_filter.mp hx).2
    · rw [← List.map_append]
      exact (List.filter_append_perm early xs).map _

end Samples

/-- The series holds exactly these samples. -/
structure Holds (series : TimeSeries) (samples : List Sample) : Prop where
  entry : ∀ s < series.seconds.length,
    series.seconds[s]? = some (.recordAll (samplesIn series.start s samples))
  /-- No sample lies past the last entry. -/
  within : ∀ x ∈ samples, secondAfter series.start x.finished < series.seconds.length
  /-- Some sample lies in the last entry. -/
  last : series.seconds ≠ [] →
    ∃ x ∈ samples, secondAfter series.start x.finished + 1 = series.seconds.length

namespace Holds

variable {series : TimeSeries} {xs ys : List Sample}

/-- A new series holds nothing. -/
theorem empty (start : Instant) : Holds { start := start } [] where
  entry s hs := absurd hs (Nat.not_lt_zero s)
  within := List.forall_mem_nil _
  last h := absurd rfl h

/-- The order of the samples does not matter. -/
theorem perm (h : series.Holds xs) (hperm : xs.Perm ys) : series.Holds ys where
  entry s hs := by
    rw [h.entry s hs, Histogram.recordAll_perm (samplesIn_perm hperm)]
  within x hx := h.within x (hperm.mem_iff.mpr hx)
  last hne := by
    obtain ⟨x, hx, hlast⟩ := h.last hne
    exact ⟨x, hperm.mem_iff.mp hx, hlast⟩

/-- A second past the end has no samples. -/
theorem getD_entry (h : series.Holds xs) (s : ℕ) :
    series.seconds[s]?.getD .empty = .recordAll (samplesIn series.start s xs) := by
  by_cases hs : s < series.seconds.length
  · rw [h.entry s hs, Option.getD_some]
  · rw [List.getElem?_eq_none (not_lt.mp hs), Option.getD_none,
      samplesIn_eq_nil fun x hx => ((h.within x hx).trans_le (not_lt.mp hs)).ne]
    rfl

/-- Absorbing the histogram of some samples of one second adds these samples. -/
theorem absorb (h : series.Holds xs) {second : ℕ} (hne : ys ≠ [])
    (hys : ∀ y ∈ ys, secondAfter series.start y.finished = second) :
    (series.absorb second (.recordAll (ys.map Sample.latency))).Holds (xs ++ ys) := by
  have hlength : (series.absorb second (.recordAll (ys.map Sample.latency))).seconds.length =
      max series.seconds.length (second + 1) := by
    simp only [TimeSeries.absorb, grow, List.length_modify, List.length_append,
      List.length_replicate]
    omega
  have hstart : (series.absorb second (.recordAll (ys.map Sample.latency))).start =
      series.start := rfl
  constructor
  · intro s hs
    rw [hlength] at hs
    -- the entry that was there, or an empty one that `resize` made
    have hgrown : (grow series.seconds (second + 1))[s]? =
        some (.recordAll (samplesIn series.start s xs)) := by
      rw [← h.getD_entry s, grow]
      by_cases hold : s < series.seconds.length
      · rw [List.getElem?_append_left hold, h.entry s hold, Option.getD_some]
      · rw [List.getElem?_append_right (not_lt.mp hold), List.getElem?_replicate, if_pos (by omega),
          List.getElem?_eq_none (not_lt.mp hold), Option.getD_none]
    rw [hstart, TimeSeries.absorb, List.getElem?_modify, hgrown, samplesIn_append]
    by_cases hsecond : second = s
    · subst hsecond
      rw [samplesIn_of_forall hys]
      simp
    · have hnone : samplesIn series.start s ys = [] :=
        samplesIn_eq_nil fun y hy heq => hsecond ((hys y hy).symm.trans heq)
      rw [hnone, List.append_nil]
      simp [hsecond]
  · intro x hx
    rw [hstart, hlength]
    rcases List.mem_append.mp hx with hx | hx
    · exact lt_max_of_lt_left (h.within x hx)
    · rw [hys x hx]
      exact lt_max_of_lt_right (Nat.lt_succ_self second)
  · intro _
    rw [hstart, hlength]
    rcases le_or_gt (second + 1) series.seconds.length with hshort | hlong
    · -- the series was long enough
      have hseconds : series.seconds ≠ [] := List.ne_nil_of_length_pos (by omega)
      obtain ⟨x, hx, hlast⟩ := h.last hseconds
      exact ⟨x, List.mem_append_left _ hx, by rw [hlast, max_eq_left hshort]⟩
    · obtain ⟨y, hy⟩ := List.exists_mem_of_ne_nil ys hne
      exact ⟨y, List.mem_append_right _ hy, by rw [hys y hy, max_eq_right hlong.le]⟩

/-- Merging all entries gives the histogram of all samples. -/
theorem mergeAll_seconds (h : series.Holds xs) :
    Histogram.mergeAll series.seconds = .recordAll (xs.map Sample.latency) := by
  have hseconds : series.seconds = (List.range series.seconds.length).map fun s =>
      Histogram.recordAll (samplesIn series.start s xs) := by
    apply List.ext_getElem?
    intro s
    rw [List.getElem?_map]
    by_cases hs : s < series.seconds.length
    · rw [h.entry s hs, List.getElem?_range hs, Option.map_some]
    · rw [List.getElem?_eq_none (not_lt.mp hs), List.getElem?_eq_none (by simpa using hs),
        Option.map_none]
  rw [hseconds, Histogram.mergeAll_recordAll]
  exact Histogram.recordAll_perm (flatMap_samplesIn_perm h.within)

end Holds

/-! ## Writers -/

/-- A writer keeps these samples: all of them of the second it is in. -/
structure Writer.Keeps (writer : Writer) (start : Instant) (kept : List Sample) : Prop where
  pending : writer.pending = .recordAll (kept.map Sample.latency)
  current : ∀ x ∈ kept, secondAfter start x.finished = writer.current

namespace Writer.Keeps

variable {writer : Writer} {series : TimeSeries} {kept xs : List Sample}

@[simp]
theorem count_pending {start : Instant} (h : writer.Keeps start kept) :
    writer.pending.count = kept.length := by
  rw [h.pending, Histogram.count_recordAll, List.length_map]

/-- After a flush nothing is kept. -/
theorem flush (h : writer.Keeps series.start kept) :
    (writer.flush series).1.start = series.start ∧
      (writer.flush series).2.Keeps series.start [] := by
  rw [Writer.flush]
  split
  · exact ⟨rfl, rfl, List.forall_mem_nil _⟩
  · next hcount =>
    rw [h.count_pending, not_lt, Nat.le_zero, List.length_eq_zero_iff] at hcount
    subst hcount
    exact ⟨rfl, h⟩

/-- Flushing hands over everything that was kept. -/
theorem holds_flush (h : writer.Keeps series.start kept) (hseries : series.Holds xs) :
    (writer.flush series).1.Holds (xs ++ kept) := by
  rw [Writer.flush]
  split
  · next hcount =>
    rw [h.count_pending] at hcount
    rw [h.pending]
    exact hseries.absorb (List.ne_nil_of_length_pos hcount) h.current
  · next hcount =>
    rw [h.count_pending, not_lt, Nat.le_zero, List.length_eq_zero_iff] at hcount
    rwa [hcount, List.append_nil]

/-- Recording a sample hands over what was kept if a boundary was crossed, and nothing
otherwise. -/
theorem record {start : Instant} (h : writer.Keeps start kept) (x : Sample) :
    ∃ handed kept', handed ++ kept' = kept ++ [x] ∧
      ∀ series : TimeSeries, series.start = start →
        (writer.record series x.finished x.latency).2.Keeps start kept' ∧
        (writer.record series x.finished x.latency).1.start = start ∧
        ∀ xs, series.Holds xs →
          (writer.record series x.finished x.latency).1.Holds (xs ++ handed) := by
  by_cases hsecond : secondAfter start x.finished = writer.current
  · -- the same second: the sample joins those that are kept
    refine ⟨[], kept ++ [x], rfl, ?_⟩
    rintro series rfl
    rw [Writer.record, secondOf_eq, if_neg (not_not.mpr hsecond)]
    refine ⟨⟨?_, ?_⟩, rfl, fun xs hseries => by rwa [List.append_nil]⟩
    · rw [List.map_append, List.map_singleton, Histogram.recordAll_append_singleton, ← h.pending]
    · intro y hy
      rcases List.mem_append.mp hy with hy | hy
      · exact h.current y hy
      · rw [List.mem_singleton.mp hy]
        exact hsecond
  · refine ⟨kept, [x], rfl, ?_⟩
    rintro series rfl
    obtain ⟨hstart, hflushed⟩ := h.flush
    rw [Writer.record, secondOf_eq, if_pos hsecond]
    refine ⟨⟨?_, List.forall_mem_singleton.mpr rfl⟩, hstart, fun xs => h.holds_flush⟩
    show (writer.flush series).2.pending.record x.latency = _
    rw [hflushed.pending]
    rfl

end Writer.Keeps

end TimeSeries

end Dariyanaap

import Dariyanaap.App.WriteCsv
import Dariyanaap.Load.PerSecond

/-!
# The plotted series of a run

`read` and `plot_timeseries` (`tools/plot.py`). A file is read as a list of
dictionaries, and a value is looked up by the name of its column and converted where it is used; a
name that is missing and a value that is no number raise.

What is plotted is what was measured: the curve of `timeseries.csv` is that of the seconds of the
run (`timeseries_plotted`).
-/

namespace Dariyanaap

open Delimited (decimal signed readDecimal readSigned readSigned_signed)
open Quoting Csv
open TimeSeries (InSecond Sample)

namespace Plot

/-! ## Reading a file -/

/-- The line ends of a file that is opened as text. -/
def universalNewlines : Text → Text
  | [] => []
  | '\r' :: '\n' :: text => '\n' :: universalNewlines text
  | '\r' :: text => '\n' :: universalNewlines text
  | c :: text => c :: universalNewlines text

/-- A row of `csv.DictReader`: the values by the names of the header, which are distinct. -/
abbrev Dict : Type := List (Text × Text)

/-- `read`. A record has a value for each name. -/
def read (text : Text) : Option (List Dict) :=
  (readFile (universalNewlines text)).map fun records =>
    match records with
    | [] => []
    | names :: rows => rows.map names.zip

/-- `int(row[name])`. -/
def int (name : Text) (row : Dict) : Option ℤ := (row.lookup name).bind readSigned

section Reading

variable {text value name : Text} {row : Dict} {n : ℤ}

/-- A number is converted to itself. -/
theorem int_of_lookup (h : row.lookup name = some (signed n)) : int name row = some n := by
  rw [int, h, Option.bind_some, readSigned_signed]

/-- Text without a carriage return stays as it is, whatever follows it. -/
theorem universalNewlines_append (h : '\r' ∉ text) (rest : Text) :
    universalNewlines (text ++ rest) = text ++ universalNewlines rest := by
  induction text with
  | nil => rfl
  | cons c text ih =>
    rw [List.mem_cons, not_or] at h
    obtain ⟨hc, htext⟩ := h
    rw [List.cons_append, universalNewlines, ih htext, List.cons_append]
    · rintro rest rfl
      exact absurd rfl hc
    · rintro rfl
      exact absurd rfl hc

theorem universalNewlines_of_notMem (h : '\r' ∉ text) : universalNewlines text = text := by
  have happend := universalNewlines_append h []
  rwa [List.append_nil, universalNewlines, List.append_nil] at happend

/-- The line ends between quotes change, and nothing else does. -/
theorem universalNewlines_doubled (value rest : Text) :
    universalNewlines (doubled value ++ '"' :: rest) =
      doubled (universalNewlines value) ++ '"' :: universalNewlines rest := by
  induction value using universalNewlines.induct with
  | case1 => rfl
  | case2 value ih =>
    show '\n' :: universalNewlines (doubled value ++ '"' :: rest) = _
    rw [ih]
    rfl
  | case3 value hnext ih =>
    have hnext' : ∀ text, doubled value ++ '"' :: rest ≠ '\n' :: text := by
      intro text heq
      rcases value with _ | ⟨c, value⟩
      · cases heq
      · rw [doubled, List.flatMap_cons] at heq
        split at heq
        · cases heq
        · obtain rfl : c = '\n' := (List.cons.inj heq).1
          exact hnext value rfl
    show universalNewlines ('\r' :: (doubled value ++ '"' :: rest)) = _
    rw [universalNewlines, universalNewlines, ih]
    · rfl
    · exact hnext
    · exact hnext'
  | case4 c value hcrlf hreturn ih =>
    have hc : c ≠ '\r' := fun heq => hreturn heq
    rw [universalNewlines, doubled, List.flatMap_cons, doubled, List.flatMap_cons]
    · split
      · show '"' :: '"' :: universalNewlines (doubled value ++ '"' :: rest) = _
        rw [ih]
        rfl
      · rw [List.append_assoc, universalNewlines_append, ← doubled, ih, List.append_assoc]
        · rfl
        · exact fun hmem => hc (List.mem_singleton.mp hmem).symm
    · exact hcrlf
    · exact hreturn

theorem universalNewlines_of_plain (h : Plain text) : universalNewlines text = text :=
  universalNewlines_of_notMem fun hmem => absurd (h '\r' hmem) (by decide)

theorem map_universalNewlines {texts : List Text} (h : ∀ field ∈ texts, Plain field) :
    texts.map universalNewlines = texts :=
  (List.map_congr_left fun field hfield => universalNewlines_of_plain (h field hfield)).trans
    (List.map_id texts)

/-- A field stays a field, and stands for its value with other line ends. -/
theorem exists_encodes (h : Encodes text value) : ∃ text',
    Encodes text' (universalNewlines value) ∧
      ∀ rest, universalNewlines (text ++ rest) = text' ++ universalNewlines rest := by
  rcases h with ⟨rfl, hplain⟩ | rfl
  · have hreturn : '\r' ∉ text := fun hmem => absurd (hplain '\r' hmem) (by decide)
    refine ⟨text, .inl ⟨(universalNewlines_of_notMem hreturn).symm, ?_⟩,
      universalNewlines_append hreturn⟩
    rwa [universalNewlines_of_notMem hreturn]
  · refine ⟨escaped (universalNewlines value), .inr rfl, fun rest => ?_⟩
    rw [escaped, List.cons_append, List.append_assoc, List.singleton_append, escaped,
      List.cons_append, List.append_assoc, List.singleton_append, ← universalNewlines_doubled]
    rfl

theorem exists_encodes_line {texts values : List Text} (h : List.Forall₂ Encodes texts values)
    (hne : texts ≠ []) : ∃ texts', texts' ≠ [] ∧
      List.Forall₂ Encodes texts' (values.map universalNewlines) ∧
      ∀ rest, universalNewlines (line texts ++ rest) = line texts' ++ universalNewlines rest := by
  induction h with
  | nil => exact absurd rfl hne
  | @cons text value texts values hfirst hrest ih =>
    obtain ⟨text', hencodes, hread⟩ := exists_encodes hfirst
    rcases texts with _ | ⟨next, texts⟩
    · cases hrest
      refine ⟨[text'], List.cons_ne_nil _ _, .cons hencodes .nil, fun rest => ?_⟩
      rw [line, join, List.intercalate_singleton, List.append_assoc, hread, line, join,
        List.intercalate_singleton, List.append_assoc]
      rfl
    · obtain ⟨texts', hne', hencodes', hread'⟩ := ih (List.cons_ne_nil _ _)
      refine ⟨text' :: texts', List.cons_ne_nil _ _, .cons hencodes hencodes', fun rest => ?_⟩
      rw [line_cons _ (List.cons_ne_nil _ _), List.append_assoc, hread, List.cons_append,
        line_cons _ hne', List.append_assoc, List.cons_append, ← hread']
      rfl

/-- A file of lines is read record by record. A line end between quotes is read as a line feed. -/
theorem read_lines {fields : List (List Text)} (names : List Text) (rows : List (List Text))
    (h : List.Forall₂ (List.Forall₂ Encodes) fields (names :: rows))
    (hne : ∀ texts ∈ fields, texts ≠ []) :
    read (fields.flatMap line) = some (rows.map fun values =>
      (names.map universalNewlines).zip (values.map universalNewlines)) := by
  have hfile : ∀ {fields values : List (List Text)},
      List.Forall₂ (List.Forall₂ Encodes) fields values → (∀ texts ∈ fields, texts ≠ []) →
      ∃ fields', (∀ texts ∈ fields', texts ≠ []) ∧
        List.Forall₂ (List.Forall₂ Encodes) fields' (values.map (List.map universalNewlines)) ∧
        universalNewlines (fields.flatMap line) = fields'.flatMap line := by
    intro fields values h hne
    induction h with
    | nil => exact ⟨[], List.forall_mem_nil _, .nil, rfl⟩
    | cons hfirst hrest ih =>
      obtain ⟨hne, hnes⟩ := List.forall_mem_cons.mp hne
      obtain ⟨texts', hne', hencodes, hread⟩ := exists_encodes_line hfirst hne
      obtain ⟨fields', hnes', hencodes', hread'⟩ := ih hnes
      refine ⟨texts' :: fields', List.forall_mem_cons.mpr ⟨hne', hnes'⟩,
        .cons hencodes hencodes', ?_⟩
      rw [List.flatMap_cons, hread, hread', List.flatMap_cons]
  obtain ⟨fields', hne', hencodes, hread⟩ := hfile h hne
  rw [read, hread, readFile_lines hencodes hne', List.map_cons, Option.map_some]
  simp only [List.map_map, Function.comp_def]

end Reading

/-! ## `timeseries.csv` -/

/-- What `plot_timeseries` draws. -/
structure Timeseries where
  /-- Seconds and microseconds. -/
  curve : List (ℤ × ℚ)
  /-- The seconds that are shaded. -/
  empty : List ℤ
  deriving DecidableEq

/-- `plot_timeseries`. -/
def plotTimeseries (fl : Rounding) (rows : List Dict) : Option Timeseries := do
  let seconds ← rows.mapM (int "second".toList)
  let p99 ← rows.mapM (int "p99_ns".toList)
  let counts ← rows.mapM (int "count".toList)
  pure
    { curve := seconds.zip (p99.map fun ns : ℤ => fl (fl ns / 1000))
      empty := ((seconds.zip counts).filter fun pair => pair.2 == 0).map Prod.fst }

/-- The names of its columns. -/
def timeseriesNames : List Text :=
  ["second", "count", "p50_ns", "p90_ns", "p99_ns", "max_ns"].map String.toList

/-- The percentile that is plotted for a second. -/
def plotted (fl : Rounding) (h : Histogram) : Nanos :=
  if h.count = 0 then 0 else (h.percentile fl (fl 99)).getD 0

section Seconds

variable {fl : Rounding} {seconds : List Histogram} {i : ℕ} {h : Histogram}

theorem mapM_eq_map {α β : Type*} {f : α → Option β} {g : α → β} {xs : List α}
    (h : ∀ x ∈ xs, f x = some (g x)) : xs.mapM f = some (xs.map g) := by
  induction xs with
  | nil => rfl
  | cons x xs ih =>
    rw [List.mapM_cons, h x List.mem_cons_self, ih fun y hy => h y (List.mem_cons_of_mem _ hy)]
    rfl

theorem secondRows_eq : secondRows fl seconds i =
    (seconds.zipIdx i).map fun x => secondFields fl x.2 x.1 := by
  induction seconds generalizing i with
  | nil => rfl
  | cons h seconds ih => rw [secondRows, List.zipIdx_cons, List.map_cons, ih]

/-- The values of a row by the names that are plotted. -/
theorem int_secondFields (fl : Rounding) (i : ℕ) (h : Histogram) :
    let row := timeseriesNames.zip ((secondFields fl i h).map signed)
    int "second".toList row = some (i : ℤ) ∧ int "p99_ns".toList row = some (plotted fl h) ∧
      int "count".toList row = some (h.count : ℤ) := by
  rw [secondFields, plotted]
  split
  · next hzero =>
    rw [hzero]
    exact ⟨int_of_lookup rfl, int_of_lookup rfl, int_of_lookup rfl⟩
  · exact ⟨int_of_lookup rfl, int_of_lookup rfl, int_of_lookup rfl⟩

theorem secondFields_ne_nil : secondFields fl i h ≠ [] := by
  rw [secondFields]
  split <;> exact List.cons_ne_nil _ _

theorem read_writeTimeseries (fl : Rounding) (seconds : List Histogram) :
    read (writeTimeseries fl seconds) = some ((seconds.zipIdx).map fun x =>
      timeseriesNames.zip ((secondFields fl x.2 x.1).map signed)) := by
  have hheader : timeseriesColumns ++ ['\n'] = line timeseriesNames := by decide +kernel
  have hrows : (secondRows fl seconds 0).flatMap Delimited.line =
      ((seconds.zipIdx).map fun x => (secondFields fl x.2 x.1).map signed).flatMap line := by
    rw [secondRows_eq, List.flatMap_map, List.flatMap_map]
    rfl
  have hfile : writeTimeseries fl seconds = (timeseriesNames ::
      (seconds.zipIdx).map fun x => (secondFields fl x.2 x.1).map signed).flatMap line := by
    rw [List.flatMap_cons, ← hheader, ← hrows, ← writeSeconds_eq, writeTimeseries,
      List.append_assoc]
    rfl
  have hplain : ∀ texts ∈ timeseriesNames ::
      (seconds.zipIdx).map (fun x => (secondFields fl x.2 x.1).map signed),
      ∀ field ∈ texts, Plain field := by
    refine List.forall_mem_cons.mpr ⟨plain_of_forall_all (by decide +kernel), ?_⟩
    intro texts htexts field hfield
    obtain ⟨x, -, rfl⟩ := List.mem_map.mp htexts
    obtain ⟨n, -, rfl⟩ := List.mem_map.mp hfield
    exact plain_signed n
  have hread := read_lines timeseriesNames
    ((seconds.zipIdx).map fun x => (secondFields fl x.2 x.1).map signed)
    (List.forall₂_same.mpr fun texts htexts => List.forall₂_same.mpr fun field hfield =>
      (hplain texts htexts field hfield).encodes) ?_
  · rw [hfile, hread, map_universalNewlines (hplain _ List.mem_cons_self), List.map_map]
    refine congrArg some (List.map_congr_left fun x hx => ?_)
    rw [Function.comp_apply,
      map_universalNewlines (hplain _ (List.mem_cons_of_mem _ (List.mem_map_of_mem hx)))]
  · refine List.forall_mem_cons.mpr ⟨by decide, fun texts htexts => ?_⟩
    obtain ⟨x, -, rfl⟩ := List.mem_map.mp htexts
    exact mt List.map_eq_nil_iff.mp secondFields_ne_nil

/-- The plot of a series. -/
theorem plotTimeseries_eq (fl : Rounding) (seconds : List Histogram) :
    (read (writeTimeseries fl seconds)).bind (plotTimeseries fl) = some
      { curve := (seconds.zipIdx).map fun x => ((x.2 : ℤ), fl (fl (plotted fl x.1) / 1000))
        empty := ((seconds.zipIdx).filter fun x => x.1.count == 0).map fun x => (x.2 : ℤ) } := by
  have hint := fun x : Histogram × ℕ => int_secondFields fl x.2 x.1
  rw [read_writeTimeseries, Option.bind_some, plotTimeseries]
  simp only [List.mapM_map, Function.comp_def]
  rw [mapM_eq_map fun x _ => (hint x).1, mapM_eq_map fun x _ => (hint x).2.1,
    mapM_eq_map fun x _ => (hint x).2.2]
  have hcount : ∀ x : Histogram × ℕ, ((x.1.count : ℤ) == 0) = (x.1.count == 0) := fun x => by
    rw [Bool.eq_iff_iff, beq_iff_eq, beq_iff_eq, Nat.cast_eq_zero]
  simp [List.zip_map', List.filter_map, Function.comp_def, hcount]

end Seconds

/-- The samples of a second. -/
def secondSamples (start : Instant) (samples : List Sample) (s : ℕ) : List Nanos :=
  (samples.filter fun x => decide (InSecond start s x.finished)).map Sample.latency

/-- What the plot of a series should show of some samples: each second up to the last one with a
sample, the percentile of the samples of a second, and the seconds without any. -/
structure Shows (fl : Rounding) (start : Instant) (samples : List Sample) (last : ℕ)
    (plot : Timeseries) : Prop where
  reached : ∃ x ∈ samples, InSecond start last x.finished
  within : ∀ x ∈ samples, ∃ s ≤ last, InSecond start s x.finished
  seconds : plot.curve.map Prod.fst = (List.range (last + 1)).map fun s : ℕ => (s : ℤ)
  percentile : ∀ (s : ℕ) (y : ℚ), ((s : ℤ), y) ∈ plot.curve →
    secondSamples start samples s = [] ∧ y = 0 ∨
      ∃ v, (Histogram.recordAll (secondSamples start samples s)).percentile fl (fl 99) = some v ∧
        y = fl (fl v / 1000)
  empty : ∀ s : ℕ, (s : ℤ) ∈ plot.empty ↔
    s < last ∧ ∀ x ∈ samples, ¬InSecond start s x.finished

section Samples

variable {start : Instant} {samples : List Sample} {perSecond : List Histogram}
  {histogram : Histogram} {s : ℕ}

theorem secondSamples_eq_nil_iff :
    secondSamples start samples s = [] ↔ ∀ x ∈ samples, ¬InSecond start s x.finished := by
  rw [secondSamples, List.map_eq_nil_iff, List.filter_eq_nil_iff]
  simp

/-- The plot of a series that accounts for some samples shows them. -/
theorem shows_of_accounted (fl : Rounding)
    (h : PerSecondAccounted start samples perSecond histogram) (hne : perSecond ≠ []) :
    ∃ plot last, (read (writeTimeseries fl perSecond)).bind (plotTimeseries fl) = some plot ∧
      Shows fl start samples last plot := by
  refine ⟨_, perSecond.length - 1, plotTimeseries_eq fl perSecond, ?_⟩
  have hpos : perSecond.length - 1 + 1 = perSecond.length :=
    Nat.sub_add_cancel (List.length_pos_iff.mpr hne)
  -- the entry of a second is the histogram of its samples
  have hentry : ∀ {s : ℕ} {entry : Histogram}, (entry, s) ∈ perSecond.zipIdx →
      s < perSecond.length ∧ entry = .recordAll (secondSamples start samples s) := by
    intro s entry hmem
    have hget := List.mk_mem_zipIdx_iff_getElem?.mp hmem
    have hlt := (List.getElem?_eq_some_iff.mp hget).1
    rw [h.entry s hlt] at hget
    exact ⟨hlt, (Option.some.inj hget).symm⟩
  constructor
  · exact h.last hne
  · intro x hx
    obtain ⟨s, hs, hin⟩ := h.within x hx
    exact ⟨s, Nat.le_sub_one_of_lt hs, hin⟩
  · have hindices : perSecond.zipIdx.map Prod.snd = List.range perSecond.length := by
      rw [List.zipIdx_map_snd, List.range_eq_range']
    rw [hpos, ← hindices, List.map_map, List.map_map]
    rfl
  · intro s y hmem
    obtain ⟨⟨entry, s'⟩, hx, heq⟩ := List.mem_map.mp hmem
    obtain ⟨hs, rfl⟩ := Prod.mk.inj heq
    obtain rfl : s' = s := by exact_mod_cast hs
    obtain ⟨-, rfl⟩ := hentry hx
    rw [plotted]
    split
    · next hzero =>
      rw [Histogram.count_recordAll, List.length_eq_zero_iff] at hzero
      exact .inl ⟨hzero, by simp [fl.map_zero]⟩
    · next hcount =>
      obtain ⟨v, hv⟩ := Histogram.exists_percentile fl hcount (fl 99)
      exact .inr ⟨v, hv, by rw [hv]; rfl⟩
  · intro s
    rw [← secondSamples_eq_nil_iff]
    constructor
    · intro hmem
      obtain ⟨⟨entry, s'⟩, hx, hs⟩ := List.mem_map.mp hmem
      obtain rfl : s' = s := by exact_mod_cast hs
      obtain ⟨hx, hzero⟩ := List.mem_filter.mp hx
      obtain ⟨hlt, rfl⟩ := hentry hx
      rw [beq_iff_eq, Histogram.count_recordAll, List.length_eq_zero_iff] at hzero
      refine ⟨lt_of_le_of_ne (Nat.le_sub_one_of_lt hlt) ?_, hzero⟩
      -- the last second has a sample
      rintro rfl
      obtain ⟨x, hx, hin⟩ := h.last hne
      exact secondSamples_eq_nil_iff.mp hzero x hx hin
    · rintro ⟨hlt, hnil⟩
      have hx : (Histogram.recordAll (secondSamples start samples s), s) ∈ perSecond.zipIdx :=
        List.mk_mem_zipIdx_iff_getElem?.mpr (h.entry s (hlt.trans_le (Nat.sub_le _ _)))
      refine List.mem_map.mpr ⟨_, List.mem_filter.mpr ⟨hx, ?_⟩, rfl⟩
      rw [beq_iff_eq, Histogram.count_recordAll, hnil]
      rfl

end Samples

/-- The report of a closed-loop run with a series leaves no `timeseries.csv` if the run has no
sample, and otherwise one that is plotted: the seconds of the run from its first to its last with a
sample, each with the percentile of its own samples, and those without any shaded. -/
theorem timeseries_plotted {Reply : Type*} (fl : Rounding) (perform : Reply → Option Exchange)
    (started : Instant) (threads : ℕ) (resolution : Nanos) (schedule : List (ℕ × Call Reply))
    (plan : ClosedLoopPlan) (htimeseries : plan.timeseries = true)
    (state : ClosedLoop.State Reply)
    (hrun : (ClosedLoop.spawn Reply plan started threads).run
      (ConnectionWorker.step perform (plan.window started)) schedule = some state)
    (old : Option Text) (report : WriteCsv.Report)
    (hreport : report.perSecond = (ClosedLoop.collect fl plan resolution state).perSecond) :
    let samples := ClosedLoop.samples perform (plan.window started) state
    ((WriteCsv.writeCsv fl old report).timeseries = none ↔ samples = []) ∧
      ∀ file, (WriteCsv.writeCsv fl old report).timeseries = some file →
        ∃ plot last, (read file).bind (plotTimeseries fl) = some plot ∧
          Shows fl (plan.window started).recordFrom samples last plot := by
  intro samples
  obtain ⟨hstart, htimed, hshared⟩ := ClosedLoop.run_timed htimeseries hrun
  have h := ClosedLoop.accounted_of_timed fl resolution hstart htimed hshared
  rw [← hreport] at h
  by_cases hseconds : report.perSecond = []
  · have hnone : (WriteCsv.writeCsv fl old report).timeseries = none := if_pos hseconds
    have hsamples : samples = [] := by
      refine List.eq_nil_iff_forall_not_mem.mpr fun x hx => ?_
      obtain ⟨s, hs, -⟩ := h.within x hx
      rw [hseconds] at hs
      exact absurd hs (Nat.not_lt_zero s)
    refine ⟨iff_of_true hnone hsamples, fun file hfile => ?_⟩
    rw [hnone] at hfile
    cases hfile
  · have hsome : (WriteCsv.writeCsv fl old report).timeseries =
        some (writeTimeseries fl report.perSecond) := if_neg hseconds
    have hsamples : samples ≠ [] := by
      obtain ⟨x, hx, -⟩ := h.last hseconds
      exact List.ne_nil_of_mem hx
    refine ⟨iff_of_false (by rw [hsome]; exact Option.some_ne_none _) hsamples, ?_⟩
    intro file hfile
    rw [hsome] at hfile
    cases hfile
    exact shows_of_accounted fl h hseconds

/-- Two workers, with samples in the first and in the third second. -/
theorem timeseries_plotted_gap :
    let plan : ClosedLoopPlan := { duration := 3000, timeseries := true }
    ∃ state : ClosedLoop.State Exchange,
      (ClosedLoop.spawn Exchange plan 0 2).run (ConnectionWorker.step some (plan.window 0))
          [(0, .now 0), (1, .now 0), (0, .connect .connected), (1, .connect .connected),
            (0, .perform ⟨.succeeded, 5, true⟩), (1, .perform ⟨.rejected, 7, true⟩),
            (0, .now 2_100_000_000), (1, .now 400_000_000)] = some state ∧
        ∃ report : WriteCsv.Report,
          report.perSecond = (ClosedLoop.collect .exact plan 0 state).perSecond ∧
            ∃ file plot last, (WriteCsv.writeCsv .exact none report).timeseries = some file ∧
              (read file).bind (plotTimeseries .exact) = some plot ∧
              Shows .exact 0 (ClosedLoop.samples some (plan.window 0) state) last plot := by
  intro plan
  refine Interleaving.exists_run_eq (fun state =>
    (ClosedLoop.samples some (plan.window 0) state).length) 2 (by decide +kernel) ?_
  intro state hrun hlength
  let report : WriteCsv.Report := ⟨[], [], [], 2, 2, 2, 0, none, .empty,
    (ClosedLoop.collect .exact plan 0 state).perSecond⟩
  refine ⟨report, rfl, ?_⟩
  obtain ⟨hnone, hplotted⟩ :=
    timeseries_plotted .exact some 0 2 0 _ plan rfl state hrun none report rfl
  have hsamples : ClosedLoop.samples some (plan.window 0) state ≠ [] :=
    List.ne_nil_of_length_eq_add_one hlength
  obtain ⟨file, hfile⟩ := Option.ne_none_iff_exists'.mp (mt hnone.mp hsamples)
  obtain ⟨plot, last, hplot, hshows⟩ := hplotted file hfile
  exact ⟨file, plot, last, hfile, hplot, hshows⟩

end Plot

end Dariyanaap

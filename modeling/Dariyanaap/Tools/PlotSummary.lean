import Mathlib.Data.Char
import Mathlib.Data.Finset.Sort
import Mathlib.Data.List.Lex
import Dariyanaap.Tools.PlotFiles

/-!
# The plotted summary of a sweep

`plot_summary` (`tools/plot.py`) draws throughput against connections, one curve for each mode: a
row of a closed loop and one of an open loop are no points of one curve. A row that started fewer
connections than it asked for is marked.

The rows of a sweep, in whatever order its runs were made, are the points of these curves, each
once (`sweep_plotted`).
-/

namespace Dariyanaap

open Binary64 (roundHalfEven abs_roundHalfEven_sub_le)
open Delimited (decimal signed isDigit_of_mem_decimal readDecimal readDecimal_decimal)
open Quoting Csv WriteCsv

namespace Plot

/-! ## Reading a throughput -/

/-- Read a number without a sign and without an exponent. -/
def readFixed (text : Text) : Option ℚ :=
  match text.splitOn '.' with
  | [whole] => (readDecimal whole).map fun n : ℕ => (n : ℚ)
  | [whole, digits] => do
    let n ← readDecimal whole
    let m ← readDecimal digits
    pure (n + m / 10 ^ digits.length)
  | _ => none

/-- Read what a stream writes for a `double`. -/
def readFloat (fl : Rounding) (text : Text) : Option Double :=
  if text = "nan".toList then some .nan
  else if text = "inf".toList then some (.infinite false)
  else if text = "-inf".toList then some (.infinite true)
  else
    match text with
    | '-' :: text => (readFixed text).map fun x => .finite (fl (-x))
    | text => (readFixed text).map fun x => .finite (fl x)

/-- `float(row[name])`. -/
def float (fl : Rounding) (name : Text) (row : Dict) : Option Double :=
  (row.lookup name).bind (readFloat fl)

/-- A number to two decimals. -/
def hundredths (x : ℚ) : ℚ :=
  let nearest : ℚ := roundHalfEven (|x| * 100) / 100
  if x < 0 then -nearest else nearest

/-- What is read of a `double` that was written with two decimals. -/
def asRead (fl : Rounding) : Double → Double
  | .finite x => .finite (fl (hundredths x))
  | .infinite negative => .infinite negative
  | .nan => .nan

section Reading

variable {x : ℚ} {n : ℕ}

/-- Two decimals are off by half a hundredth at most. -/
theorem abs_hundredths_sub_le (x : ℚ) : |hundredths x - x| ≤ 1 / 200 := by
  have hround := abs_roundHalfEven_sub_le (x := |x| * 100) (by positivity)
  have hnearest : |(roundHalfEven (|x| * 100) : ℚ) / 100 - (|x|)| ≤ 1 / 200 := by
    rw [abs_le] at hround ⊢
    constructor <;> linarith
  rw [hundredths]
  split
  · next hneg =>
    rw [abs_of_neg hneg] at hnearest ⊢
    rw [← abs_neg]
    convert hnearest using 2
    ring
  · next hpos =>
    rwa [abs_of_nonneg (not_lt.mp hpos)] at hnearest ⊢

theorem point_notMem (n : ℕ) : '.' ∉ decimal n :=
  fun hmem => absurd (isDigit_of_mem_decimal hmem) (by decide)

theorem readFixed_decimal (n : ℕ) : readFixed (decimal n) = some n := by
  have hsplit : (decimal n).splitOn '.' = [decimal n] := by
    have h := List.splitOn_intercalate '.' (List.forall_mem_singleton.mpr (point_notMem n))
      (List.cons_ne_nil (decimal n) [])
    rwa [List.intercalate_singleton] at h
  rw [readFixed, hsplit]
  simp [readDecimal_decimal]

/-- Hundredths are read from the digits in front of the point and the two behind it. -/
theorem readFixed_hundredths (n : ℕ) : readFixed (decimal (n / 100) ++ '.' ::
    (decimal (n % 100 / 10) ++ decimal (n % 10))) = some ((n : ℚ) / 100) := by
  have hdigits : ∀ m < 100, readDecimal (decimal (m / 10) ++ decimal (m % 10)) = some m ∧
      (decimal (m / 10) ++ decimal (m % 10)).length = 2 := by decide +kernel
  obtain ⟨hread, hlength⟩ := hdigits (n % 100) (Nat.mod_lt n (by decide))
  rw [Nat.mod_mod_of_dvd n (by decide)] at hread hlength
  have hsplit : (decimal (n / 100) ++ '.' ::
      (decimal (n % 100 / 10) ++ decimal (n % 10))).splitOn '.' =
        [decimal (n / 100), decimal (n % 100 / 10) ++ decimal (n % 10)] := by
    have hbehind : '.' ∉ decimal (n % 100 / 10) ++ decimal (n % 10) :=
      List.not_mem_append (point_notMem _) (point_notMem _)
    rw [List.splitOn_append_cons_self_of_not_mem (point_notMem _)]
    have h := List.splitOn_intercalate '.' (List.forall_mem_singleton.mpr hbehind)
      (List.cons_ne_nil _ [])
    rw [List.intercalate_singleton] at h
    rw [h]
  rw [readFixed, hsplit]
  dsimp only
  rw [readDecimal_decimal, hread, hlength]
  have hsum : ((n / 100 : ℕ) : ℚ) + ((n % 100 : ℕ) : ℚ) / 10 ^ 2 = n / 100 := by
    have hn : (n : ℚ) = (100 * (n / 100) + n % 100 : ℕ) := by rw [Nat.div_add_mod]
    rw [hn]
    push_cast
    ring
  exact congrArg some hsum

/-- Digits are no name, and have no sign. -/
theorem readFloat_isDigit {c : Char} {rest : Text} (fl : Rounding) (hc : c.isDigit = true)
    (h : readFixed (c :: rest) = some x) :
    readFloat fl (c :: rest) = some (.finite (fl x)) ∧
      readFloat fl ('-' :: c :: rest) = some (.finite (fl (-x))) := by
  have hne : ∀ (d : Char) (text : Text), d.isDigit = false → c :: rest ≠ d :: text := by
    rintro d text hd ⟨⟩
    rw [hc] at hd
    cases hd
  have hnames : c :: rest ≠ "nan".toList ∧ c :: rest ≠ "inf".toList ∧ c :: rest ≠ "-inf".toList :=
    ⟨hne 'n' _ rfl, hne 'i' _ rfl, hne '-' _ rfl⟩
  have hnames' : '-' :: c :: rest ≠ "nan".toList ∧ '-' :: c :: rest ≠ "inf".toList ∧
      '-' :: c :: rest ≠ "-inf".toList :=
    ⟨fun heq => absurd (List.cons.inj heq).1 (by decide),
      fun heq => absurd (List.cons.inj heq).1 (by decide),
      fun heq => hne 'i' _ rfl (List.cons.inj heq).2⟩
  constructor
  · rw [readFloat, if_neg hnames.1, if_neg hnames.2.1, if_neg hnames.2.2, h, Option.map_some]
    rintro text heq
    exact hne '-' _ rfl heq
  · rw [readFloat, if_neg hnames'.1, if_neg hnames'.2.1, if_neg hnames'.2.2, h, Option.map_some]

/-- A `double` that was written with two decimals is read to two decimals. -/
theorem readFloat_fixedTwo (fl : Rounding) (x : Double) :
    readFloat fl (fixedTwo x) = some (asRead fl x) := by
  cases x with
  | nan => rfl
  | infinite negative => cases negative <;> rfl
  | finite x =>
    have hread := readFixed_hundredths (roundHalfEven (|x| * 100))
    rw [fixedTwo, List.append_assoc, asRead, hundredths]
    rcases hdigits : decimal (roundHalfEven (|x| * 100) / 100) with _ | ⟨c, digits⟩
    · exact absurd hdigits Nat.toDigits_ne_nil
    · have hc : c.isDigit = true := isDigit_of_mem_decimal (hdigits ▸ List.mem_cons_self)
      rw [hdigits] at hread
      obtain ⟨hplain, hminus⟩ := readFloat_isDigit fl hc hread
      split
      · exact hminus
      · exact hplain

end Reading

/-! ## The curves -/

/-- `row.get("mode", "closed-loop")`. -/
def mode (row : Dict) : Text := (row.lookup "mode".toList).getD "closed-loop".toList

/-- What `plot_summary` draws for a mode. -/
structure Curve where
  mode : Text
  /-- Connections and requests per second. -/
  throughput : List (ℤ × Double)
  /-- The points that are marked. -/
  short : List (ℤ × Double)
  deriving DecidableEq

/-- The row started fewer connections than it asked for. -/
def isShort (row : Dict) : Option Bool := do
  let started ← int "connections_started".toList row
  let requested ← int "connections_requested".toList row
  pure (decide (started < requested))

/-- The loop over the modes. -/
def plotMode (fl : Rounding) (rows : List Dict) (m : Text) : Option Curve := do
  let pick := rows.filter fun row => mode row = m
  let keys ← pick.mapM (int "connections_requested".toList)
  -- the sort is stable and by the keys only
  let pick := ((keys.zip pick).insertionSort fun a b => a.1 ≤ b.1).map Prod.snd
  let conns ← pick.mapM (int "connections_requested".toList)
  let rps ← pick.mapM (float fl "per_second".toList)
  let marks ← pick.mapM isShort
  let short := ((pick.zip marks).filter Prod.snd).map Prod.fst
  let shortConns ← short.mapM (int "connections_requested".toList)
  let shortRps ← short.mapM (float fl "per_second".toList)
  pure { mode := m, throughput := conns.zip rps, short := shortConns.zip shortRps }

/-- `plot_summary`. -/
def plotSummary (fl : Rounding) (rows : List Dict) : Option (List Curve) :=
  ((rows.map mode).toFinset.sort).mapM (plotMode fl rows)

/-- The row of a run, as it is read. -/
def dict (fl : Rounding) (report : Report) : Dict :=
  columns.zip ((values fl report).map universalNewlines)

/-- The throughput that is plotted for a run. -/
def rate (fl : Rounding) (report : Report) : Double :=
  match report.latency with
  | some summary => asRead fl (summary.perSecond fl)
  | none => .finite (fl 0)

/-- The point of a run. -/
def point (fl : Rounding) (report : Report) : ℤ × Double := (report.connections, rate fl report)

/-- Some points are those of some runs: sorted by connections, and those of as many connections in
the order of the runs. -/
structure Draws (fl : Rounding) (reports : List Report) (points : List (ℤ × Double)) : Prop where
  sorted : points.Pairwise fun a b => a.1 ≤ b.1
  runs : ∀ n : ℤ, (points.filter fun p => p.1 = n) =
    (reports.filter fun report => (report.connections : ℤ) = n).map (point fl)

section Sweep

variable {fl : Rounding} {reports : List Report} {report : Report}

theorem universalNewlines_plain_latencyFields :
    (latencyFields fl report).map universalNewlines = latencyFields fl report :=
  map_universalNewlines plain_latencyFields

theorem dict_eq : dict fl report = columns.zip (universalNewlines report.target ::
    universalNewlines report.protocol :: universalNewlines report.mode ::
      decimal report.connections :: decimal report.started :: decimal report.opened ::
        signed report.resolution :: latencyFields fl report) := by
  rw [dict, values]
  simp only [List.map_cons, universalNewlines_plain_latencyFields,
    universalNewlines_of_plain (plain_decimal _), universalNewlines_of_plain (plain_signed _)]

theorem mode_dict : mode (dict fl report) = universalNewlines report.mode := by
  rw [dict_eq]
  rfl

theorem int_connections :
    int "connections_requested".toList (dict fl report) = some (report.connections : ℤ) := by
  rw [dict_eq]
  exact int_of_lookup rfl

theorem int_started :
    int "connections_started".toList (dict fl report) = some (report.started : ℤ) := by
  rw [dict_eq]
  exact int_of_lookup rfl

theorem float_perSecond :
    float fl "per_second".toList (dict fl report) = some (rate fl report) := by
  rw [dict_eq, float, rate, latencyFields]
  cases report.latency with
  | some summary => exact readFloat_fixedTwo fl (summary.perSecond fl)
  | none =>
    have hzero : readFixed ['0'] = some 0 := by rw [← Nat.cast_zero]; exact readFixed_decimal 0
    exact (readFloat_isDigit fl rfl hzero).1

theorem isShort_dict :
    isShort (dict fl report) = some (decide (report.started < report.connections)) := by
  rw [isShort, int_started, int_connections]
  simp

theorem mapM_dict {α : Type*} {f : Dict → Option α} {g : Report → α}
    (h : ∀ report, f (dict fl report) = some (g report)) (reports : List Report) :
    (reports.map (dict fl)).mapM f = some (reports.map g) := by
  rw [List.mapM_map]
  exact mapM_eq_map fun report _ => h report

/-- The runs of a mode, sorted as the rows of their file are. -/
def ordered (m : Text) (reports : List Report) : List Report :=
  (reports.filter fun report => universalNewlines report.mode = m).insertionSort
    fun a b => (a.connections : ℤ) ≤ b.connections

/-- The curve of a mode. -/
theorem plotMode_dict (fl : Rounding) (reports : List Report) (m : Text) :
    plotMode fl (reports.map (dict fl)) m = some
      { mode := m
        throughput := (ordered m reports).map (point fl)
        short := ((ordered m reports).filter fun report =>
          report.started < report.connections).map (point fl) } := by
  have hpick : (reports.map (dict fl)).filter (fun row => mode row = m) =
      (reports.filter fun report => universalNewlines report.mode = m).map (dict fl) := by
    rw [List.filter_map]
    simp only [Function.comp_def, mode_dict]
  have hsort : (((reports.filter fun report => universalNewlines report.mode = m).map
      fun report => ((report.connections : ℤ), dict fl report)).insertionSort
        fun a b => a.1 ≤ b.1) =
      (ordered m reports).map fun report => ((report.connections : ℤ), dict fl report) := by
    exact (List.map_insertionSort (fun a b : Report => (a.connections : ℤ) ≤ b.connections)
      (fun a b : ℤ × Dict => a.1 ≤ b.1) _ _ fun a _ b _ => Iff.rfl).symm
  -- the rows in the order in which they are plotted
  have hrows : (((reports.filter fun report => universalNewlines report.mode = m).map
      fun report => ((report.connections : ℤ), dict fl report)).insertionSort
        fun a b => a.1 ≤ b.1).map Prod.snd = (ordered m reports).map (dict fl) := by
    rw [hsort, List.map_map]
    rfl
  have hshort : (((ordered m reports).map fun report =>
      (dict fl report, decide (report.started < report.connections))).filter Prod.snd).map
        Prod.fst = ((ordered m reports).filter fun report =>
          decide (report.started < report.connections)).map (dict fl) := by
    rw [List.filter_map, List.map_map]
    rfl
  rw [plotMode, hpick, mapM_dict (fun _ => int_connections)]
  simp only [Option.bind_eq_bind, Option.bind_some, List.zip_map', hrows, hshort,
    mapM_dict (fun _ => isShort_dict), mapM_dict (fun _ => int_connections),
    mapM_dict (fun _ => float_perSecond)]
  rfl

/-- A sort by keys keeps those of one key in their order. -/
theorem filter_insertionSort {α : Type*} (key : α → ℤ) (xs : List α) (n : ℤ) :
    (xs.insertionSort fun a b => key a ≤ key b).filter (fun a => key a = n) =
      xs.filter fun a => key a = n := by
  have hequal : (xs.filter fun a => key a = n).Pairwise fun a b => key a ≤ key b := by
    refine List.pairwise_of_forall_mem_list fun a ha b hb => ?_
    have ha := of_decide_eq_true (List.mem_filter.mp ha).2
    have hb := of_decide_eq_true (List.mem_filter.mp hb).2
    exact (ha.trans hb.symm).le
  have hsublist := (List.sublist_insertionSort hequal List.filter_sublist).filter
    fun a => decide (key a = n)
  simp only [List.filter_filter, Bool.and_self] at hsublist
  refine (hsublist.eq_of_length ?_).symm
  exact ((List.perm_insertionSort _ xs).filter _).length_eq.symm

/-- The rows of a mode that are kept are drawn at their points. -/
theorem draws_ordered (fl : Rounding) (reports : List Report) (m : Text) (kept : Report → Bool) :
    Draws fl (reports.filter fun report => universalNewlines report.mode = m ∧ kept report)
      (((ordered m reports).filter kept).map (point fl)) := by
  constructor
  · rw [List.pairwise_map]
    exact List.Pairwise.filter _ (List.pairwise_insertionSort _ _)
  · intro n
    have hsorted := filter_insertionSort (fun report : Report => (report.connections : ℤ))
      (reports.filter fun report => universalNewlines report.mode = m) n
    rw [← ordered] at hsorted
    have hpoint : ((fun p : ℤ × Double => decide (p.1 = n)) ∘ point fl) =
        fun report => decide ((report.connections : ℤ) = n) := rfl
    rw [List.filter_map, hpoint, List.filter_comm, hsorted]
    simp only [List.filter_filter]
    congr 1
    refine List.filter_congr fun report _ => ?_
    rw [Bool.eq_iff_iff]
    simp [and_comm, and_left_comm]

/-- The file of a sweep is read as the rows of its runs. -/
theorem read_sweep (fl : Rounding) (hne : reports ≠ []) :
    ∃ summary, sweep fl none reports = some summary ∧
      read summary = some (reports.map (dict fl)) := by
  rcases reports with _ | ⟨report, reports⟩
  · exact absurd rfl hne
  · have hfile : header ++ (report :: reports).flatMap (row fl) =
        (columns :: (report :: reports).map (fields fl)).flatMap line := by
      rw [header_eq, rows_eq, List.flatMap_cons]
    have hsweep : sweep fl none (report :: reports) =
        some (header ++ (report :: reports).flatMap (row fl)) := by
      rw [List.flatMap_cons, ← List.append_assoc, ← sweep_some]
      rfl
    have hcolumns : columns.map universalNewlines = columns := by decide +kernel
    refine ⟨_, hsweep, ?_⟩
    rw [hfile, read_lines columns ((report :: reports).map (values fl))
      (.cons encodes_columns (encodes_reports _))
      (List.forall_mem_cons.mpr ⟨by decide, fields_ne_nil _⟩), hcolumns, List.map_map]
    rfl

end Sweep

/-- The summary of a sweep is plotted as one curve for each mode, in the order of their names. The
curve has one point for each run of the mode, sorted by connections, and the runs that started
fewer connections than they asked for are marked. A point is at the connections of its run and at
its throughput, to half a hundredth; a run without a distribution is at zero. -/
theorem sweep_plotted (fl : Rounding) {reports : List Report} (hne : reports ≠ []) :
    ∃ summary curves, sweep fl none reports = some summary ∧
      (read summary).bind (plotSummary fl) = some curves ∧
      (curves.map Curve.mode).Pairwise (· < ·) ∧
      (∀ m, m ∈ curves.map Curve.mode ↔ ∃ report ∈ reports, universalNewlines report.mode = m) ∧
      (∀ curve ∈ curves,
        Draws fl (reports.filter fun report => universalNewlines report.mode = curve.mode)
          curve.throughput ∧
        Draws fl (reports.filter fun report => universalNewlines report.mode = curve.mode ∧
          report.started < report.connections) curve.short) ∧
      ∀ report ∈ reports,
        (∀ s x, report.latency = some s → s.perSecond fl = .finite x →
          ∃ y, rate fl report = .finite (fl y) ∧ |y - x| ≤ 1 / 200) ∧
        (report.latency = none → rate fl report = .finite 0) := by
  obtain ⟨summary, hsummary, hread⟩ := read_sweep fl hne
  let modes := ((reports.map (dict fl)).map mode).toFinset.sort
  have hplot : (read summary).bind (plotSummary fl) = some (modes.map fun m =>
      { mode := m
        throughput := (ordered m reports).map (point fl)
        short := ((ordered m reports).filter fun report =>
          report.started < report.connections).map (point fl) }) := by
    rw [hread, Option.bind_some, plotSummary]
    exact mapM_eq_map fun m _ => plotMode_dict fl reports m
  refine ⟨summary, _, hsummary, hplot, ?_, fun m => ?_, fun curve hcurve => ?_,
    fun report _ => ⟨fun s x hlatency hperSecond => ?_, fun hlatency => ?_⟩⟩
  · rw [List.map_map, Function.comp_def, List.map_id']
    exact (Finset.sortedLT_sort _).pairwise
  · rw [List.map_map, Function.comp_def, List.map_id', Finset.mem_sort, List.mem_toFinset,
      List.map_map, List.mem_map]
    simp only [Function.comp_apply, mode_dict]
  · obtain ⟨m, -, rfl⟩ := List.mem_map.mp hcurve
    constructor
    · have hall := draws_ordered fl reports m fun _ => true
      simpa using hall
    · have hshort := draws_ordered fl reports m fun report =>
        decide (report.started < report.connections)
      simpa using hshort
  · refine ⟨hundredths x, ?_, abs_hundredths_sub_le x⟩
    rw [rate, hlatency]
    show asRead fl (s.perSecond fl) = _
    rw [hperSecond]
    rfl
  · rw [rate, hlatency]
    exact congrArg Double.finite fl.map_zero

/-- A sweep that comes down again, with a run of the other mode in between. -/
theorem sweep_plotted_two_modes :
    let closed := "closed-loop".toList
    let reports : List Report :=
      [⟨"a:1".toList, "raw".toList, closed, 8, 8, 8, 41, none, .empty, []⟩,
        ⟨"a:1".toList, "raw".toList, "open-loop".toList, 4, 4, 4, 41, none, .empty, []⟩,
        ⟨"a:1".toList, "raw".toList, closed, 2, 1, 1, 41, none, .empty, []⟩]
    ∃ summary curves, sweep .exact none reports = some summary ∧
      (read summary).bind (plotSummary .exact) = some curves ∧
      ∃ curve ∈ curves, curve.mode = closed ∧
        Draws .exact (reports.filter fun report => universalNewlines report.mode = closed)
          curve.throughput := by
  intro closed reports
  obtain ⟨summary, curves, hsummary, hplot, -, hmodes, hdraws, -⟩ :=
    sweep_plotted .exact (List.cons_ne_nil _ _ : reports ≠ [])
  obtain ⟨curve, hcurve, hmode⟩ := List.mem_map.mp
    ((hmodes closed).mpr ⟨_, List.mem_cons_self, by decide⟩)
  refine ⟨summary, curves, hsummary, hplot, curve, hcurve, hmode, ?_⟩
  rw [← hmode]
  exact (hdraws curve hcurve).1

end Plot

end Dariyanaap

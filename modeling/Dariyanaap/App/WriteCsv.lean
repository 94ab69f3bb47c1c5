import Dariyanaap.Stats.Csv
import Dariyanaap.Stats.SummaryCsv

/-!
# The files of a run

`write_csv` (`apps/dariyanaap.cpp`). The histogram and the series are written anew for each run,
while `summary.csv` is appended to: one header, and then one row for each run of a sweep. Its first
three columns are strings that a user chose. Whatever they hold, a row has the fields of the header
and the strings are read back as they were (`summary_never_shifts`).
-/

namespace Dariyanaap

open Delimited (decimal signed)
open Quoting Csv

namespace WriteCsv

/-- What `write_csv` is given, as far as it writes it. -/
structure Report where
  /-- `plan.target.str()`. -/
  target : Text
  /-- `flags.text("protocol", "raw")`. -/
  protocol : Text
  mode : Text
  connections : ℕ
  started : ℕ
  opened : ℕ
  resolution : Nanos
  latency : Option Summary
  histogram : Histogram
  perSecond : List Histogram

/-- The contents of the three files. -/
structure Files where
  summary : Text
  histogram : Text
  /-- Written for a run with a series only. -/
  timeseries : Option Text

/-- The header of a fresh `summary.csv`. -/
def header : Text :=
  ("target,protocol,mode,connections_requested,connections_started," ++
    "connections_opened,clock_resolution_ns,").toList ++ writeSummaryHeader

/-- The row of a run. -/
def row (fl : Rounding) (report : Report) : Text :=
  quoted report.target ++ ',' ::
    (quoted report.protocol ++ ',' ::
      (quoted report.mode ++ ',' ::
        (decimal report.connections ++ ',' ::
          (decimal report.started ++ ',' ::
            (decimal report.opened ++ ',' ::
              (signed report.resolution ++ ',' ::
                match report.latency with
                | some summary => writeSummaryRow fl summary
                -- a run without a distribution still gets a row
                | none => writeAbsentSummaryRow))))))

/-- `write_csv`, given what `summary.csv` held if it was there. -/
def writeCsv (fl : Rounding) (old : Option Text) (report : Report) : Files where
  summary :=
    (match old with
      | none => header
      | some summary => summary) ++ row fl report
  histogram := writeHistogram report.histogram
  timeseries :=
    if report.perSecond = [] then none else some (writeTimeseries fl report.perSecond)

/-- `summary.csv` after the runs of a sweep. -/
def sweep (fl : Rounding) (old : Option Text) (reports : List Report) : Option Text :=
  reports.foldl (fun summary report => some (writeCsv fl summary report).summary) old

/-! ## Records -/

/-- The names of the columns. -/
def columns : List Text :=
  ["target", "protocol", "mode", "connections_requested", "connections_started",
    "connections_opened", "clock_resolution_ns"].map String.toList ++ summaryNames

/-- The fields that come from the summary of a run. -/
def latencyFields (fl : Rounding) (report : Report) : List Text :=
  match report.latency with
  | some summary => summaryFields fl summary
  | none => absentFields

/-- The values of a row. -/
def values (fl : Rounding) (report : Report) : List Text :=
  report.target :: report.protocol :: report.mode :: decimal report.connections ::
    decimal report.started :: decimal report.opened :: signed report.resolution ::
      latencyFields fl report

/-- The fields of a row, as they are written. -/
def fields (fl : Rounding) (report : Report) : List Text :=
  quoted report.target :: quoted report.protocol :: quoted report.mode ::
    decimal report.connections :: decimal report.started :: decimal report.opened ::
      signed report.resolution :: latencyFields fl report

theorem header_eq : header = line columns := by
  have hne : summaryNames ≠ [] := List.cons_ne_nil _ _
  rw [columns, line_append _ hne, ← writeSummaryHeader_eq]
  -- the names in front are those that the other file does not write
  refine congrArg (· ++ writeSummaryHeader) ?_
  decide +kernel

theorem length_columns : columns.length = 17 := by decide

section Rows

variable {fl : Rounding} {report : Report}

theorem length_latencyFields : (latencyFields fl report).length = 10 := by
  unfold latencyFields
  split
  · rfl
  · rfl

/-- A row has as many values as the header has names. -/
theorem length_values : (values fl report).length = columns.length := by
  simp [values, length_latencyFields, length_columns]

theorem plain_latencyFields : ∀ field ∈ latencyFields fl report, Plain field := by
  unfold latencyFields
  split
  · exact plain_summaryFields fl _
  · exact plain_absentFields

/-- A row is the line of its fields. -/
theorem row_eq : row fl report = line (fields fl report) := by
  have hne : latencyFields fl report ≠ [] := by
    rw [← List.length_pos_iff, length_latencyFields]
    decide
  have hlatency : (match report.latency with
      | some summary => writeSummaryRow fl summary
      | none => writeAbsentSummaryRow) = line (latencyFields fl report) := by
    unfold latencyFields
    split
    · exact writeSummaryRow_eq fl _
    · exact writeAbsentSummaryRow_eq
  rw [row, hlatency]
  simp [fields, line_cons, hne]

/-- The fields of a row stand for its values. -/
theorem encodes_fields : List.Forall₂ Encodes (fields fl report) (values fl report) := by
  refine .cons (encodes_quoted _) (.cons (encodes_quoted _) (.cons (encodes_quoted _) ?_))
  refine .cons (plain_decimal _).encodes (.cons (plain_decimal _).encodes ?_)
  refine .cons (plain_decimal _).encodes (.cons (plain_signed _).encodes ?_)
  exact List.forall₂_same.mpr fun field hfield => (plain_latencyFields field hfield).encodes

/-- The names of the columns stand for themselves. -/
theorem encodes_columns : List.Forall₂ Encodes columns columns := by
  refine List.forall₂_same.mpr fun name hname => Plain.encodes ?_
  rcases List.mem_append.mp hname with hname | hname
  · exact plain_of_forall_all (by decide +kernel) name hname
  · exact plain_summaryNames name hname

/-- The rows of some runs, one after the other. -/
theorem encodes_reports (reports : List Report) :
    List.Forall₂ (List.Forall₂ Encodes) (reports.map (fields fl)) (reports.map (values fl)) := by
  rw [List.forall₂_map_left_iff, List.forall₂_map_right_iff, List.forall₂_same]
  exact fun report _ => encodes_fields

theorem rows_eq (reports : List Report) :
    reports.flatMap (row fl) = (reports.map (fields fl)).flatMap line := by
  rw [List.flatMap_map]
  exact List.flatMap_congr fun report _ => row_eq

theorem fields_ne_nil (reports : List Report) : ∀ texts ∈ reports.map (fields fl), texts ≠ [] := by
  intro texts htexts
  obtain ⟨report, -, rfl⟩ := List.mem_map.mp htexts
  exact List.cons_ne_nil _ _

/-- Rows that are appended are read as rows. -/
theorem readFile_rows (fl : Rounding) (reports : List Report) :
    readFile (reports.flatMap (row fl)) = some (reports.map (values fl)) := by
  rw [rows_eq]
  exact readFile_lines (encodes_reports reports) (fields_ne_nil reports)

/-- A file with its header is read as the names of the columns and rows. -/
theorem readFile_header_rows (fl : Rounding) (reports : List Report) :
    readFile (header ++ reports.flatMap (row fl)) = some (columns :: reports.map (values fl)) := by
  have hfile : header ++ reports.flatMap (row fl) =
      (columns :: reports.map (fields fl)).flatMap line := by
    rw [header_eq, rows_eq, List.flatMap_cons]
  rw [hfile]
  refine readFile_lines (.cons encodes_columns (encodes_reports reports)) ?_
  exact List.forall_mem_cons.mpr ⟨by decide, fields_ne_nil reports⟩

end Rows

variable {fl : Rounding}

theorem sweep_some (old : Text) (reports : List Report) :
    sweep fl (some old) reports = some (old ++ reports.flatMap (row fl)) := by
  induction reports generalizing old with
  | nil => rw [List.flatMap_nil, List.append_nil]; rfl
  | cons report reports ih =>
    rw [List.flatMap_cons, ← List.append_assoc, ← ih]
    rfl

/-- `write_csv` leaves a fresh file with the names of the columns and one record, and appends one
record to any other. The record has a field for each column, and its first three are the strings
it was given. Quoted values between commas are one record, which holds the values, if there is
any. -/
theorem summary_never_shifts (fl : Rounding) :
    (∀ report : Report, ∃ record : List Text,
        readFile (writeCsv fl none report).summary = some [columns, record] ∧
        (∀ old : Text, ∃ appended, (writeCsv fl (some old) report).summary = old ++ appended ∧
          readFile appended = some [record]) ∧
        record.length = columns.length ∧
        record.take 3 = [report.target, report.protocol, report.mode]) ∧
      ∀ texts : List Text, texts ≠ [] → readRecord (join (texts.map quoted)) = some texts := by
  constructor
  · intro report
    have hrow : [report].flatMap (row fl) = row fl report := List.append_nil _
    refine ⟨values fl report, ?_, fun old => ⟨row fl report, rfl, ?_⟩, length_values, rfl⟩
    · have hfile := readFile_header_rows fl [report]
      rwa [hrow] at hfile
    · have hrows := readFile_rows fl [report]
      rwa [hrow] at hrows
  · intro texts hne
    refine readRecord_join ?_ (List.map_eq_nil_iff.not.mpr hne)
    rw [List.forall₂_map_left_iff, List.forall₂_same]
    exact fun text _ => encodes_quoted text

/-- A target with a comma and two quotes, and a run without a summary. -/
theorem summary_never_shifts_failed :
    (∃ record, readFile (writeCsv .exact none
          ⟨"a,\"b\"".toList, "raw".toList, [], 4, 4, 0, 41, none, .empty, []⟩).summary =
        some [columns, record] ∧
      record.length = columns.length ∧ record.take 3 = ["a,\"b\"".toList, "raw".toList, []]) ∧
      readRecord (join ([[], "two\r\nlines".toList, "\"".toList].map quoted)) =
        some [[], "two\r\nlines".toList, "\"".toList] := by
  obtain ⟨hreports, hvalues⟩ := summary_never_shifts .exact
  obtain ⟨record, hfile, -, hlength, hstrings⟩ := hreports
    ⟨"a,\"b\"".toList, "raw".toList, [], 4, 4, 0, 41, none, .empty, []⟩
  exact ⟨⟨record, hfile, hlength, hstrings⟩, hvalues _ (List.cons_ne_nil _ _)⟩

/-- No values between commas are one empty value. -/
theorem quoted_nothing :
    readRecord (join (([] : List Text).map quoted)) = some [[]] ∧
      ¬∀ texts : List Text, readRecord (join (texts.map quoted)) = some texts := by
  refine ⟨by decide, fun hall => ?_⟩
  exact absurd (hall []) (by decide)

end WriteCsv

end Dariyanaap

import Dariyanaap.Core.Text
import Dariyanaap.Library.Binary64
import Dariyanaap.Library.Delimited
import Dariyanaap.Library.Quoting
import Dariyanaap.Stats.Summary

/-!
# The rows of `summary.csv`

`quoted` and the header and rows of a summary (`stats/csv.cpp`). A value is quoted if it holds a
comma, a quote or a line end, and then its quotes are doubled: it is a field of the format that
stands for the value (`encodes_quoted`). The numbers of a row stand for themselves.
-/

namespace Dariyanaap

open Binary64 (roundHalfEven)
open Delimited (decimal signed isDigit_of_mem_decimal mem_signed)
open Quoting

/-- `Summary::per_second`. -/
def Summary.perSecond (fl : Rounding) (summary : Summary) : Double :=
  let seconds := fl (fl summary.duration / 1_000_000_000)
  if seconds = 0 then if summary.samples = 0 then .nan else .infinite false
  else .finite (fl (fl summary.samples / seconds))

/-- `Summary::percentiles_bounded`. -/
def Summary.percentilesBounded (summary : Summary) : Bool := decide (summary.overflow = 0)

namespace Csv

/-- `quoted`. -/
def quoted (value : Text) : Text :=
  let needs := value.any fun c => decide (c ∈ ",\"\r\n".toList)
  if needs = false then value
  else '"' :: (value.flatMap fun c => if c = '"' then "\"\"".toList else [c]) ++ ['"']

/-- `kSummaryColumns`. -/
def kSummaryColumns : Text :=
  ("samples,overflow,percentiles_bounded,duration_ns,per_second," ++
    "p50_ns,p90_ns,p99_ns,p999_ns,max_ns").toList

/-- `write_summary_header`. -/
def writeSummaryHeader : Text := kSummaryColumns ++ ['\n']

/-- A `double` streamed with `fixed << setprecision(2)`. The sign of a NaN is left out. -/
def fixedTwo : Double → Text
  | .finite x =>
      let hundredths := roundHalfEven (|x| * 100)
      (if x < 0 then ['-'] else []) ++ decimal (hundredths / 100) ++ '.' ::
        (decimal (hundredths % 100 / 10) ++ decimal (hundredths % 10))
  | .infinite negative => if negative then "-inf".toList else "inf".toList
  | .nan => "nan".toList

/-- `write_summary_row`. -/
def writeSummaryRow (fl : Rounding) (summary : Summary) : Text :=
  decimal summary.samples ++ ',' ::
    (decimal summary.overflow ++ ',' ::
      ((if summary.percentilesBounded then ['1'] else ['0']) ++ ',' ::
        (signed summary.duration ++ ',' ::
          (fixedTwo (summary.perSecond fl) ++ ',' ::
            (signed summary.p50 ++ ',' ::
              (signed summary.p90 ++ ',' ::
                (signed summary.p99 ++ ',' ::
                  (signed summary.p999 ++ ',' :: (signed summary.max ++ ['\n'])))))))))

/-- `write_absent_summary_row`. -/
def writeAbsentSummaryRow : Text :=
  let fields := 1 + kSummaryColumns.count ','
  (List.range fields).flatMap (fun i =>
    (if 0 < i then [','] else []) ++ (if i = 2 then ['1'] else ['0'])) ++ ['\n']

/-! ## The fields -/

/-- Text that needs no quotes stands for itself. -/
def Plain (text : Text) : Prop := ∀ c ∈ text, special c = false

theorem Plain.encodes {text : Text} (h : Plain text) : Encodes text text := .inl ⟨rfl, h⟩

theorem plain_of_all {text : Text} (h : (text.all fun c => !special c) = true) : Plain text := by
  intro c hc
  simpa using List.all_eq_true.mp h c hc

theorem plain_of_forall_all {texts : List Text}
    (h : (texts.all fun text => text.all fun c => !special c) = true) :
    ∀ text ∈ texts, Plain text :=
  fun text htext => plain_of_all (List.all_eq_true.mp h text htext)

theorem plain_of_isDigit {text : Text} (h : ∀ c ∈ text, c = '-' ∨ c.isDigit = true) :
    Plain text := by
  intro c hc
  rcases h c hc with rfl | hdigit
  · decide
  · simp only [special, Bool.or_eq_false_iff, beq_eq_false_iff_ne]
    refine ⟨⟨⟨?_, ?_⟩, ?_⟩, ?_⟩ <;>
    · rintro rfl
      cases hdigit

theorem plain_decimal (n : ℕ) : Plain (decimal n) :=
  plain_of_isDigit fun _ hc => .inr (isDigit_of_mem_decimal hc)

theorem plain_signed (i : ℤ) : Plain (signed i) := plain_of_isDigit fun _ hc => mem_signed hc

theorem Plain.append {u w : Text} (hu : Plain u) (hw : Plain w) : Plain (u ++ w) :=
  List.forall_mem_append.mpr ⟨hu, hw⟩

theorem plain_fixedTwo (x : Double) : Plain (fixedTwo x) := by
  cases x with
  | finite x =>
    have hsign : Plain (if x < 0 then ['-'] else []) := by
      split
      · exact plain_of_all rfl
      · exact plain_of_all rfl
    have hpoint : Plain ['.'] := plain_of_all rfl
    exact (hsign.append (plain_decimal _)).append
      (hpoint.append ((plain_decimal _).append (plain_decimal _)))
  | infinite negative =>
    cases negative with
    | true => exact plain_of_all rfl
    | false => exact plain_of_all rfl
  | nan => exact plain_of_all rfl

/-- A quoted value is a field that stands for it. -/
theorem encodes_quoted (value : Text) : Encodes (quoted value) value := by
  rw [quoted]
  split
  · next hneeds =>
    refine .inl ⟨rfl, fun c hc => ?_⟩
    have hnone := List.any_eq_false.mp hneeds c hc
    simpa [special, or_assoc, and_assoc] using hnone
  · exact .inr rfl

/-- The names of the columns. -/
def summaryNames : List Text :=
  ["samples", "overflow", "percentiles_bounded", "duration_ns", "per_second", "p50_ns", "p90_ns",
    "p99_ns", "p999_ns", "max_ns"].map String.toList

/-- The fields of a row. -/
def summaryFields (fl : Rounding) (summary : Summary) : List Text :=
  [decimal summary.samples, decimal summary.overflow,
    if summary.percentilesBounded then ['1'] else ['0'], signed summary.duration,
    fixedTwo (summary.perSecond fl), signed summary.p50, signed summary.p90, signed summary.p99,
    signed summary.p999, signed summary.max]

/-- The fields of a row without a summary. -/
def absentFields : List Text := (List.range 10).map fun i => if i = 2 then ['1'] else ['0']

theorem writeSummaryHeader_eq : writeSummaryHeader = line summaryNames := by decide +kernel

theorem writeAbsentSummaryRow_eq : writeAbsentSummaryRow = line absentFields := by decide +kernel

theorem writeSummaryRow_eq (fl : Rounding) (summary : Summary) :
    writeSummaryRow fl summary = line (summaryFields fl summary) := by
  simp [writeSummaryRow, line, join, summaryFields, List.intercalate_cons_cons]

theorem plain_summaryNames : ∀ name ∈ summaryNames, Plain name :=
  plain_of_forall_all (by decide +kernel)

theorem plain_absentFields : ∀ field ∈ absentFields, Plain field := by
  intro field hfield
  obtain ⟨i, -, rfl⟩ := List.mem_map.mp hfield
  split
  · exact plain_of_all rfl
  · exact plain_of_all rfl

theorem plain_summaryFields (fl : Rounding) (summary : Summary) :
    ∀ field ∈ summaryFields fl summary, Plain field := by
  have hbounded : Plain (if summary.percentilesBounded then ['1'] else ['0']) := by
    split
    · exact plain_of_all rfl
    · exact plain_of_all rfl
  simp only [summaryFields, List.forall_mem_cons]
  refine ⟨plain_decimal _, plain_decimal _, hbounded, plain_signed _, plain_fixedTwo _,
    plain_signed _, plain_signed _, plain_signed _, plain_signed _, plain_signed _, ?_⟩
  exact fun field hfield => absurd hfield List.not_mem_nil

end Csv

end Dariyanaap

import Mathlib.Data.List.Basic
import Mathlib.Algebra.Group.Int.Defs

/-!
# Tables of numbers as text

A table is a header line and lines of integers between commas. Numbers are written in decimal,
with a sign when they are negative; nothing is quoted. `readTable` is the reader such a file
promises: `readTable_table` says that it gets every number back.
-/

namespace Delimited

/-! ## Numbers -/

/-- A number in decimal. -/
def decimal (n : ℕ) : List Char := Nat.toDigits 10 n

/-- An integer in decimal. -/
def signed (i : ℤ) : List Char := if i < 0 then '-' :: decimal i.natAbs else decimal i.natAbs

/-- Read a number of one or more digits. -/
def readDecimal (text : List Char) : Option ℕ :=
  if text ≠ [] ∧ text.all Char.isDigit then some (Nat.ofDigitChars 10 text 0) else none

/-- Read an integer. -/
def readSigned : List Char → Option ℤ
  | '-' :: digits => (readDecimal digits).map fun n : ℕ => -(n : ℤ)
  | digits => (readDecimal digits).map fun n : ℕ => (n : ℤ)

theorem isDigit_of_mem_decimal {n : ℕ} {c : Char} (h : c ∈ decimal n) : c.isDigit = true :=
  Nat.isDigit_of_mem_toDigits (by decide) (Nat.le_refl 10) h

theorem readDecimal_decimal (n : ℕ) : readDecimal (decimal n) = some n := by
  have hdigits : (decimal n).all Char.isDigit = true :=
    List.all_eq_true.mpr fun c hc => isDigit_of_mem_decimal hc
  rw [readDecimal, if_pos ⟨Nat.toDigits_ne_nil, hdigits⟩]
  exact congrArg some (Nat.ofDigitChars_toDigits (by decide) (Nat.le_refl 10))

/-- A written integer is digits, perhaps behind a minus sign. -/
theorem mem_signed {i : ℤ} {c : Char} (h : c ∈ signed i) : c = '-' ∨ c.isDigit = true := by
  rw [signed] at h
  split at h
  · rcases List.mem_cons.mp h with rfl | h
    · exact .inl rfl
    · exact .inr (isDigit_of_mem_decimal h)
  · exact .inr (isDigit_of_mem_decimal h)

theorem readSigned_signed (i : ℤ) : readSigned (signed i) = some i := by
  rw [signed]
  split
  · next hneg =>
    rw [readSigned, readDecimal_decimal, Option.map_some]
    exact congrArg some (by omega)
  · next hpos =>
    -- no digit is a minus sign
    have hdigits : readSigned (decimal i.natAbs) =
        (readDecimal (decimal i.natAbs)).map fun n : ℕ => (n : ℤ) := by
      rcases hdecimal : decimal i.natAbs with _ | ⟨c, cs⟩
      · rfl
      · have hc : c ≠ '-' := by
          rintro rfl
          have hdigit : '-' ∈ decimal i.natAbs := hdecimal ▸ List.mem_cons_self
          exact absurd (isDigit_of_mem_decimal hdigit) (by decide)
        rw [readSigned]
        rintro digits ⟨⟩
        exact hc rfl
    rw [hdigits, readDecimal_decimal, Option.map_some]
    exact congrArg some (by omega)

/-! ## Lines -/

/-- The numbers of one line, without its line end. -/
def row (fields : List ℤ) : List Char := [','].intercalate (fields.map signed)

/-- One line. -/
def line (fields : List ℤ) : List Char := row fields ++ ['\n']

/-- A header and lines. -/
def table (header : List Char) (rows : List (List ℤ)) : List Char :=
  header ++ '\n' :: rows.flatMap line

/-- Read the numbers of one line. -/
def readRow (text : List Char) : Option (List ℤ) := (text.splitOn ',').mapM readSigned

/-- Read the lines behind the header. -/
def readTable (text : List Char) : Option (List (List ℤ)) :=
  -- behind the last line end there is nothing to read
  (text.splitOn '\n').tail.dropLast.mapM readRow

section Lines

variable {fields : List ℤ} {rows : List (List ℤ)}

/-- Reading back what was written, one by one. -/
theorem mapM_of_forall {α β : Type*} {write : α → β} {read : β → Option α} {xs : List α}
    (h : ∀ x ∈ xs, read (write x) = some x) : (xs.map write).mapM read = some xs := by
  induction xs with
  | nil => rfl
  | cons x xs ih =>
    rw [List.map_cons, List.mapM_cons, h x List.mem_cons_self,
      ih fun y hy => h y (List.mem_cons_of_mem _ hy)]
    rfl

theorem readRow_row (hne : fields ≠ []) : readRow (row fields) = some fields := by
  have hcomma : ∀ text ∈ fields.map signed, ',' ∉ text := by
    intro text htext hmem
    obtain ⟨i, -, rfl⟩ := List.mem_map.mp htext
    rcases mem_signed hmem with h | h
    · cases h
    · cases h
  rw [readRow, row, List.splitOn_intercalate _ hcomma (by simpa using hne)]
  exact mapM_of_forall fun i _ => readSigned_signed i

/-- No number and no comma ends a line. -/
theorem newline_notMem_row (fields : List ℤ) : '\n' ∉ row fields := by
  induction fields with
  | nil => exact List.not_mem_nil
  | cons i fields ih =>
    have hi : '\n' ∉ signed i := by
      intro hmem
      rcases mem_signed hmem with h | h
      · cases h
      · cases h
    -- the last number stands alone, any other in front of a comma
    rcases fields with _ | ⟨j, fields⟩
    · simpa [row] using hi
    · have hrow : row (i :: j :: fields) = signed i ++ ',' :: row (j :: fields) := by
        simp [row, List.intercalate_cons_cons]
      rw [hrow, List.mem_append, List.mem_cons, not_or, not_or]
      exact ⟨hi, by decide, ih⟩

theorem splitOn_lines (rows : List (List ℤ)) :
    (rows.flatMap line).splitOn '\n' = rows.map row ++ [[]] := by
  induction rows with
  | nil => rfl
  | cons fields rows ih =>
    have hline : (fields :: rows).flatMap line = row fields ++ '\n' :: rows.flatMap line := by
      simp [line]
    rw [hline, List.splitOn_append_cons_self_of_not_mem (newline_notMem_row fields), ih]
    rfl

/-- A table is read back as it was written. -/
theorem readTable_table {header : List Char} (hheader : '\n' ∉ header)
    (hrows : ∀ fields ∈ rows, fields ≠ []) : readTable (table header rows) = some rows := by
  rw [readTable, table, List.splitOn_append_cons_self_of_not_mem hheader, splitOn_lines,
    List.tail_cons, List.dropLast_concat]
  exact mapM_of_forall fun fields hfields => readRow_row (hrows fields hfields)

end Lines

end Delimited

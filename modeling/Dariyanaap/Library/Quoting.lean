import Mathlib.Data.List.Forall2

/-!
# Comma-separated records with quoted fields

The format of RFC 4180: records end with a line end, fields stand between commas, and a field
that holds a comma, a quote or a line end is put between quotes, with its quotes doubled. A field
is text of any characters but these four, or quoted text of any characters. A line end is a line
feed, with or without a carriage return before it.

`read` reads a file of such records. A written field (`Encodes`) is read as the value it stands
for, whatever follows it, so records are read back field by field (`readRecord_join`) and files
record by record (`readFile_lines`).
-/

namespace Quoting

/-- The characters that a field without quotes cannot hold. -/
def special (c : Char) : Bool := c == ',' || c == '"' || c == '\r' || c == '\n'

/-- Text with its quotes doubled. -/
def doubled (value : List Char) : List Char :=
  value.flatMap fun c => if c = '"' then ['"', '"'] else [c]

/-- A field between quotes. -/
def escaped (value : List Char) : List Char := '"' :: (doubled value ++ ['"'])

/-- The text is a field that stands for the value. -/
def Encodes (text value : List Char) : Prop :=
  (text = value ∧ ∀ c ∈ value, special c = false) ∨ text = escaped value

/-! ## The reader -/

/-- Where in a record the reader is. -/
inductive Mode where
  /-- Before a record. -/
  | record
  /-- Behind a comma. -/
  | field
  /-- In a field without quotes. -/
  | bare
  /-- Between quotes. -/
  | inside
  /-- Behind a quote that closes a field or is the first of two. -/
  | closing
  /-- Behind the carriage return of a line end. -/
  | lineEnd
  deriving DecidableEq

/-- Read records, given what the reader has of the current field and of the fields before it. -/
def read (mode : Mode) (field : List Char) (fields : List (List Char)) :
    List Char → Option (List (List (List Char)))
  | [] =>
      match mode with
      | .record => some []
      | .field | .bare | .closing => some [fields ++ [field]]
      | .inside | .lineEnd => none
  | c :: text =>
      if mode = .inside then
        if c = '"' then read .closing field fields text
        else read .inside (field ++ [c]) fields text
      else if mode = .lineEnd then
        if c = '\n' then (read .record [] [] text).map ((fields ++ [field]) :: ·) else none
      else if c = ',' then read .field [] (fields ++ [field]) text
      else if c = '\n' then (read .record [] [] text).map ((fields ++ [field]) :: ·)
      else if c = '\r' then read .lineEnd field fields text
      else if c = '"' then
        match mode with
        | .record | .field => read .inside field fields text
        | .closing => read .inside (field ++ ['"']) fields text
        | .bare | .inside | .lineEnd => none
      -- nothing but a comma or a line end may follow the closing quote
      else if mode = .closing then none
      else read .bare (field ++ [c]) fields text

/-- Read a file of records. The last of them may lack its line end. -/
def readFile (text : List Char) : Option (List (List (List Char))) := read .record [] [] text

/-- Read a text that is one record, without its line end. -/
def readRecord (text : List Char) : Option (List (List Char)) :=
  match read .field [] [] text with
  | some [record] => some record
  | _ => none

/-- Fields between commas. -/
def join (texts : List (List Char)) : List Char := [','].intercalate texts

/-- A record with its line end. -/
def line (texts : List (List Char)) : List Char := join texts ++ ['\n']

/-- The first of several fields of a record stands in front of a comma. -/
theorem line_cons {texts : List (List Char)} (text : List Char) (hne : texts ≠ []) :
    line (text :: texts) = text ++ ',' :: line texts := by
  rcases texts with _ | ⟨next, texts⟩
  · exact absurd rfl hne
  · rw [line, join, List.intercalate_cons_cons, line, join]
    simp

/-- The first fields of a record stand in front of a comma each. -/
theorem line_append {texts : List (List Char)} (firsts : List (List Char)) (hne : texts ≠ []) :
    line (firsts ++ texts) = (firsts.flatMap fun text => text ++ [',']) ++ line texts := by
  induction firsts with
  | nil => rfl
  | cons text firsts ih =>
    rw [List.cons_append, line_cons text (List.append_ne_nil_of_right_ne_nil _ hne), ih]
    simp

/-! ## Reading back what was written -/

/-- A place where a field may end. -/
def Mode.Ends : Mode → Prop
  | .record | .field | .bare | .closing => True
  | .inside | .lineEnd => False

/-- A place where a field may begin. -/
def Mode.Begins : Mode → Prop
  | .record | .field => True
  | .bare | .inside | .closing | .lineEnd => False

variable {mode : Mode} {field value text : List Char} {fields : List (List Char)}

/-- A comma ends a field. -/
theorem read_comma (h : mode.Ends) (text : List Char) :
    read mode field fields (',' :: text) = read .field [] (fields ++ [field]) text := by
  cases mode with
  | inside | lineEnd => cases h
  | record | field | bare | closing => rfl

/-- A line feed ends a record. -/
theorem read_newline (h : mode.Ends) (text : List Char) :
    read mode field fields ('\n' :: text) =
      (read .record [] [] text).map ((fields ++ [field]) :: ·) := by
  cases mode with
  | inside | lineEnd => cases h
  | record | field | bare | closing => rfl

/-- The end of the file ends a record, if one has begun. -/
theorem read_nil (h : mode.Ends) (hne : mode ≠ .record) :
    read mode field fields [] = some [fields ++ [field]] := by
  cases mode with
  | inside | lineEnd => cases h
  | record => exact absurd rfl hne
  | field | bare | closing => rfl

/-- Quoted text is read up to its closing quote. -/
theorem read_doubled (value text : List Char) :
    read .inside field fields (doubled value ++ '"' :: text) =
      read .closing (field ++ value) fields text := by
  induction value generalizing field with
  | nil =>
    rw [List.append_nil]
    rfl
  | cons c value ih =>
    rw [doubled, List.flatMap_cons, ← doubled, List.append_assoc, List.append_cons field c value,
      ← ih]
    by_cases hc : c = '"'
    · -- the first of the two quotes might be the closing one, the second says that it is not
      subst hc
      rfl
    · rw [if_neg hc, List.singleton_append, read, if_pos rfl, if_neg hc]

/-- A field without quotes is read as it stands, once it has begun. -/
theorem read_bare {u : List Char} (hu : ∀ c ∈ u, special c = false) (text : List Char) :
    read .bare field fields (u ++ text) = read .bare (field ++ u) fields text := by
  induction u generalizing field with
  | nil => rw [List.nil_append, List.append_nil]
  | cons c u ih =>
    obtain ⟨hc, hu⟩ := List.forall_mem_cons.mp hu
    simp only [special, Bool.or_eq_false_iff, beq_eq_false_iff_ne] at hc
    obtain ⟨⟨⟨hcomma, hquote⟩, hreturn⟩, hfeed⟩ := hc
    rw [List.cons_append, List.append_cons, ← ih hu, read]
    simp [hcomma, hquote, hreturn, hfeed]

/-- A field without quotes begins with its first character. -/
theorem read_first (h : mode.Begins) {c : Char} (hc : special c = false) (text : List Char) :
    read mode field fields (c :: text) = read .bare (field ++ [c]) fields text := by
  simp only [special, Bool.or_eq_false_iff, beq_eq_false_iff_ne] at hc
  obtain ⟨⟨⟨hcomma, hquote⟩, hreturn⟩, hfeed⟩ := hc
  cases mode with
  | record | field => simp [read, hcomma, hquote, hreturn, hfeed]
  | bare | inside | closing | lineEnd => cases h

/-- A field is read as the value it stands for, and then the reader is where one may end. -/
theorem read_encoded (h : Encodes text value) (hbegins : mode.Begins)
    (fields : List (List Char)) :
    ∃ next : Mode, next.Ends ∧ (next = .record → mode = .record) ∧
      ∀ rest, read mode [] fields (text ++ rest) = read next value fields rest := by
  rcases h with ⟨rfl, hbare⟩ | rfl
  · rcases text with _ | ⟨c, u⟩
    · refine ⟨mode, ?_, id, fun rest => rfl⟩
      cases mode with
      | record | field => trivial
      | bare | inside | closing | lineEnd => cases hbegins
    · obtain ⟨hc, hu⟩ := List.forall_mem_cons.mp hbare
      refine ⟨.bare, trivial, by simp, fun rest => ?_⟩
      rw [List.cons_append, read_first hbegins hc, read_bare hu]
      rfl
  · refine ⟨.closing, trivial, by simp, fun rest => ?_⟩
    have hopen : read mode [] fields (escaped value ++ rest) =
        read .inside [] fields (doubled value ++ '"' :: rest) := by
      rw [escaped, List.cons_append, List.append_assoc, List.singleton_append]
      cases mode with
      | record | field => rfl
      | bare | inside | closing | lineEnd => cases hbegins
    rw [hopen, read_doubled, List.nil_append]

/-- Fields between commas are read one after the other, up to the end of the record. -/
theorem read_join {texts values : List (List Char)} (h : List.Forall₂ Encodes texts values)
    (hne : texts ≠ []) {mode : Mode} (hbegins : mode.Begins) (fields : List (List Char)) :
    ∃ (next : Mode) (init : List (List Char)) (last : List Char), next.Ends ∧
      (next = .record → mode = .record) ∧ init ++ [last] = fields ++ values ∧
      ∀ rest, read mode [] fields (join texts ++ rest) = read next last init rest := by
  induction h generalizing mode fields with
  | nil => exact absurd rfl hne
  | @cons text value texts values hfirst hrest ih =>
    obtain ⟨next, hends, hrecord, hread⟩ := read_encoded hfirst hbegins fields
    rcases hrest with _ | ⟨hsecond, hrest⟩
    · refine ⟨next, fields, value, hends, hrecord, rfl, fun rest => ?_⟩
      rw [join, List.intercalate_singleton, hread]
    · have hfield : Mode.Begins .field := trivial
      obtain ⟨next', init, last, hends', hrecord', hvalues, hread'⟩ :=
        ih (List.cons_ne_nil _ _) hfield (fields ++ [value])
      refine ⟨next', init, last, hends', fun heq => ?_, ?_, fun rest => ?_⟩
      · cases hrecord' heq
      · rw [hvalues, List.append_assoc, List.singleton_append]
      · rw [join, List.intercalate_cons_cons, List.append_assoc, List.append_assoc, hread,
          List.singleton_append, read_comma hends]
        exact hread' rest

/-- A record is read back field by field. -/
theorem readRecord_join {texts values : List (List Char)} (h : List.Forall₂ Encodes texts values)
    (hne : texts ≠ []) : readRecord (join texts) = some values := by
  have hfield : Mode.Begins .field := trivial
  obtain ⟨next, init, last, hends, hrecord, hvalues, hread⟩ := read_join h hne hfield []
  have hnil := hread []
  have hne' : next ≠ .record := fun heq => absurd (hrecord heq) (by decide)
  rw [List.append_nil, read_nil hends hne', hvalues, List.nil_append] at hnil
  rw [readRecord, hnil]

/-- A file is read back record by record. -/
theorem readFile_lines {records values : List (List (List Char))}
    (h : List.Forall₂ (List.Forall₂ Encodes) records values) (hne : ∀ texts ∈ records, texts ≠ []) :
    readFile (records.flatMap line) = some values := by
  induction h with
  | nil => rfl
  | @cons texts fields records values hfirst hrest ih =>
    obtain ⟨hne, hnes⟩ := List.forall_mem_cons.mp hne
    have hrecord : Mode.Begins .record := trivial
    obtain ⟨next, init, last, hends, -, hvalues, hread⟩ := read_join hfirst hne hrecord []
    rw [readFile, List.flatMap_cons, line, List.append_assoc, hread, List.singleton_append,
      read_newline hends, hvalues, ← readFile, ih hnes]
    rfl

end Quoting

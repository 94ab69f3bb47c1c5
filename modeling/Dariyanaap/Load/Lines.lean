import Dariyanaap.Load.Http
import Mathlib.Data.List.DropRight

/-!
# Header lines

A header block is a first line and header lines, with a line end between any two. `splitLines`
cuts any bytes into their lines (`splitLines_eq_iff`), and `headerValue_eq` says what the loop of
`header_value` makes of them: it returns the value of the first line of that name. `HeaderLine` is
what such a line looks like, in any casing of the name and any spacing of the value.
-/

namespace Dariyanaap

namespace Http

open Text

/-! ## Cutting lines -/

/-- The pieces between line ends. -/
def splitLines : Text → List Text
  | [] => [[]]
  | '\r' :: '\n' :: rest => [] :: splitLines rest
  | c :: rest => (splitLines rest).modifyHead (c :: ·)

/-- Lines as they stand in a header block, with a line end between any two. -/
def joinLines (lines : List Text) : Text := List.intercalate crlf lines

@[simp]
theorem joinLines_nil : joinLines [] = [] := rfl

@[simp]
theorem joinLines_singleton (line : Text) : joinLines [line] = line := by
  simp [joinLines]

theorem joinLines_cons_cons (line next : Text) (lines : List Text) :
    joinLines (line :: next :: lines) = line ++ (crlf ++ joinLines (next :: lines)) := by
  simp [joinLines, List.intercalate_cons_cons]

section Lines

variable {text line name : Text} {lines : List Text}

@[simp]
theorem splitLines_crlf (text : Text) : splitLines (crlf ++ text) = [] :: splitLines text := rfl

/-- Any other byte belongs to the line it stands in. -/
theorem splitLines_cons {c : Char} (h : ¬crlf.isPrefixOf (c :: text)) :
    splitLines (c :: text) = (splitLines text).modifyHead (c :: ·) := by
  rw [splitLines]
  rintro rest rfl rfl
  exact h rfl

/-- Without a line end there is one line. -/
theorem splitLines_of_find_eq_none (h : find crlf text = none) : splitLines text = [text] := by
  induction text with
  | nil => rfl
  | cons c text ih =>
    rw [find] at h
    split at h
    · cases h
    next hpre =>
    rw [splitLines_cons hpre, ih (Option.map_eq_none_iff.mp h), List.modifyHead_cons]

/-- The first line ends at the first line end, and the others follow it. -/
theorem splitLines_of_find_eq_some {k : ℕ} (h : find crlf text = some k) :
    splitLines text = text.take k :: splitLines (text.drop (k + 2)) := by
  induction text generalizing k with
  | nil => cases h
  | cons c text ih =>
    rw [find] at h
    split at h
    · next hpre =>
      obtain rfl : 0 = k := Option.some.inj h
      obtain ⟨rest, hrest⟩ := List.isPrefixOf_iff_prefix.mp hpre
      rw [← hrest, splitLines_crlf]
      rfl
    · next hpre =>
      obtain ⟨j, hj, rfl⟩ := Option.map_eq_some_iff.mp h
      rw [splitLines_cons hpre, ih hj, List.modifyHead_cons]
      rfl

/-- The line end is where the line stops. -/
theorem find_crlf_line (h : ¬crlf <:+: line) (w : Text) :
    find crlf (line ++ (crlf ++ w)) = some line.length := by
  induction line with
  | nil => exact find_self_append crlf w
  | cons c line ih =>
    rw [List.infix_cons_iff, not_or] at h
    -- no line end begins in the line, and none ends in it
    have hpre : ¬crlf.isPrefixOf (c :: (line ++ (crlf ++ w))) := by
      intro hpre
      refine h.1 (List.isPrefixOf_iff_prefix.mp ?_)
      rcases line with _ | ⟨d, line⟩
      · simp [crlf, List.isPrefixOf] at hpre
      · simpa [crlf, List.isPrefixOf] using hpre
    rw [List.cons_append, find, if_neg hpre, ih h.2]
    rfl

/-- Lines that were joined are cut again where they were joined. -/
theorem splitLines_joinLines (hlines : ∀ line ∈ lines, ¬crlf <:+: line) (hne : lines ≠ []) :
    splitLines (joinLines lines) = lines := by
  induction lines with
  | nil => exact absurd rfl hne
  | cons line lines ih =>
    obtain ⟨hline, hlines⟩ := List.forall_mem_cons.mp hlines
    cases lines with
    | nil =>
      rw [joinLines_singleton]
      exact splitLines_of_find_eq_none (find_eq_none_iff.mpr hline)
    | cons next lines =>
      have hrest := ih hlines (List.cons_ne_nil _ _)
      have hdrop : (line ++ (crlf ++ joinLines (next :: lines))).drop (line.length + 2) =
          joinLines (next :: lines) := by
        rw [← List.append_assoc]
        exact List.drop_left' (by simp [crlf])
      rw [joinLines_cons_cons, splitLines_of_find_eq_some (find_crlf_line hline _), List.take_left,
        hdrop, hrest]

/-- A text without a carriage return holds no line end. -/
theorem not_crlf_inside (h : '\r' ∉ line) : ¬crlf <:+: line := fun hinside =>
  h (hinside.subset List.mem_cons_self)

theorem splitLines_ne_nil (text : Text) : splitLines text ≠ [] := by
  cases h : find crlf text with
  | none => simp [splitLines_of_find_eq_none h]
  | some k => simp [splitLines_of_find_eq_some h]

/-- Cutting loses nothing, and leaves no line end in a line. -/
theorem joinLines_splitLines (text : Text) :
    joinLines (splitLines text) = text ∧ ∀ line ∈ splitLines text, ¬crlf <:+: line := by
  induction hlength : text.length using Nat.strong_induction_on generalizing text with
  | _ length ih =>
    cases h : find crlf text with
    | none =>
      rw [splitLines_of_find_eq_none h, joinLines_singleton, List.forall_mem_singleton]
      exact ⟨rfl, find_eq_none_iff.mp h⟩
    | some k =>
      have hfits : k + 2 ≤ text.length := find_add_length_le h
      obtain ⟨hjoin, hlines⟩ := ih (text.drop (k + 2)).length
        (by rw [List.length_drop]; omega) (text.drop (k + 2)) rfl
      -- the first line ends where the search stopped
      have hfirst : ¬crlf <:+: text.take k := by
        refine find_eq_none_iff.mp (find_eq_none_of_append (w := text.drop k) (k := k) ?_ ?_)
        · rwa [List.take_append_drop]
        · have hcrlf : crlf.length = 2 := rfl
          rw [List.length_take]
          omega
      rw [splitLines_of_find_eq_some h]
      refine ⟨?_, List.forall_mem_cons.mpr ⟨hfirst, hlines⟩⟩
      obtain ⟨next, rest, hrest⟩ :=
        List.exists_cons_of_ne_nil (splitLines_ne_nil (text.drop (k + 2)))
      rw [hrest, joinLines_cons_cons, ← hrest, hjoin]
      have hdrop : text.drop k = crlf ++ text.drop (k + 2) := drop_find h
      rw [← hdrop, List.take_append_drop]

/-- There is one way to cut a text at its line ends. -/
theorem splitLines_eq_iff :
    splitLines text = lines ↔
      lines ≠ [] ∧ joinLines lines = text ∧ ∀ line ∈ lines, ¬crlf <:+: line := by
  constructor
  · rintro rfl
    exact ⟨splitLines_ne_nil text, joinLines_splitLines text⟩
  · rintro ⟨hne, rfl, hlines⟩
    exact splitLines_joinLines hlines hne

/-! ## What the search finds -/

/-- What `header_value` makes of one line. -/
def lineValue (name line : Text) : Option Text :=
  match find [':'] line with
  | some colon =>
      if equalIgnoringCase (line.take colon) name then some (trim (line.drop (colon + 1))) else none
  | none => none

/-- A line is split at its first colon. -/
theorem lineValue_append {spelled : Text} (h : ':' ∉ spelled) (name rest : Text) :
    lineValue name (spelled ++ ':' :: rest) =
      if equalIgnoringCase spelled name then some (trim rest) else none := by
  have hdrop : (spelled ++ ':' :: rest).drop (spelled.length + 1) = rest := by
    rw [List.append_cons]
    exact List.drop_left' (by simp)
  rw [lineValue, find_append_cons h]
  dsimp only
  rw [hdrop, List.take_left]

/-- The first line decides, or the others do. -/
theorem findSome?_cons_eq_or (f : Text → Option Text) (line : Text) (lines : List Text) :
    (line :: lines).findSome? f = (f line).or (lines.findSome? f) := by
  rw [List.findSome?_cons]
  cases f line <;> rfl

/-- Past the end of the headers the loop of `header_value` is over. -/
theorem headerLines_of_length_le (headers name : Text) (fuel : ℕ) {lineBegins : ℕ}
    (h : headers.length ≤ lineBegins) : headerLines headers name fuel lineBegins = none := by
  cases fuel with
  | zero => rfl
  | succ fuel => rw [headerLines, if_neg (not_lt.mpr h)]

/-- One turn of the loop of `header_value` on the line `line` of the headers. -/
theorem headerLines_turn {headers : Text} {fuel lineBegins lineEnds : ℕ}
    (hin : lineBegins < headers.length)
    (hends : (findFrom crlf headers lineBegins).getD headers.length = lineEnds)
    (hline : (headers.drop lineBegins).take (lineEnds - lineBegins) = line) :
    headerLines headers name (fuel + 1) lineBegins =
      (lineValue name line).or (headerLines headers name fuel (lineEnds + 2)) := by
  rw [headerLines, if_pos hin]
  simp only [hends, hline, lineValue]
  cases hcolon : find [':'] line with
  | none => rfl
  | some colon =>
    dsimp only
    split <;> rfl

/-- The loop of `header_value` goes over the lines that are left, and returns what the first
line of that name holds. -/
theorem headerLines_eq (headers name : Text) {fuel lineBegins : ℕ}
    (hfuel : headers.length - lineBegins ≤ fuel) :
    headerLines headers name fuel lineBegins =
      (splitLines (headers.drop lineBegins)).findSome? (lineValue name) := by
  induction fuel generalizing lineBegins with
  | zero =>
    rw [headerLines_of_length_le _ _ _ (by omega), List.drop_of_length_le (by omega)]
    rfl
  | succ fuel ih =>
    by_cases hin : lineBegins < headers.length
    · cases hfind : find crlf (headers.drop lineBegins) with
      | none =>
        -- the last line ends with the headers
        have hends : (findFrom crlf headers lineBegins).getD headers.length = headers.length := by
          rw [findFrom, hfind]
          rfl
        have hline : (headers.drop lineBegins).take (headers.length - lineBegins) =
            headers.drop lineBegins := List.take_of_length_le (by simp)
        rw [headerLines_turn hin hends hline, headerLines_of_length_le _ _ _ (by omega),
          splitLines_of_find_eq_none hfind, findSome?_cons_eq_or, List.findSome?_nil]
      | some k =>
        have hends : (findFrom crlf headers lineBegins).getD headers.length = k + lineBegins := by
          rw [findFrom, hfind]
          rfl
        have hline : (headers.drop lineBegins).take (k + lineBegins - lineBegins) =
            (headers.drop lineBegins).take k := by rw [Nat.add_sub_cancel]
        have hnext : (headers.drop lineBegins).drop (k + 2) =
            headers.drop (k + lineBegins + 2) := by
          rw [List.drop_drop]
          congr 1
          omega
        rw [headerLines_turn hin hends hline, ih (by omega), splitLines_of_find_eq_some hfind,
          findSome?_cons_eq_or, hnext]
    · rw [headerLines_of_length_le _ _ _ (by omega), List.drop_of_length_le (by omega)]
      rfl

/-- The header lines of a header block: the lines after the first one. -/
def headerLinesOf (headers : Text) : List Text := (splitLines headers).tail

/-- The values of the headers of that name, in their order. -/
def headerValues (headers name : Text) : List Text :=
  (headerLinesOf headers).filterMap (lineValue name)

/-- `header_value` returns the first of the values. -/
theorem headerValue_eq (headers name : Text) :
    headerValue headers name = (headerValues headers name).head? := by
  rw [headerValue, headerValues, List.head?_filterMap, headerLinesOf]
  cases hfind : find crlf headers with
  | none =>
    rw [splitLines_of_find_eq_none hfind]
    rfl
  | some lineBegins =>
    rw [splitLines_of_find_eq_some hfind]
    exact headerLines_eq headers name (by omega)

/-- `header_value` searches the header lines. -/
theorem headerValue_eq_findSome? (headers name : Text) :
    headerValue headers name = (headerLinesOf headers).findSome? (lineValue name) := by
  rw [headerValue_eq, headerValues, List.head?_filterMap]

/-- `header_value` on lines that were joined. -/
theorem headerValue_join {first : Text} (hfirst : '\r' ∉ first) (hcr : ∀ line ∈ lines, '\r' ∉ line)
    (name : Text) :
    headerValue (joinLines (first :: lines)) name = lines.findSome? (lineValue name) := by
  have hall : ∀ line ∈ first :: lines, ¬crlf <:+: line :=
    List.forall_mem_cons.mpr
      ⟨not_crlf_inside hfirst, fun line hline => not_crlf_inside (hcr line hline)⟩
  rw [headerValue_eq_findSome?, headerLinesOf, splitLines_joinLines hall (List.cons_ne_nil _ _),
    List.tail_cons]

end Lines

/-! ## The grammar of a header line -/

/-- No blank at either end. -/
def Bare (value : Text) : Prop :=
  (∀ c ∈ value.head?, isBlank c = false) ∧ ∀ c ∈ value.getLast?, isBlank c = false

/-- A header line of that name, in any casing, with that value, in any spacing. -/
def HeaderLine (name line value : Text) : Prop :=
  ∃ spelled before after : Text, line = spelled ++ ':' :: (before ++ value ++ after) ∧
    ':' ∉ spelled ∧ spelled.map lower = name.map lower ∧
      (∀ c ∈ before ++ after, isBlank c = true) ∧ Bare value

section Grammar

variable {text value before after : Text}

/-- Names are compared letter by letter. -/
theorem equalIgnoringCase_iff (a b : Text) :
    equalIgnoringCase a b = true ↔ a.map lower = b.map lower := by
  induction a generalizing b with
  | nil => cases b <;> simp [equalIgnoringCase]
  | cons c a ih =>
    cases b with
    | nil => simp [equalIgnoringCase]
    | cons d b =>
      have htail := ih b
      simp only [equalIgnoringCase, Bool.and_eq_true, beq_iff_eq] at htail
      simp only [equalIgnoringCase, List.length_cons, List.zip_cons_cons, List.all_cons,
        List.map_cons, List.cons.injEq, Bool.and_eq_true, beq_iff_eq, ← htail]
      constructor
      · rintro ⟨hlength, hc, hrest⟩
        exact ⟨hc, by omega, hrest⟩
      · rintro ⟨hc, hlength, hrest⟩
        exact ⟨by omega, hc, hrest⟩

/-- A value without blanks at its ends is what is left of its spacing. -/
theorem trim_append (hblank : ∀ c ∈ before ++ after, isBlank c = true) (hbare : Bare value) :
    trim (before ++ value ++ after) = value := by
  rw [List.forall_mem_append] at hblank
  obtain ⟨hbefore, hafter⟩ := hblank
  rcases eq_or_ne value [] with rfl | hne
  · have hall : ∀ c ∈ before ++ [] ++ after, isBlank c = true := by
      simpa using List.forall_mem_append.mpr ⟨hbefore, hafter⟩
    rw [trim, List.dropWhile_eq_nil_iff.mpr hall]
    rfl
  · -- the first and the last character of the value stop the two loops
    have hhead : ∀ c ∈ (value ++ after).head?, isBlank c = false := by
      rw [List.head?_append_of_ne_nil _ hne]
      exact hbare.1
    have hlast : ∀ c ∈ (value.reverse).head?, isBlank c = false := by
      rw [List.head?_reverse]
      exact hbare.2
    have hafter' : ∀ c ∈ after.reverse, isBlank c = true := fun c hc =>
      hafter c (List.mem_reverse.mp hc)
    rw [trim, List.append_assoc, dropWhile_append_of_head hbefore hhead, List.reverse_append,
      dropWhile_append_of_head hafter' hlast, List.reverse_reverse]

/-- `trim` takes blanks away, at both ends, until there are none. -/
theorem trim_spec (text : Text) :
    ∃ before after, text = before ++ trim text ++ after ∧
      (∀ c ∈ before ++ after, isBlank c = true) ∧ Bare (trim text) := by
  have htrim : trim text = (text.dropWhile isBlank).rdropWhile isBlank := rfl
  obtain ⟨before, htext, hbefore, hhead⟩ := exists_append_dropWhile isBlank text
  refine ⟨before, (text.dropWhile isBlank).rtakeWhile isBlank, ?_, ?_, ?_, ?_⟩
  · rw [htrim, List.append_assoc, List.rdropWhile_append_rtakeWhile, ← htext]
  · exact List.forall_mem_append.mpr ⟨hbefore, fun c hc => List.mem_rtakeWhile_imp hc⟩
  · -- the first character left is the one the first loop stopped at
    intro c hc
    obtain ⟨rest, hrest⟩ : trim text <+: text.dropWhile isBlank := List.rdropWhile_prefix _ _
    rw [← hrest] at hhead
    exact hhead c (List.mem_head?_append_of_mem_head? hc)
  · intro c hc
    obtain ⟨hne, rfl⟩ := List.mem_getLast?_eq_getLast hc
    have hnot : ¬isBlank ((trim text).getLast hne) = true :=
      List.rdropWhile_last_not isBlank (text.dropWhile isBlank) hne
    exact eq_false_of_ne_true hnot

/-- What `header_value` makes of a line is what the line holds under that name. -/
theorem lineValue_eq_some_iff (name line value : Text) :
    lineValue name line = some value ↔ HeaderLine name line value := by
  constructor
  · intro h
    by_cases hcolon : ':' ∈ line
    · obtain ⟨spelled, rest, rfl, hspelled⟩ := List.eq_append_cons_of_mem hcolon
      rw [lineValue_append hspelled] at h
      split at h
      · next hname =>
        obtain rfl := Option.some.inj h
        obtain ⟨before, after, hrest, hblank, hbare⟩ := trim_spec rest
        exact ⟨spelled, before, after, by rw [← hrest], hspelled,
          (equalIgnoringCase_iff _ _).mp hname, hblank, hbare⟩
      · cases h
    · rw [lineValue, find_eq_none_of_notMem hcolon] at h
      cases h
  · rintro ⟨spelled, before, after, rfl, hspelled, hname, hblank, hbare⟩
    rw [lineValue_append hspelled, if_pos ((equalIgnoringCase_iff _ _).mpr hname),
      trim_append hblank hbare]

/-- The search fails when no line has the name. -/
theorem findSome?_lineValue_eq_none_iff (name : Text) (lines : List Text) :
    lines.findSome? (lineValue name) = none ↔
      ∀ line ∈ lines, ∀ value, ¬HeaderLine name line value := by
  rw [List.findSome?_eq_none_iff]
  simp only [Option.eq_none_iff_forall_ne_some, Ne, lineValue_eq_some_iff]

end Grammar

end Http

end Dariyanaap

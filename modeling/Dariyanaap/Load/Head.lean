import Dariyanaap.Library.BoundedNumeral
import Dariyanaap.Load.Lines

/-!
# Response heads

A response head is a status line, header lines and a blank line. `Head` is that grammar, and
`Head.render` its bytes; the theorems say what the searches of `load/http.cpp` find in rendered
bytes, whatever follows them: the blank line stands at the end of the head, the status is the
one of the status line, and a header is the first line of that name.

The searches are followed line by line: a rendered head is lines that were joined, which
`headerValue_join` finds again.
-/

namespace Dariyanaap

namespace Http

open Text

/-! ## Lines -/

section Lines

variable {lines : List Text}

/-- The blank line after a header block is the first one when no header line is empty. -/
theorem find_blankLine_join {first : Text} (hfirst : '\r' ∉ first)
    (hcr : ∀ line ∈ lines, '\r' ∉ line) (hne : ∀ line ∈ lines, line ≠ []) (w : Text) :
    find blankLine (joinLines (first :: lines) ++ (blankLine ++ w)) =
      some (joinLines (first :: lines)).length := by
  induction lines generalizing first with
  | nil =>
    rw [joinLines_singleton]
    have hskip : find blankLine (first ++ (blankLine ++ w)) =
        (find blankLine (blankLine ++ w)).map (· + first.length) := find_append_of_notMem hfirst _
    rw [hskip, find_self_append]
    simp
  | cons next lines ih =>
    have hnext : '\r' ∉ next := hcr next List.mem_cons_self
    have hrest := ih hnext (fun l hl => hcr l (List.mem_cons_of_mem _ hl))
      fun l hl => hne l (List.mem_cons_of_mem _ hl)
    -- the next line begins with something else than a line end
    obtain ⟨c, cs, rfl⟩ : ∃ c cs, next = c :: cs :=
      List.exists_cons_of_ne_nil (hne next List.mem_cons_self)
    have hc : c ≠ '\r' := fun h => hnext (h ▸ List.mem_cons_self)
    obtain ⟨t, ht⟩ : ∃ t, joinLines ((c :: cs) :: lines) ++ (blankLine ++ w) = c :: t := by
      cases lines with
      | nil => exact ⟨_, by rw [joinLines_singleton]; rfl⟩
      | cons => exact ⟨_, by rw [joinLines_cons_cons]; rfl⟩
    -- so the line end before it is not the blank line
    have hskip : find blankLine (crlf ++ (joinLines ((c :: cs) :: lines) ++ (blankLine ++ w))) =
        (find blankLine (joinLines ((c :: cs) :: lines) ++ (blankLine ++ w))).map (· + 2) := by
      rw [ht]
      simp [find, crlf, blankLine, List.isPrefixOf, Ne.symm hc, Option.map_map, Function.comp_def]
    have hfirst' : find blankLine (first ++ (crlf ++ (joinLines ((c :: cs) :: lines) ++
        (blankLine ++ w)))) = (find blankLine (crlf ++ (joinLines ((c :: cs) :: lines) ++
          (blankLine ++ w)))).map (· + first.length) := find_append_of_notMem hfirst _
    rw [joinLines_cons_cons, List.append_assoc, List.append_assoc, hfirst', hskip, hrest]
    simp [crlf]
    omega

end Lines

/-! ## The grammar of a head -/

/-- A header line: a name, a colon and the rest of the line. -/
structure Field where
  name : Text
  value : Text
  name_ne : name ≠ []
  name_ok : ∀ c ∈ name, c ≠ ':' ∧ c ≠ '\r' ∧ c ≠ '\n'
  value_ok : ∀ c ∈ value, c ≠ '\r' ∧ c ≠ '\n'

/-- The bytes of a header line, without its line end. -/
def Field.line (field : Field) : Text := field.name ++ ':' :: field.value

/-- A status line and header lines. -/
structure Head where
  status : ℕ
  reason : Text
  fields : List Field
  status_ok : 100 ≤ status ∧ status < 1000
  reason_ok : ∀ c ∈ reason, c ≠ '\r' ∧ c ≠ '\n'

/-- The protocol version a status line begins with. -/
def httpVersion : Text := "HTTP/1.1 ".toList

theorem httpVersion_eq : httpVersion = ['H', 'T', 'T', 'P', '/', '1', '.', '1', ' '] := by
  decide +kernel

/-- The characters of a text are checked one by one. -/
theorem forall_mem_of_all {P : Char → Prop} [DecidablePred P] {text : Text}
    (h : (text.all fun c => decide (P c)) = true) : ∀ c ∈ text, P c := fun c hc =>
  of_decide_eq_true (List.all_eq_true.mp h c hc)

/-- A decimal digit as a character. -/
def digitChar (digit : ℕ) : Char := Char.ofNat ('0'.toNat + digit)

namespace Head

/-- The three digits of the status. -/
def statusText (head : Head) : Text :=
  [digitChar (head.status / 100), digitChar (head.status / 10 % 10), digitChar (head.status % 10)]

/-- The bytes of the status line, without its line end. -/
def statusLine (head : Head) : Text :=
  httpVersion ++ (head.statusText ++ (' ' :: head.reason))

/-- The bytes before the blank line. -/
def block (head : Head) : Text := joinLines (head.statusLine :: head.fields.map Field.line)

/-- The bytes of the head, the blank line included. -/
def render (head : Head) : Text := head.block ++ blankLine

/-- The value of the first header of that name, without the blanks around it. -/
def field (head : Head) (name : Text) : Option Text :=
  head.fields.findSome? fun field =>
    if equalIgnoringCase field.name name then some (trim field.value) else none

end Head

/-- A digit is read back as itself. -/
theorem digitChar_spec {digit : ℕ} (h : digit < 10) :
    isDigit (digitChar digit) = true ∧ digitValue (digitChar digit) = digit ∧
      digitChar digit ≠ '\r' := by
  -- ten digits to check
  have hall : ∀ d < 10, isDigit (digitChar d) = true ∧ digitValue (digitChar d) = d ∧
      digitChar d ≠ '\r' := by decide
  exact hall digit h

namespace Field

/-- No header line holds a carriage return. -/
theorem cr_notMem_line (field : Field) : '\r' ∉ field.line := by
  rw [line, List.mem_append, List.mem_cons, not_or, not_or]
  exact ⟨fun h => (field.name_ok _ h).2.1 rfl, by decide, fun h => (field.value_ok _ h).1 rfl⟩

/-- No header line is empty. -/
theorem line_ne_nil (field : Field) : field.line ≠ [] := by
  simp [line]

/-- `header_value` splits a header line at its first colon. -/
theorem lineValue_line (field : Field) (name : Text) :
    lineValue name field.line =
      if equalIgnoringCase field.name name then some (trim field.value) else none :=
  lineValue_append (fun h => (field.name_ok _ h).1 rfl) name field.value

end Field

namespace Head

/-- No status line holds a carriage return. -/
theorem cr_notMem_statusLine (head : Head) : '\r' ∉ head.statusLine := by
  obtain ⟨hlow, hhigh⟩ := head.status_ok
  have h100 := (digitChar_spec (by omega : head.status / 100 < 10)).2.2
  have h10 := (digitChar_spec (by omega : head.status / 10 % 10 < 10)).2.2
  have h1 := (digitChar_spec (by omega : head.status % 10 < 10)).2.2
  have hversion : '\r' ∉ httpVersion := by
    rw [httpVersion_eq]
    decide
  simp only [statusLine, statusText, List.mem_append, List.mem_cons, List.not_mem_nil, not_or]
  exact ⟨hversion, ⟨h100.symm, h10.symm, h1.symm, not_false⟩, by decide,
    fun h => (head.reason_ok _ h).1 rfl⟩

/-- No header line of a head holds a carriage return. -/
theorem cr_notMem_fields (head : Head) : ∀ line ∈ head.fields.map Field.line, '\r' ∉ line := by
  intro line hline
  obtain ⟨field, -, rfl⟩ := List.mem_map.mp hline
  exact field.cr_notMem_line

/-- The first blank line of a response is the one that ends its head. -/
theorem find_blankLine (head : Head) (w : Text) :
    find blankLine (head.render ++ w) = some head.block.length := by
  rw [render, List.append_assoc]
  refine find_blankLine_join head.cr_notMem_statusLine head.cr_notMem_fields ?_ w
  intro line hline
  obtain ⟨field, -, rfl⟩ := List.mem_map.mp hline
  exact field.line_ne_nil

/-- The head up to its blank line is cut out whole. -/
theorem take_block (head : Head) (w : Text) :
    (head.render ++ w).take head.block.length = head.block := by
  rw [render, List.append_assoc, List.take_left]

@[simp]
theorem length_render (head : Head) : head.render.length = head.block.length + 4 := by
  simp [render, blankLine]

/-- `header_value` on a head finds the header. -/
theorem headerValue_block (head : Head) (name : Text) :
    headerValue head.block name = head.field name := by
  rw [block, headerValue_join head.cr_notMem_statusLine head.cr_notMem_fields, List.findSome?_map]
  exact congrArg (fun f => head.fields.findSome? f) (funext fun field => field.lineValue_line name)

/-- `status_code` reads the status of the status line, whatever follows the head. -/
theorem statusCode_render (head : Head) (w : Text) :
    statusCode (head.render ++ w) = some head.status := by
  obtain ⟨hlow, hhigh⟩ := head.status_ok
  obtain ⟨hdigit100, hvalue100, -⟩ := digitChar_spec (by omega : head.status / 100 < 10)
  obtain ⟨hdigit10, hvalue10, -⟩ := digitChar_spec (by omega : head.status / 10 % 10 < 10)
  obtain ⟨hdigit1, hvalue1, -⟩ := digitChar_spec (by omega : head.status % 10 < 10)
  -- whatever the fields are, a space and the reason follow the digits
  obtain ⟨rest, hrest⟩ : ∃ rest, head.render ++ w =
      httpVersion ++ (head.statusText ++ (' ' :: rest)) := by
    cases hfields : head.fields with
    | nil => exact ⟨head.reason ++ (blankLine ++ w), by simp [render, block, hfields, statusLine]⟩
    | cons field fields =>
      refine ⟨head.reason ++ (crlf ++ (joinLines ((field :: fields).map Field.line) ++
        (blankLine ++ w))), ?_⟩
      simp [render, block, hfields, statusLine, joinLines_cons_cons]
  have hversion : "HTTP/1.1 ".toList.isPrefixOf (head.render ++ w) :=
    List.isPrefixOf_iff_prefix.mpr (hrest ▸ List.prefix_append _ _)
  rw [httpVersion_eq] at hrest
  have hdigits : ((head.render ++ w).drop 9).take 3 = head.statusText := by
    rw [hrest]
    rfl
  have hlength : ¬(head.render ++ w).length < 12 := by
    rw [hrest]
    simp [statusText]
  -- no fourth digit
  have hnext : (head.render ++ w)[12]? = some ' ' := by
    rw [hrest]
    rfl
  have hcode : statusDigits head.statusText 0 = some head.status := by
    simp only [statusText, statusDigits, hdigit100, hdigit10, hdigit1, hvalue100, hvalue10, hvalue1,
      if_true, Option.some.injEq]
    omega
  rw [statusCode, if_neg hlength, if_neg (fun h => h.1 hversion), hdigits, hcode, hnext]
  rfl

end Head

/-! ## Decimal numbers -/

/-- `text` is `n` in decimal digits. -/
def Decimal (text : Text) (n : ℕ) : Prop :=
  text ≠ [] ∧ (∀ c ∈ text, isDigit c = true) ∧
    text.foldl (fun value c => value * 10 + digitValue c) 0 = n

instance (text : Text) (n : ℕ) : Decidable (Decimal text n) :=
  have : Decidable (∀ c ∈ text, isDigit c = true) := List.decidableBAll _ text
  inferInstanceAs (Decidable (_ ∧ _ ∧ _))

/-- The digits are those of `isdigit`. -/
theorem isDigit_eq (c : Char) : isDigit c = c.isDigit := by
  rw [Bool.eq_iff_iff, isDigit, decide_eq_true_iff, Char.isDigit, Bool.and_eq_true,
    decide_eq_true_iff, decide_eq_true_iff]
  rfl

/-- A digit is worth at most nine. -/
theorem digitValue_le {c : Char} (h : isDigit c = true) : digitValue c ≤ 9 :=
  BoundedNumeral.digit_le (isDigit_eq c ▸ h)

section Digits

variable {text : Text} {value n : ℕ}

/-- The digits of a text are single ones of 64 bits. -/
theorem digitValues_le (hdigits : ∀ c ∈ text, isDigit c = true) :
    ∀ d ∈ text.map digitValue, d ≤ uint64Max := by
  refine List.forall_mem_map.mpr fun c hc => (digitValue_le (hdigits c hc)).trans ?_
  decide

/-- The digit loop of `content_length` reads digits only. -/
theorem isDigit_of_contentLengthDigits (h : contentLengthDigits text value = some n) :
    ∀ c ∈ text, isDigit c = true := by
  induction text generalizing value with
  | nil => exact List.forall_mem_nil _
  | cons c text ih =>
    rw [contentLengthDigits] at h
    split at h
    · cases h
    next hdigit =>
    split at h
    · cases h
    · exact List.forall_mem_cons.mpr ⟨not_not.mp hdigit, ih h⟩

/-- On digits it is the loop that reads a numeral of 64 bits. -/
theorem contentLengthDigits_eq_accumulate (hdigits : ∀ c ∈ text, isDigit c = true) (value : ℕ) :
    contentLengthDigits text value =
      BoundedNumeral.accumulate 10 uint64Max (text.map digitValue) value := by
  induction text generalizing value with
  | nil => rfl
  | cons c text ih =>
    obtain ⟨hc, hdigits⟩ := List.forall_mem_cons.mp hdigits
    rw [contentLengthDigits, if_neg (not_not.mpr hc), ih hdigits, List.map_cons,
      BoundedNumeral.accumulate]

/-- The digit loop of `content_length` reads exactly the numbers of 64 bits. -/
theorem contentLengthDigits_eq_some_iff (hvalue : value ≤ uint64Max) :
    contentLengthDigits text value = some n ↔
      (∀ c ∈ text, isDigit c = true) ∧
        text.foldl (fun value c => value * 10 + digitValue c) value = n ∧ n ≤ uint64Max := by
  rw [← List.foldl_map (f := digitValue) (g := fun value d => value * 10 + d)]
  by_cases hdigits : ∀ c ∈ text, isDigit c = true
  · rw [contentLengthDigits_eq_accumulate hdigits, and_iff_right hdigits]
    exact BoundedNumeral.accumulate_eq_some_iff (by decide) (digitValues_le hdigits) hvalue
  · exact iff_of_false (mt isDigit_of_contentLengthDigits hdigits) fun h => hdigits h.1

end Digits

namespace Head

/-- `content_length` reads the length a head declares. -/
theorem contentLength_block {head : Head} {value : Text} {n : ℕ}
    (hfield : head.field "content-length".toList = some value) (hvalue : Decimal value n)
    (hn : n ≤ uint64Max) : contentLength head.block = some n := by
  obtain ⟨hne, hdigits, rfl⟩ := hvalue
  rw [contentLength, headerValue_block, hfield]
  dsimp only
  rw [if_neg hne]
  exact (contentLengthDigits_eq_some_iff (Nat.zero_le _)).mpr ⟨hdigits, rfl, hn⟩

/-- Without the header there is no length to read. -/
theorem contentLength_block_eq_none {head : Head}
    (hfield : head.field "content-length".toList = none) : contentLength head.block = none := by
  rw [contentLength, headerValue_block, hfield]

end Head

end Http

end Dariyanaap

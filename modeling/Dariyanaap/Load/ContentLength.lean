import Dariyanaap.Load.Framing

/-!
# Headers that disagree about the body

A head can say where the body ends in more than one way: its status may carry no body, it may
declare a length, declare two of them, or announce an encoding. `consume` asks in one order: an
encoding is refused, the first `Content-Length` decides if it can be read, and only then the
status is looked at.

Two consequences are not what the framing is for. A status that carries no body is waited on for
the body its head declares (`bodyless_complete_iff`), and of two lengths that differ the first is
believed (`ambiguous_refused_iff`).
-/

namespace Dariyanaap

open Text Http

namespace Http

/-- A header block has a header of that name. -/
def Carries (headers name : Text) : Prop :=
  ∃ line ∈ headerLinesOf headers, ∃ value, HeaderLine name line value

/-- The first `Content-Length` of a header block is a decimal number of 64 bits. -/
def DeclaresLength (headers : Text) (n : ℕ) : Prop :=
  ∃ value, (headerValues headers "content-length".toList).head? = some value ∧
    Decimal value n ∧ n ≤ uint64Max

/-- A header line of that name, which may have blanks before its colon too. -/
def SpacedLine (name line value : Text) : Prop :=
  ∃ spelled blanks rest : Text, line = spelled ++ blanks ++ ':' :: rest ∧ ':' ∉ spelled ∧
    (∀ c ∈ blanks, isBlank c = true) ∧ HeaderLine name (spelled ++ ':' :: rest) value

/-- A header block in which the body ends in more than one place, or where no length can say:
an encoding, or two lengths that differ. -/
def Ambiguous (headers : Text) : Prop :=
  (∃ line ∈ headerLinesOf headers, ∃ value, SpacedLine "transfer-encoding".toList line value) ∨
    ∃ line ∈ headerLinesOf headers, ∃ value, SpacedLine "content-length".toList line value ∧
      ∃ line' ∈ headerLinesOf headers, ∃ value', SpacedLine "content-length".toList line' value' ∧
        value ≠ value'

/-- `header_value` finds a header when there is one. -/
theorem headerValue_eq_none_iff (headers name : Text) :
    headerValue headers name = none ↔ ¬Carries headers name := by
  rw [headerValue_eq_findSome?, findSome?_lineValue_eq_none_iff, Carries]
  simp only [not_exists, not_and]

/-- `content_length` reads what the first `Content-Length` declares. -/
theorem contentLength_eq_some_iff (headers : Text) (n : ℕ) :
    contentLength headers = some n ↔ DeclaresLength headers n := by
  rw [contentLength, headerValue_eq, DeclaresLength]
  cases (headerValues headers "content-length".toList).head? with
  | none => simp
  | some value =>
    simp only [Option.some.injEq, exists_eq_left', Decimal]
    rw [← and_assoc, and_assoc, and_assoc]
    split
    · next hnil => simp [hnil]
    · next hne =>
      rw [contentLengthDigits_eq_some_iff (Nat.zero_le _)]
      simp [hne]

theorem contentLength_eq_none_iff (headers : Text) :
    contentLength headers = none ↔ ¬∃ n, DeclaresLength headers n := by
  simp only [Option.eq_none_iff_forall_ne_some, Ne, contentLength_eq_some_iff, not_exists]

end Http

namespace Http11Get

variable {t : Text} {blank status : ℕ}

/-- The first `Content-Length` declares exactly the bytes that follow the head, or there is no
length to be read, the status carries no body and nothing follows. -/
def FramedByFirst (t : Text) (blank : ℕ) : Prop :=
  (t.length < 2 ^ 64 ∧ ∃ n, DeclaresLength (t.take blank) n ∧ t.length = blank + 4 + n) ∨
    (¬∃ n, DeclaresLength (t.take blank) n) ∧ (statusCode t).any carriesNoBody = true ∧
      t.length = blank + 4

/-- A buffer with a header block is complete when no encoding is announced and the first length
frames it. -/
theorem consume_eq_complete_iff_framedByFirst (hblank : find blankLine t = some blank) :
    consume t = .complete ↔
      ¬Carries (t.take blank) "transfer-encoding".toList ∧ FramedByFirst t blank := by
  rw [consume_eq_complete_iff, FramedByLength, WithoutBody, FramedByFirst,
    ← headerValue_eq_none_iff, ← contentLength_eq_none_iff]
  simp only [hblank, Option.some.injEq, ← contentLength_eq_some_iff]
  constructor
  · rintro (⟨hsmall, _, n, rfl, hte, hcl, hlength⟩ | ⟨_, rfl, hte, hcl, hstatus, hlength⟩)
    · exact ⟨hte, .inl ⟨hsmall, n, hcl, hlength⟩⟩
    · exact ⟨hte, .inr ⟨hcl, hstatus, hlength⟩⟩
  · rintro ⟨hte, ⟨hsmall, n, hcl, hlength⟩ | ⟨hcl, hstatus, hlength⟩⟩
    · exact .inl ⟨hsmall, blank, n, rfl, hte, hcl, hlength⟩
    · exact .inr ⟨blank, rfl, hte, hcl, hstatus, hlength⟩

/-- A head whose status carries no body, and nothing behind it: complete unless a
`Content-Length` that can be read declares bytes that will not come. -/
theorem bodyless_complete_iff (hmemory : t.length < 2 ^ 64)
    (hblank : find blankLine t = some blank) (hend : t.length = blank + 4)
    (hcode : statusCode t = some status)
    (hstatus : status = 204 ∨ status = 304 ∨ 100 ≤ status ∧ status < 200)
    (hte : ¬Carries (t.take blank) "transfer-encoding".toList) :
    consume t = .complete ↔ ¬∃ n, 0 < n ∧ DeclaresLength (t.take blank) n := by
  have hnobody : (statusCode t).any carriesNoBody = true := by
    rw [hcode]
    show carriesNoBody status = true
    simpa [carriesNoBody, or_assoc] using hstatus
  rw [consume_eq_complete_iff_framedByFirst hblank, and_iff_right hte]
  constructor
  · rintro (⟨-, n, hcl, hlength⟩ | ⟨hnone, -⟩) ⟨m, hm, hcl'⟩
    · -- the length that was read is the one that is declared
      rw [← contentLength_eq_some_iff] at hcl hcl'
      obtain rfl : n = m := Option.some.inj (hcl.symm.trans hcl')
      omega
    · exact hnone ⟨m, hcl'⟩
  · intro hzero
    by_cases hdeclares : ∃ n, DeclaresLength (t.take blank) n
    · obtain ⟨n, hcl⟩ := hdeclares
      obtain rfl : n = 0 := Nat.eq_zero_of_not_pos fun hpos => hzero ⟨n, hpos, hcl⟩
      exact .inl ⟨hmemory, 0, hcl, hend⟩
    · exact .inr ⟨hdeclares, hnobody, hend⟩

/-- A target that revalidates, and says how long the entity would have been. -/
def notModified5 : Text := "HTTP/1.1 304 Not Modified\r\nContent-Length: 5\r\n\r\n".toList

/-- The header block of `notModified5`. -/
theorem notModified5_head :
    find blankLine notModified5 = some 44 ∧ notModified5.length = 44 + 4 ∧
      statusCode notModified5 = some 304 ∧
        ¬Carries (notModified5.take 44) "transfer-encoding".toList :=
  ⟨by decide +kernel, by decide +kernel, by decide +kernel,
    (headerValue_eq_none_iff _ _).mp (by decide +kernel)⟩

/-- `304` with the length of the entity is a whole response, and a body is waited for. -/
theorem bodyless_complete_iff_304 :
    consume notModified5 = .complete ↔ ¬∃ n, 0 < n ∧ DeclaresLength (notModified5.take 44) n :=
  bodyless_complete_iff (by decide +kernel) notModified5_head.1 notModified5_head.2.1
    notModified5_head.2.2.1 (by decide) notModified5_head.2.2.2

/-- A status that carries no body does not end its response at the blank line whatever its
headers are. -/
theorem bodyless_waits :
    consume notModified5 = .needMore ∧
      ¬∀ (t : Text) (blank status : ℕ), t.length < 2 ^ 64 → find blankLine t = some blank →
        t.length = blank + 4 → statusCode t = some status →
          (status = 204 ∨ status = 304 ∨ 100 ≤ status ∧ status < 200) →
            ¬Carries (t.take blank) "transfer-encoding".toList → consume t = .complete := by
  have hwaits : consume notModified5 = .needMore := by decide +kernel
  refine ⟨hwaits, fun h => ?_⟩
  obtain ⟨hblank, hend, hcode, hte⟩ := notModified5_head
  have hcomplete := h notModified5 44 304 (by decide +kernel) hblank hend hcode (by decide) hte
  rw [hwaits] at hcomplete
  cases hcomplete

/-- An ambiguous header block is refused when it announces an encoding, and when the first of
its lengths does not frame the buffer. -/
theorem ambiguous_refused_iff (t : Text) (blank : ℕ) :
    find blankLine t = some blank → Ambiguous (t.take blank) →
      (consume t ≠ .complete ↔
        Carries (t.take blank) "transfer-encoding".toList ∨ ¬FramedByFirst t blank) := by
  intro hblank _
  rw [Ne, consume_eq_complete_iff_framedByFirst hblank, not_and_or, not_not]

/-- A response that declares two lengths, framed by the first of them. -/
def twoLengths : Text :=
  "HTTP/1.1 200 OK\r\nContent-Length: 5\r\nContent-Length: 6\r\n\r\nhello".toList

/-- A length on a line of its own. -/
theorem spacedLine_length (digit : Char) (h : isBlank digit = false) :
    SpacedLine "content-length".toList ("Content-Length: ".toList ++ [digit]) [digit] := by
  refine ⟨"Content-Length".toList, [], [' ', digit], rfl, by decide, List.forall_mem_nil _,
    "Content-Length".toList, [' '], [], rfl, by decide, by decide, ?_, ?_⟩
  · exact List.forall_mem_singleton.mpr rfl
  · simpa [Bare] using h

/-- The lengths of `twoLengths` differ. -/
theorem twoLengths_ambiguous :
    find blankLine twoLengths = some 53 ∧ Ambiguous (twoLengths.take 53) := by
  have hlines : headerLinesOf (twoLengths.take 53) =
      ["Content-Length: 5".toList, "Content-Length: 6".toList] := by
    decide +kernel
  refine ⟨by decide +kernel, .inr ⟨_, ?_, _, spacedLine_length '5' rfl,
    _, ?_, _, spacedLine_length '6' rfl, by decide⟩⟩
  · rw [hlines]
    exact List.mem_cons_self
  · rw [hlines]
    exact List.mem_cons_of_mem _ List.mem_cons_self

/-- `twoLengths` is framed by the first. -/
theorem ambiguous_refused_iff_twoLengths :
    consume twoLengths ≠ .complete ↔
      Carries (twoLengths.take 53) "transfer-encoding".toList ∨ ¬FramedByFirst twoLengths 53 :=
  ambiguous_refused_iff twoLengths 53 twoLengths_ambiguous.1 twoLengths_ambiguous.2

/-- Of two lengths that differ the first is believed. -/
theorem ambiguous_accepted :
    consume twoLengths = .complete ∧
      ¬∀ (t : Text) (blank : ℕ), find blankLine t = some blank → Ambiguous (t.take blank) →
        consume t ≠ .complete := by
  have hcomplete : consume twoLengths = .complete := by decide +kernel
  exact ⟨hcomplete, fun h =>
    h twoLengths 53 twoLengths_ambiguous.1 twoLengths_ambiguous.2 hcomplete⟩

end Http11Get

end Dariyanaap

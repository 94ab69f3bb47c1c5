import Dariyanaap.Load.Protocol

/-!
# HTTP/1.1 framing

The minimal HTTP of `load/http.cpp` and the verdicts of `Http11Get` (`load/http11_get.cpp`):
headers are searched line by line, a body is framed by `Content-Length` only, and a response
without one is complete at the end of its headers only for the statuses defined to carry no
body.

`consume` looks at the bytes up to the first blank line and at the number of bytes received.
A shorter buffer of a complete reply is therefore never complete (`consume_prefix`), and is
asked to read on when the header block respects its bound (`consume_needMore_of_prefix`).
-/

namespace Dariyanaap

namespace Http

open Text

/-- The end of a line. -/
def crlf : Text := ['\r', '\n']

/-- The blank line that ends a header block. -/
def blankLine : Text := ['\r', '\n', '\r', '\n']

/-- `digit < '0' || digit > '9'`, negated. -/
def isDigit (c : Char) : Bool := decide ('0' ≤ c ∧ c ≤ '9')

/-- `digit - '0'`. -/
def digitValue (c : Char) : ℕ := c.toNat - '0'.toNat

/-- `reject_crlf`. -/
def rejectCrlf (value : Text) (field : Text) : Except UsageError Unit :=
  if '\r' ∈ value ∨ '\n' ∈ value then .error ⟨field ++ " must not contain CR or LF".toList⟩
  else .ok ()

/-- `version()`. -/
def version : Text := "dariyanaap 0.1.0".toList

/-- `http::build_get`. -/
def buildGet (host path : Text) : Except UsageError Text :=
  if host = [] then
    .error ⟨"HTTP host must not be empty; HTTP/1.1 requires a Host header".toList⟩
  else if path.head? ≠ some '/' then
    .error ⟨"HTTP path must start with '/', got \"".toList ++ path ++ "\"".toList⟩
  else do
    rejectCrlf host "HTTP host".toList
    rejectCrlf path "HTTP path".toList
    .ok ("GET ".toList ++ path ++ " HTTP/1.1\r\n".toList ++
      ("Host: ".toList ++ host ++ "\r\n".toList) ++
      ("User-Agent: ".toList ++ version ++ "\r\n".toList) ++
      "Accept: */*\r\n".toList ++ "\r\n".toList)

/-- The digit loop of `status_code`. -/
def statusDigits : Text → (code : ℕ) → Option ℕ
  | [], code => some code
  | digit :: rest, code =>
      if isDigit digit then statusDigits rest (code * 10 + digitValue digit) else none

/-- `http::status_code`. -/
def statusCode (response : Text) : Option ℕ :=
  if response.length < 12 then none
  else if ¬"HTTP/1.1 ".toList.isPrefixOf response ∧ ¬"HTTP/1.0 ".toList.isPrefixOf response then
    none
  else
    match statusDigits ((response.drop 9).take 3) 0 with
    | none => none
    | some code =>
        -- a fourth digit means the status line is not a status line
        if (response[12]?).any isDigit then none else some code

/-- ASCII lower case, as `equal_ignoring_case` computes it. -/
def lower (c : Char) : Char :=
  if 'A' ≤ c ∧ c ≤ 'Z' then Char.ofNat (c.toNat + 32) else c

/-- `equal_ignoring_case`. -/
def equalIgnoringCase (a b : Text) : Bool :=
  a.length == b.length && (a.zip b).all fun (left, right) => lower left == lower right

/-- A space or a tab. -/
def isBlank (c : Char) : Bool := c == ' ' || c == '\t'

/-- `trim`. -/
def trim (value : Text) : Text :=
  ((value.dropWhile isBlank).reverse.dropWhile isBlank).reverse

/-- The line loop of `header_value`, from the line that begins at `lineBegins`. -/
def headerLines (headers name : Text) : (fuel : ℕ) → (lineBegins : ℕ) → Option Text
  | 0, _ => none
  | fuel + 1, lineBegins =>
      if lineBegins < headers.length then
        let lineEnds := (findFrom crlf headers lineBegins).getD headers.length
        let line := (headers.drop lineBegins).take (lineEnds - lineBegins)
        match find [':'] line with
        | some colon =>
            if equalIgnoringCase (line.take colon) name then some (trim (line.drop (colon + 1)))
            else headerLines headers name fuel (lineEnds + 2)
        | none => headerLines headers name fuel (lineEnds + 2)
      else none

/-- `http::header_value`. Every turn of the loop moves at least two bytes on, so the length of
the headers is fuel enough. -/
def headerValue (headers name : Text) : Option Text :=
  match find crlf headers with
  | none => none
  | some lineBegins => headerLines headers name headers.length (lineBegins + 2)

/-- The digit loop of `content_length`, with the test that keeps it inside 64 bits. -/
def contentLengthDigits : Text → (length : ℕ) → Option ℕ
  | [], length => some length
  | digit :: rest, length =>
      if ¬isDigit digit then none
      else if (uint64Max - digitValue digit) / 10 < length then none
      else contentLengthDigits rest (length * 10 + digitValue digit)

/-- `http::content_length`. -/
def contentLength (headers : Text) : Option ℕ :=
  match headerValue headers "content-length".toList with
  | none => none
  | some value => if value = [] then none else contentLengthDigits value 0

end Http

namespace Http11Get

open Text Http

/-- `kMaxHeaderBytes`. -/
def kMaxHeaderBytes : ℕ := 64 * 1024

/-- `carries_no_body`. -/
def carriesNoBody (status : ℕ) : Bool :=
  status == 204 || status == 304 || (decide (100 ≤ status) && decide (status < 200))

/-- `Http11Get::consume`. The end of the body is a `size_t`, so its sum is taken modulo
`2 ^ 64`. -/
def consume (response : Text) : ResponseState :=
  match find blankLine response with
  | none => if kMaxHeaderBytes < response.length then .malformed else .needMore
  | some blank =>
      let headers := response.take blank
      let bodyBegins := blank + 4
      if (headerValue headers "transfer-encoding".toList).isSome then .malformed
      else
        match contentLength headers with
        | none =>
            if (statusCode response).any carriesNoBody then
              if response.length = bodyBegins then .complete else .malformed
            else .malformed
        | some declared =>
            let total := (bodyBegins + declared) % 2 ^ 64
            if response.length < total then .needMore
            else if response.length = total then .complete
            else .malformed

/-- With no blank line yet, only the size of the buffer is judged. -/
theorem consume_of_find_eq_none {u : Text} (h : find blankLine u = none) :
    consume u = if kMaxHeaderBytes < u.length then .malformed else .needMore := by
  rw [consume, h]

/-- A complete reply holds a blank line. -/
theorem find_isSome_of_complete {t : Text} (h : consume t = .complete) :
    ∃ blank, find blankLine t = some blank := by
  cases hfind : find blankLine t with
  | none =>
    rw [consume_of_find_eq_none hfind] at h
    split at h <;> cases h
  | some blank => exact ⟨blank, rfl⟩

/-- A shorter buffer of a complete reply is never complete: it is asked to read on, unless it
has no blank line yet and already exceeds the bound on headers. -/
theorem consume_prefix {u w : Text} (h : consume (u ++ w) = .complete) (hw : w ≠ []) :
    consume u = .needMore ∨
      find blankLine u = none ∧ kMaxHeaderBytes < u.length ∧ consume u = .malformed := by
  have hlen : 0 < w.length := List.length_pos_of_ne_nil hw
  cases hfind : find blankLine u with
  | none =>
    rw [consume_of_find_eq_none hfind]
    by_cases hbig : kMaxHeaderBytes < u.length
    · exact .inr ⟨rfl, hbig, if_pos hbig⟩
    · exact .inl (if_neg hbig)
  | some blank =>
    -- the blank line is in `u`, so both buffers are judged by the same headers
    have hfit : blank + 4 ≤ u.length := find_add_length_le hfind
    have htake : (u ++ w).take blank = u.take blank :=
      List.take_append_of_le_length (by omega)
    left
    rw [consume, find_append hfind w] at h
    rw [consume, hfind]
    simp only [htake, List.length_append] at h ⊢
    split at h
    · cases h
    next hte =>
    rw [if_neg hte]
    cases hcl : contentLength (u.take blank) with
    | none =>
      simp only [hcl] at h
      split at h
      · split at h
        · omega
        · cases h
      · cases h
    | some declared =>
      simp only [hcl] at h ⊢
      split at h
      · cases h
      · split at h
        · rw [if_pos (by omega)]
        · cases h

/-- Every shorter buffer of a complete reply with a bounded header block reads on. -/
theorem consume_needMore_of_prefix {u w : Text} {blank : ℕ} (h : consume (u ++ w) = .complete)
    (hw : w ≠ []) (hblank : find blankLine (u ++ w) = some blank)
    (hbound : blank + 4 ≤ kMaxHeaderBytes) : consume u = .needMore := by
  rcases consume_prefix h hw with hmore | ⟨hnone, hbig, -⟩
  · exact hmore
  · -- a buffer past the bound would hold the blank line
    have hfit : blank + blankLine.length ≤ u.length := by
      have : blankLine.length = 4 := rfl
      omega
    rw [find_of_append hblank hfit] at hnone
    cases hnone

/-- `Http11Get::succeeded`: a status of `2xx`. -/
def succeeded (response : Text) : Bool :=
  (statusCode response).any fun status => decide (200 ≤ status) && decide (status < 300)

/-- `Http11Get` with its request built. -/
def protocol (request : Text) : Protocol where
  request := request
  consume := consume
  succeeded := succeeded

/-- The constructor throws what `build_get` throws. -/
def make (host path : Text) : Except UsageError Protocol :=
  (buildGet host path).map protocol

end Http11Get

end Dariyanaap

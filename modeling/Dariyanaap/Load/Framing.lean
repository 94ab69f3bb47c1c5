import Dariyanaap.Load.Interim

/-!
# What framing accepts

`consume` calls a buffer complete on two grounds only (`consume_eq_complete_iff`): its head
declares exactly the bytes that follow it, or its status carries no body and nothing follows.
So a complete reply is complete at one length (`complete_at_one_length`), and a complete reply
need not be HTTP at all: `rejected_readable_iff` says which rejections have a status that can be
read.
-/

namespace Dariyanaap

open Text Http

namespace Http

/-- `content_length` answers a number of 64 bits. -/
theorem contentLength_le {headers : Text} {n : ℕ} (h : contentLength headers = some n) :
    n ≤ uint64Max := by
  rw [contentLength] at h
  split at h
  · cases h
  · split at h
    · cases h
    · exact ((contentLengthDigits_eq_some_iff (Nat.zero_le _)).mp h).2.2

/-- The versions `status_code` knows. -/
def versions : List Text := ["HTTP/1.1 ".toList, "HTTP/1.0 ".toList]

/-- A status line as far as `status_code` reads it: a version, three digits, no fourth. -/
def StatusLine (t : Text) : Prop :=
  ∃ version ∈ versions, ∃ (a b c : Char) (rest : Text),
    t = version ++ a :: b :: c :: rest ∧ isDigit a = true ∧ isDigit b = true ∧
      isDigit c = true ∧ ∀ d ∈ rest.head?, isDigit d = false

/-- The three digits begin at byte nine. -/
theorem length_version {version : Text} (h : version ∈ versions) : version.length = 9 := by
  simp only [versions, List.mem_cons, List.not_mem_nil, or_false] at h
  rcases h with rfl | rfl <;> rfl

/-- A text with a known version gets past the version test. -/
theorem known_iff (t : Text) :
    (¬"HTTP/1.1 ".toList.isPrefixOf t ∧ ¬"HTTP/1.0 ".toList.isPrefixOf t) ↔
      ¬∃ version ∈ versions, version <+: t := by
  simp [versions, List.isPrefixOf_iff_prefix]

/-- The digit loop reads a text of digits and no other. -/
theorem statusDigits_isSome_iff (text : Text) (code : ℕ) :
    (statusDigits text code).isSome ↔ ∀ c ∈ text, isDigit c = true := by
  induction text generalizing code with
  | nil => simp [statusDigits]
  | cons c text ih =>
    rw [statusDigits, List.forall_mem_cons]
    by_cases hc : isDigit c = true
    · rw [if_pos hc, ih]
      exact (and_iff_right hc).symm
    · rw [if_neg hc]
      simp [hc]

/-- Behind a version `status_code` asks for three digits and no fourth. -/
theorem statusCode_version {version : Text}
    (hversion : version ∈ versions) (a b c : Char) (rest : Text) :
    (statusCode (version ++ a :: b :: c :: rest)).isSome ↔
      (isDigit a = true ∧ isDigit b = true ∧ isDigit c = true) ∧
        ∀ d ∈ rest.head?, isDigit d = false := by
  have hnine := length_version hversion
  have hknown : ¬(¬"HTTP/1.1 ".toList.isPrefixOf (version ++ a :: b :: c :: rest) ∧
      ¬"HTTP/1.0 ".toList.isPrefixOf (version ++ a :: b :: c :: rest)) := fun h =>
    (known_iff _).mp h ⟨version, hversion, List.prefix_append _ _⟩
  have hlong : ¬(version ++ a :: b :: c :: rest).length < 12 := by
    simp only [List.length_append, List.length_cons]
    omega
  have hdigits : ((version ++ a :: b :: c :: rest).drop 9).take 3 = [a, b, c] := by
    rw [← hnine, List.drop_left]
    rfl
  have hfourth : (version ++ a :: b :: c :: rest)[12]? = rest.head? := by
    rw [List.getElem?_append_right (by omega), hnine, List.head?_eq_getElem?]
    rfl
  have hthree := statusDigits_isSome_iff [a, b, c] 0
  simp only [List.forall_mem_cons, List.not_mem_nil, false_imp_iff, implies_true, and_true]
    at hthree
  rw [statusCode, if_neg hlong, if_neg hknown, hdigits, hfourth, ← hthree]
  cases statusDigits [a, b, c] 0 with
  | none => simp
  | some code =>
    cases rest.head? with
    | none => simp
    | some d => cases hd : isDigit d <;> simp [hd]

/-- `status_code` looks at thirteen bytes. -/
theorem statusCode_append {t : Text} (h : 13 ≤ t.length) (w : Text) :
    statusCode (t ++ w) = statusCode t := by
  have hprefix : ∀ version : Text, version.length = 9 →
      version.isPrefixOf (t ++ w) = version.isPrefixOf t := by
    intro version hversion
    rw [Bool.eq_iff_iff, List.isPrefixOf_iff_prefix, List.isPrefixOf_iff_prefix]
    refine ⟨fun hlong => ?_, fun hshort => hshort.trans (List.prefix_append t w)⟩
    exact List.prefix_of_prefix_length_le hlong (List.prefix_append t w) (by omega)
  have hdigits : ((t ++ w).drop 9).take 3 = (t.drop 9).take 3 := by
    rw [List.drop_append_of_le_length (by omega),
      List.take_append_of_le_length (by rw [List.length_drop]; omega)]
  have hfourth : (t ++ w)[12]? = t[12]? := List.getElem?_append_left (by omega)
  have hlong : ¬(t ++ w).length < 12 := by
    rw [List.length_append]
    omega
  have hlong' : ¬t.length < 12 := by omega
  rw [statusCode, if_neg hlong, hprefix _ rfl, hprefix _ rfl, hdigits, hfourth, statusCode,
    if_neg hlong']

/-- `status_code` has a value exactly on a status line. -/
theorem statusCode_isSome_iff (t : Text) : (statusCode t).isSome ↔ StatusLine t := by
  constructor
  · intro h
    have hlong : ¬t.length < 12 := by
      intro hshort
      rw [statusCode, if_pos hshort] at h
      cases h
    obtain ⟨version, hversion, s, rfl⟩ : ∃ version ∈ versions, version <+: t := by
      by_contra hunknown
      rw [statusCode, if_neg hlong, if_pos ((known_iff t).mpr hunknown)] at h
      cases h
    have hnine := length_version hversion
    -- twelve bytes leave three behind the version
    rcases s with _ | ⟨a, _ | ⟨b, _ | ⟨c, rest⟩⟩⟩
    · simp only [List.append_nil] at hlong
      omega
    · simp only [List.length_append, List.length_cons, List.length_nil] at hlong
      omega
    · simp only [List.length_append, List.length_cons, List.length_nil] at hlong
      omega
    · obtain ⟨⟨ha, hb, hc⟩, hrest⟩ := (statusCode_version hversion a b c rest).mp h
      exact ⟨version, hversion, a, b, c, rest, rfl, ha, hb, hc, hrest⟩
  · rintro ⟨version, hversion, a, b, c, rest, rfl, ha, hb, hc, hrest⟩
    exact (statusCode_version hversion a b c rest).mpr ⟨⟨ha, hb, hc⟩, hrest⟩

end Http

namespace Http11Get

variable {t u w : Text} {blank : ℕ}

/-- The head declares, in a `Content-Length` that can be read, exactly the bytes that follow. -/
def FramedByLength (t : Text) : Prop :=
  t.length < 2 ^ 64 ∧ ∃ blank declared, find blankLine t = some blank ∧
    headerValue (t.take blank) "transfer-encoding".toList = none ∧
      contentLength (t.take blank) = some declared ∧ t.length = blank + 4 + declared

/-- The head declares no length under a status that carries no body, and nothing follows. -/
def WithoutBody (t : Text) : Prop :=
  ∃ blank, find blankLine t = some blank ∧
    headerValue (t.take blank) "transfer-encoding".toList = none ∧
      contentLength (t.take blank) = none ∧ (statusCode t).any carriesNoBody = true ∧
        t.length = blank + 4

/-- The two grounds on which a buffer is complete. -/
theorem consume_eq_complete_iff (t : Text) :
    consume t = .complete ↔ FramedByLength t ∨ WithoutBody t := by
  constructor
  · intro h
    obtain ⟨blank, hblank⟩ := find_isSome_of_complete h
    have hfit : blank + 4 ≤ t.length := find_add_length_le hblank
    rw [consume, hblank] at h
    dsimp only at h
    -- the branches in the order of the source: chunked, no length, a length
    split at h
    · cases h
    next hte =>
    have hte' : headerValue (t.take blank) "transfer-encoding".toList = none := by
      simpa using hte
    split at h
    · next hcl =>
      split at h
      · next hstatus =>
        split at h
        · next hlength => exact .inr ⟨blank, hblank, hte', hcl, hstatus, hlength⟩
        · cases h
      · cases h
    · next declared hcl =>
      split at h
      · cases h
      split at h
      · next htotal =>
        have hdeclared := contentLength_le hcl
        have hmax : uint64Max = 2 ^ 64 - 1 := rfl
        -- a sum that wraps would end inside the head
        have hwrap : blank + 4 + declared < 2 ^ 64 := by
          by_contra hbig
          omega
        rw [Nat.mod_eq_of_lt hwrap] at htotal
        exact .inl ⟨htotal ▸ hwrap, blank, declared, hblank, hte', hcl, htotal⟩
      · cases h
  · rintro (⟨hsmall, blank, declared, hblank, hte, hcl, hlength⟩ |
      ⟨blank, hblank, hte, hcl, hstatus, hlength⟩)
    · rw [consume, hblank]
      have htotal : (blank + 4 + declared) % 2 ^ 64 = t.length := by
        rw [← hlength, Nat.mod_eq_of_lt hsmall]
      simp only [hte, hcl, htotal, Option.isSome_none, Bool.false_eq_true, if_false, lt_irrefl,
        if_true]
    · rw [consume, hblank]
      simp only [hte, hcl, hstatus, hlength, Option.isSome_none, Bool.false_eq_true, if_false,
        if_true]

/-! ## One length -/

/-- A complete reply is malformed as soon as anything follows it. -/
theorem consume_append_of_complete (h : consume t = .complete) (hw : w ≠ []) :
    consume (t ++ w) = .malformed := by
  have hpos : 0 < w.length := List.length_pos_of_ne_nil hw
  obtain ⟨blank, hblank⟩ := find_isSome_of_complete h
  have hfit : blank + 4 ≤ t.length := find_add_length_le hblank
  have htake : (t ++ w).take blank = t.take blank := List.take_append_of_le_length (by omega)
  -- both buffers are judged by the same headers
  rw [consume, find_append hblank w]
  rcases (consume_eq_complete_iff t).mp h with
    ⟨hsmall, blank', declared, hblank', hte, hcl, hlength⟩ | ⟨blank', hblank', hte, hcl, -, hlength⟩
  · obtain rfl : blank = blank' := Option.some.inj (hblank.symm.trans hblank')
    have htotal : (blank + 4 + declared) % 2 ^ 64 = t.length := by
      rw [← hlength, Nat.mod_eq_of_lt hsmall]
    simp only [htake, hte, hcl, htotal, List.length_append, Option.isSome_none,
      Bool.false_eq_true, if_false]
    rw [if_neg (by omega), if_neg (by omega)]
  · obtain rfl : blank = blank' := Option.some.inj (hblank.symm.trans hblank')
    simp only [htake, hte, hcl, List.length_append, Option.isSome_none, Bool.false_eq_true,
      if_false]
    split
    · rw [if_neg (by omega)]
    · rfl

/-- A complete reply with a bounded header block is read on inside and malformed beyond, so it
is complete at one length only; and no length that a `Content-Length` can declare makes the sum
of `consume` wrap into a complete reply. -/
theorem complete_at_one_length (hmemory : t.length < 2 ^ 64)
    (hblank : find blankLine t = some blank) :
    (consume t = .complete → blank + 4 ≤ kMaxHeaderBytes →
      (∀ u w, u ++ w = t → w ≠ [] → consume u = .needMore) ∧
      (∀ w, w ≠ [] → consume (t ++ w) = .malformed) ∧
      ∀ s, s <+: t ∨ t <+: s → consume s = .complete → s.length = t.length) ∧
      ∀ declared, contentLength (t.take blank) = some declared →
        declared ≤ uint64Max ∧ (2 ^ 64 ≤ blank + 4 + declared → consume t ≠ .complete) := by
  refine ⟨fun hcomplete hbound => ?_, fun declared hcl => ?_⟩
  · have hinside : ∀ u w, u ++ w = t → w ≠ [] → consume u = .needMore := by
      rintro u w rfl hw
      exact consume_needMore_of_prefix hcomplete hw hblank hbound
    have hbeyond : ∀ w, w ≠ [] → consume (t ++ w) = .malformed := fun w hw =>
      consume_append_of_complete hcomplete hw
    refine ⟨hinside, hbeyond, ?_⟩
    rintro s (⟨w, hw⟩ | ⟨w, rfl⟩) hs
    · -- a shorter text is read on
      rcases eq_or_ne w [] with rfl | hne
      · rw [← hw, List.append_nil]
      · rw [hinside s w hw hne] at hs
        cases hs
    · -- a longer one is malformed
      rcases eq_or_ne w [] with rfl | hne
      · rw [List.append_nil]
      · rw [hbeyond w hne] at hs
        cases hs
  · refine ⟨contentLength_le hcl, fun hwrap hcomplete => ?_⟩
    rcases (consume_eq_complete_iff t).mp hcomplete with
      ⟨-, blank', declared', hblank', -, hcl', hlength⟩ | ⟨blank', hblank', -, hcl', -⟩
    · obtain rfl : blank = blank' := Option.some.inj (hblank.symm.trans hblank')
      obtain rfl : declared = declared' := Option.some.inj (hcl.symm.trans hcl')
      omega
    · obtain rfl : blank = blank' := Option.some.inj (hblank.symm.trans hblank')
      rw [hcl] at hcl'
      cases hcl'

/-- A reply with a body of two bytes. -/
def okHi : Text := "HTTP/1.1 200 OK\r\nContent-Length: 2\r\n\r\nhi".toList

/-- `okHi` is complete at its last byte and at no other. -/
theorem complete_at_one_length_okHi :
    consume okHi = .complete ∧
      (∀ u w, u ++ w = okHi → w ≠ [] → consume u = .needMore) ∧
      (∀ w, w ≠ [] → consume (okHi ++ w) = .malformed) ∧
      (∀ s, s <+: okHi ∨ okHi <+: s → consume s = .complete → s.length = okHi.length) ∧
      ∀ declared, contentLength (okHi.take 34) = some declared →
        declared ≤ uint64Max ∧ 34 + 4 + declared < 2 ^ 64 := by
  have hcomplete : consume okHi = .complete := by decide +kernel
  have hblank : find blankLine okHi = some 34 := by decide +kernel
  have h := complete_at_one_length (by decide +kernel) hblank
  obtain ⟨hinside, hbeyond, honly⟩ := h.1 hcomplete (by decide +kernel)
  refine ⟨hcomplete, hinside, hbeyond, honly, fun declared hdeclared => ?_⟩
  obtain ⟨hle, hwrap⟩ := h.2 declared hdeclared
  exact ⟨hle, not_le.mp fun hlong => hwrap hlong hcomplete⟩

end Http11Get

/-! ## Replies that are not HTTP -/

section Rejections

variable {request : Text} {script : Script} {e : Exchange} {rest : List Read}

/-- The reply of an exchange: the bytes of the reads it made. -/
def Replied (script : Script) (rest : List Read) (reply : Text) : Prop :=
  ∃ arrivals : Arrivals, script.reads = arrivals.reads ++ rest ∧ arrivals.text = reply

/-- The request is written, and the reads deliver `t` without a boundary that is past the bound
on header blocks and still before the blank line. -/
def Delivers (script : Script) (t : Text) : Prop :=
  script.write = .done ∧ ∃ (arrivals : Arrivals) (later : List Read),
    script.reads = arrivals.reads ++ later ∧ arrivals.Nonempty ∧ arrivals.text = t ∧
      ∀ u v : Arrivals, u ++ v = arrivals → v ≠ [] → find blankLine u.text = none →
        u.text.length ≤ Http11Get.kMaxHeaderBytes

/-- Chunks are told apart by the reads that return them. -/
theorem Arrivals.reads_injective : Function.Injective Arrivals.reads := by
  intro first second h
  refine List.map_injective_iff.mpr ?_ h
  rintro ⟨chunk, now⟩ ⟨chunk', now'⟩ hread
  obtain ⟨rfl, rfl⟩ := Read.bytes.inj hread
  rfl

/-- A complete reply that is delivered is what the exchange judges. -/
theorem Delivers.exchange {t : Text} (request : Text) (hdelivers : Delivers script t)
    (hcomplete : Http11Get.consume t = .complete) :
    ∃ (arrivals : Arrivals) (now : Instant) (later : List Read),
      script.reads = arrivals.reads ++ later ∧ arrivals.text = t ∧
        performRequest (Http11Get.protocol request) script =
          some (judged (Http11Get.protocol request) script.sent now t, later) := by
  obtain ⟨hwrite, arrivals, later, hreads, hne, rfl, hinside⟩ := hdelivers
  rcases List.eq_nil_or_concat' arrivals with rfl | ⟨before, c, rfl⟩
  · cases hcomplete
  refine ⟨before ++ [c], c.2, later, hreads, rfl, ?_⟩
  have hc : c.1 ≠ [] := hne c (List.mem_append_right _ List.mem_cons_self)
  -- before the last read the reply is read on, as no boundary lies past the bound
  have hmore : ∀ u v : Arrivals, u ++ v = before → u ≠ [] →
      (Http11Get.protocol request).consume ([] ++ u.text) = .needMore := by
    rintro u v rfl -
    rw [List.nil_append]
    have hsplit : u.text ++ (v.text ++ c.1) = Arrivals.text (u ++ v ++ [c]) := by
      simp [Arrivals.text]
    have hwhole : Http11Get.consume (u.text ++ (v.text ++ c.1)) = .complete := by
      rw [hsplit]
      exact hcomplete
    rcases Http11Get.consume_prefix hwhole (by simp [hc]) with hmore | ⟨hnone, hbig, -⟩
    · exact hmore
    · have hle := hinside u (v ++ [c]) (List.append_assoc u v [c]).symm (by simp) hnone
      exact absurd hbig (not_lt.mpr hle)
  have hstop : (Http11Get.protocol request).consume ([] ++ Arrivals.text (before ++ [c])) ≠
      .needMore := by
    rw [List.nil_append]
    exact fun h => by cases hcomplete.symm.trans h
  rw [performRequest, hwrite, hreads]
  exact readLoop_of_stop hne hmore hstop

/-- An exchange that ends with a whole reply was delivered it. -/
theorem delivers_of_replied
    (h : performRequest (Http11Get.protocol request) script = some (e, rest))
    (hreplied : e.outcome.replied) :
    ∃ t, Replied script rest t ∧ Delivers script t ∧ Http11Get.consume t = .complete ∧
      (e.outcome = .succeeded ↔ Http11Get.succeeded t = true) := by
  rw [performRequest] at h
  split at h
  · cases h
    cases hreplied
  · cases h
    cases hreplied
  next hwrite =>
  obtain ⟨arrivals, hreads, hne, hcomplete, hverdict, hinside⟩ := readLoop_replied h hreplied
  rw [List.nil_append] at hcomplete hverdict
  refine ⟨arrivals.text, ⟨arrivals, hreads, rfl⟩, ⟨hwrite, arrivals, rest, hreads, hne, rfl, ?_⟩,
    hcomplete, hverdict⟩
  intro u v huv hv hnone
  -- `consume` asked for more at this boundary, so it was within the bound
  rcases eq_or_ne u [] with rfl | hu
  · exact Nat.zero_le _
  · have hmore : Http11Get.consume ([] ++ u.text) = .needMore := hinside u v huv hu hv
    rw [List.nil_append, Http11Get.consume_of_find_eq_none hnone] at hmore
    by_contra hbig
    rw [if_pos (not_le.mp hbig)] at hmore
    cases hmore

/-- A complete reply has a readable status unless its head declares its length under a first
line that is no status line. -/
theorem complete_readable_iff (t : Text) :
    (Http11Get.consume t = .complete → (statusCode t).isSome) ↔
      ¬(Http11Get.FramedByLength t ∧ ¬StatusLine t) := by
  rw [Http11Get.consume_eq_complete_iff, statusCode_isSome_iff, not_and, not_not]
  refine ⟨fun h hframed => h (.inl hframed), fun h hcomplete => ?_⟩
  rcases hcomplete with hframed | ⟨blank, -, -, -, hstatus, -⟩
  · exact h hframed
  · -- a status without a body was read
    refine (statusCode_isSome_iff t).mp ?_
    cases hcode : statusCode t with
    | none =>
      rw [hcode] at hstatus
      cases hstatus
    | some code => rfl

/-- A reply framed by its length under no status line is rejected, and has no status to read. -/
theorem Delivers.rejected {t : Text} (hdelivers : Delivers script t)
    (hperform : performRequest (Http11Get.protocol request) script = some (e, rest))
    (hframed : Http11Get.FramedByLength t) (hline : ¬StatusLine t) :
    e.outcome = .rejected ∧ ∀ reply, Replied script rest reply → statusCode reply = none := by
  have hcomplete := (Http11Get.consume_eq_complete_iff t).mpr (.inl hframed)
  have hcode : statusCode t = none := by
    by_contra hsome
    exact hline ((statusCode_isSome_iff t).mp (Option.isSome_iff_ne_none.mpr hsome))
  obtain ⟨arrivals, now, later, hreads, htext, hjudged⟩ := hdelivers.exchange request hcomplete
  obtain ⟨rfl, rfl⟩ := Prod.mk.inj (Option.some.inj (hjudged.symm.trans hperform))
  refine ⟨?_, ?_⟩
  · have hverdict : (Http11Get.protocol request).consume t = .complete := hcomplete
    have hfailed : (Http11Get.protocol request).succeeded t = false := by
      show (statusCode t).any _ = false
      rw [hcode]
      rfl
    rw [judged, if_pos hverdict, hfailed]
    rfl
  · -- the reads this exchange made are the ones that deliver `t`
    rintro reply ⟨arrivals', hreads', rfl⟩
    have hsame : arrivals.reads = arrivals'.reads :=
      List.append_cancel_right (hreads.symm.trans hreads')
    rw [← Arrivals.reads_injective hsame, htext, hcode]

/-- A rejection whose reply has a status line has a status outside `2xx`. -/
theorem readable_of_rejected
    (hperform : performRequest (Http11Get.protocol request) script = some (e, rest))
    (hrejected : e.outcome = .rejected)
    (hline : ∀ t, Delivers script t → Http11Get.FramedByLength t → StatusLine t) :
    ∃ reply code, Replied script rest reply ∧ statusCode reply = some code ∧
      ¬(200 ≤ code ∧ code < 300) := by
  have hreplied : e.outcome.replied = true := by
    rw [hrejected]
    rfl
  obtain ⟨t, hreply, hdelivers, hcomplete, hverdict⟩ := delivers_of_replied hperform hreplied
  have hsome : (statusCode t).isSome :=
    (complete_readable_iff t).mpr (fun h => h.2 (hline t hdelivers h.1)) hcomplete
  obtain ⟨code, hcode⟩ := Option.isSome_iff_exists.mp hsome
  refine ⟨t, code, hreply, hcode, fun hrange => ?_⟩
  have hsucceeded : e.outcome = .succeeded := by
    refine hverdict.mpr ?_
    rw [Http11Get.succeeded, hcode]
    simpa using hrange
  rw [hrejected] at hsucceeded
  cases hsucceeded

/-- A complete reply has a readable status unless its head declares its length under a first
line that is no status line, and an exchange is rejected with a readable status unless such a
reply is what its reads deliver. -/
theorem rejected_readable_iff (request : Text) :
    (∀ t, (Http11Get.consume t = .complete → (statusCode t).isSome) ↔
      ¬(Http11Get.FramedByLength t ∧ ¬StatusLine t)) ∧
    ∀ script e rest,
      performRequest (Http11Get.protocol request) script = some (e, rest) →
        ((e.outcome = .rejected → ∃ reply code, Replied script rest reply ∧
            statusCode reply = some code ∧ ¬(200 ≤ code ∧ code < 300)) ↔
          ¬∃ t, Delivers script t ∧ Http11Get.FramedByLength t ∧ ¬StatusLine t) := by
  refine ⟨complete_readable_iff, fun script e rest hperform =>
    ⟨fun hreadable => ?_, fun hnone hrejected => ?_⟩⟩
  · rintro ⟨t, hdelivers, hframed, hline⟩
    obtain ⟨hrejected, hunread⟩ := hdelivers.rejected hperform hframed hline
    obtain ⟨reply, code, hreply, hsome, -⟩ := hreadable hrejected
    rw [hunread reply hreply] at hsome
    cases hsome
  · refine readable_of_rejected hperform hrejected fun t hdelivers hframed => ?_
    by_contra hline
    exact hnone ⟨t, hdelivers, hframed, hline⟩

/-- A reply that declares its length under a first line of its own making. -/
def notHttp : Text := "220 ready\r\nContent-Length: 0\r\n\r\n".toList

/-- A service that is not HTTP and happens to declare a length is reported as a target that
answered the request, with a status that was not `2xx`. -/
theorem notHttp_rejected :
    Http11Get.consume notHttp = .complete ∧ statusCode notHttp = none ∧
      performRequest (Http11Get.protocol []) ⟨0, .done, [.bytes notHttp 1]⟩ =
        some (⟨.rejected, 1, true⟩, []) ∧
      ¬∀ t, Http11Get.consume t = .complete → (statusCode t).isSome := by
  have hcomplete : Http11Get.consume notHttp = .complete := by decide +kernel
  have hnone : statusCode notHttp = none := by decide +kernel
  refine ⟨hcomplete, hnone, by decide +kernel, fun h => ?_⟩
  have hsome := h notHttp hcomplete
  rw [hnone] at hsome
  cases hsome

/-- `503` is a rejection, and its status can be read. -/
theorem rejected_readable_iff_503 :
    ((Outcome.rejected = .rejected → ∃ reply code,
        Replied ⟨0, .done, [.bytes unavailable503.bytes 1]⟩ [] reply ∧
          statusCode reply = some code ∧ ¬(200 ≤ code ∧ code < 300)) ↔
      ¬∃ t, Delivers ⟨0, .done, [.bytes unavailable503.bytes 1]⟩ t ∧
        Http11Get.FramedByLength t ∧ ¬StatusLine t) :=
  (rejected_readable_iff []).2 ⟨0, .done, [.bytes unavailable503.bytes 1]⟩ ⟨.rejected, 1, true⟩ []
    (by decide +kernel)

end Rejections

end Dariyanaap

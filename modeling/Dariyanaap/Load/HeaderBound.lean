import Dariyanaap.Load.Framing

/-!
# The bound on header blocks

`consume` compares a buffer with `kMaxHeaderBytes` only while it holds no blank line, and
`perform_request` asks only at read boundaries. So a response whose header block exceeds the
bound, and whose body `consume` can frame, is refused exactly when a read ends past the bound and
before the end of the blank line (`protocolError_iff_refused`). Which reads end there is up to the
segmentation: all splittings are refused exactly when one read cannot jump over that stretch
(`header_bound_iff`).

One response is a head and the body that its status and its `Content-Length` declare. A status
without a body has none, whatever length it declares; `consume` waits for that length.
-/

namespace Dariyanaap

open Text Http Http11Get

/-! ## Splittings -/

/-- The length of the body behind a head, unless it goes on to the end of the stream or is sent in
chunks. -/
def bodyLength (S : Text) (blank : ℕ) : Option ℕ :=
  if (statusCode S).any carriesNoBody then some 0
  else if (headerValue (S.take blank) "transfer-encoding".toList).isSome then none
  else contentLength (S.take blank)

/-- The bytes are one response, whose head ends with the blank line at `blank`. -/
structure OneResponse (S : Text) (blank : ℕ) : Prop where
  head : find blankLine S = some blank
  body (n : ℕ) (h : bodyLength S blank = some n) : S.length = blank + 4 + n

/-- A splitting of some bytes into reads of at most `size` bytes. -/
structure Splits (size : ℕ) (S : Text) (arrivals : Arrivals) : Prop where
  reads : arrivals.Nonempty
  whole : arrivals.text = S
  bounded : ∀ c ∈ arrivals, c.1.length ≤ size

/-- A read ends with more than `low` and fewer than `high` bytes in the buffer. -/
def EndsBetween (low high : ℕ) (arrivals : Arrivals) : Prop :=
  ∃ u v : Arrivals, u ++ v = arrivals ∧ low < u.text.length ∧ u.text.length < high

/-- A read that brings nothing: the target is silent, has closed the connection or has reset it. -/
def Quiet : Read → Prop
  | .bytes chunk _ => chunk = []
  | .timedOut _ | .failed => True

/-- The exchange that receives some data and nothing more, its request written. -/
def exchangeOf (request : Text) (sent : Instant) (arrivals : Arrivals) (last : Read) :
    Option (Exchange × List Read) :=
  performRequest (Http11Get.protocol request) ⟨sent, .done, arrivals.reads ++ [last]⟩

/-- Reads of at most `size` bytes cannot jump over a stretch longer than that. -/
theorem exists_boundary {size low : ℕ} {arrivals : Arrivals}
    (hbounded : ∀ c ∈ arrivals, c.1.length ≤ size) (hlow : low < arrivals.text.length) :
    ∃ u v : Arrivals, u ++ v = arrivals ∧ low < u.text.length ∧ u.text.length ≤ low + size := by
  induction arrivals generalizing low with
  | nil => cases hlow
  | cons d arrivals ih =>
    have hd : d.1.length ≤ size := hbounded d List.mem_cons_self
    have hdtext : Arrivals.text [d] = d.1 := List.append_nil d.1
    -- the first read passes `low`, or leaves less of it to the others
    by_cases hfirst : low < d.1.length
    · exact ⟨[d], arrivals, rfl, by rwa [hdtext], by rw [hdtext]; omega⟩
    · rw [Arrivals.text_cons, List.length_append] at hlow
      have hrest : low - d.1.length < (Arrivals.text arrivals).length := by omega
      obtain ⟨u, v, rfl, hpast, hnear⟩ :=
        ih (fun c hc => hbounded c (List.mem_cons_of_mem _ hc)) hrest
      refine ⟨d :: u, v, rfl, ?_, ?_⟩
      · rw [Arrivals.text_cons, List.length_append]
        omega
      · rw [Arrivals.text_cons, List.length_append]
        omega

section Leap

variable {S : Text} {low high : ℕ}

/-- One byte a read. -/
def bytewise (t : Text) : Arrivals := t.map fun c => ([c], 0)

/-- One byte a read, but for one read that leaps from `low` to `high`. -/
def leap (S : Text) (low high : ℕ) : Arrivals :=
  bytewise (S.take low) ++ ((S.take high).drop low, 0) :: bytewise (S.drop high)

@[simp]
theorem text_bytewise (t : Text) : (bytewise t).text = t := by
  induction t with
  | nil => rfl
  | cons c t ih =>
    show [c] ++ (bytewise t).text = c :: t
    rw [ih]
    rfl

theorem text_leap (hle : low ≤ high) : (leap S low high).text = S := by
  have hlow : S.take low = (S.take high).take low := by
    rw [List.take_take, Nat.min_eq_left hle]
  rw [leap, Arrivals.text_append, Arrivals.text_cons, text_bytewise, text_bytewise, hlow,
    ← List.append_assoc, List.take_append_drop, List.take_append_drop]

/-- A leap is a splitting when one read can make it. -/
theorem splits_leap {size : ℕ} (hsize : 0 < size) (hlt : low < high) (hhigh : high ≤ S.length)
    (hjump : high ≤ low + size) : Splits size S (leap S low high) := by
  have hlength : ((S.take high).drop low).length = high - low := by
    rw [List.length_drop, List.length_take, Nat.min_eq_left hhigh]
  have hbyte : ∀ t : Text, ∀ c ∈ bytewise t, c.1.length = 1 := by
    intro t c hc
    obtain ⟨b, -, rfl⟩ := List.mem_map.mp hc
    rfl
  -- every read is one byte, but for the leap itself
  have hread : ∀ c ∈ leap S low high, 0 < c.1.length ∧ c.1.length ≤ size := by
    intro c hc
    rcases List.mem_append.mp hc with hc | hc
    · rw [hbyte _ c hc]
      exact ⟨Nat.one_pos, hsize⟩
    rcases List.mem_cons.mp hc with rfl | hc
    · rw [hlength]
      omega
    · rw [hbyte _ c hc]
      exact ⟨Nat.one_pos, hsize⟩
  exact ⟨fun c hc => List.ne_nil_of_length_pos (hread c hc).1, text_leap hlt.le,
    fun c hc => (hread c hc).2⟩

/-- No read of a leap ends inside it. -/
theorem not_endsBetween_leap (hlt : low < high) (hhigh : high ≤ S.length) :
    ¬EndsBetween low high (leap S low high) := by
  rintro ⟨u, v, hsplit, hpast, hshort⟩
  have hlow : (bytewise (S.take low)).text.length = low := by
    rw [text_bytewise, List.length_take]
    omega
  have hlength : ((S.take high).drop low).length = high - low := by
    rw [List.length_drop, List.length_take, Nat.min_eq_left hhigh]
  rcases List.append_eq_append_iff.mp hsplit with ⟨w, hw, -⟩ | ⟨w, rfl, hw⟩
  · -- a boundary before the leap
    rw [hw, Arrivals.text_append, List.length_append] at hlow
    omega
  rcases w with _ | ⟨d, w⟩
  · rw [List.append_nil, hlow] at hpast
    exact lt_irrefl _ hpast
  · -- a boundary behind it
    obtain ⟨rfl, -⟩ := List.cons.inj hw
    rw [Arrivals.text_append, Arrivals.text_cons, List.length_append, List.length_append, hlow,
      hlength] at hshort
    omega

/-- Bytewise reading up to `low` makes every boundary there is. -/
theorem endsBetween_leap {past : ℕ} (hpast : low < past) (hshort : past < high)
    (hhigh : high ≤ S.length) : EndsBetween low high (leap S past high) := by
  refine ⟨bytewise (S.take past), _, rfl, ?_, ?_⟩
  · rw [text_bytewise, List.length_take]
    omega
  · rw [text_bytewise, List.length_take]
    omega

end Leap

/-! ## Verdicts -/

section Verdicts

variable {S u w : Text} {blank : ℕ}

/-- A buffer within the bound is read on. -/
theorem consume_of_short (hblank : find blankLine (u ++ w) = some blank)
    (hbig : kMaxHeaderBytes < blank + 4) (hlen : u.length ≤ kMaxHeaderBytes) :
    consume u = .needMore := by
  rw [consume_of_find_eq_none (find_eq_none_of_append hblank (hlen.trans_lt hbig)),
    if_neg (not_lt.mpr hlen)]

/-- A buffer without the blank line and past the bound is malformed. -/
theorem consume_of_between (hblank : find blankLine (u ++ w) = some blank)
    (hlow : kMaxHeaderBytes < u.length) (hhigh : u.length < blank + 4) :
    consume u = .malformed := by
  rw [consume_of_find_eq_none (find_eq_none_of_append hblank hhigh), if_pos hlow]

/-- The head frames no body for `consume`: a transfer coding, no length that can be read under a
status that has a body, or a length that the size of a buffer cannot hold. -/
def Unframed (S : Text) (blank : ℕ) : Prop :=
  (headerValue (S.take blank) "transfer-encoding".toList).isSome ∨
    (contentLength (S.take blank) = none ∧ ¬(statusCode S).any carriesNoBody) ∨
    ∃ n, contentLength (S.take blank) = some n ∧ 2 ^ 64 ≤ blank + 4 + n

/-- What `consume` finds in a buffer that holds the head. -/
theorem heads_eq (hblank : find blankLine (u ++ w) = some blank)
    (hbig : kMaxHeaderBytes < blank + 4) (hlen : blank + 4 ≤ u.length) :
    find blankLine u = some blank ∧ u.take blank = (u ++ w).take blank ∧
      statusCode u = statusCode (u ++ w) := by
  refine ⟨find_of_append hblank hlen, ?_, ?_⟩
  · rw [List.take_append_of_le_length (by omega)]
  · exact (statusCode_append (by unfold kMaxHeaderBytes at hbig; omega) w).symm

/-- A head that frames no body makes every buffer behind it malformed. -/
theorem Unframed.consume (h : Unframed (u ++ w) blank)
    (hblank : find blankLine (u ++ w) = some blank) (hbig : kMaxHeaderBytes < blank + 4)
    (hlen : blank + 4 ≤ u.length) : consume u = .malformed := by
  obtain ⟨hfind, htake, hstatus⟩ := heads_eq hblank hbig hlen
  rw [Unframed, ← htake, ← hstatus] at h
  rw [Http11Get.consume, hfind]
  dsimp only
  by_cases hcoding : (headerValue (u.take blank) "transfer-encoding".toList).isSome
  · rw [if_pos hcoding]
  rw [if_neg hcoding]
  rcases h with hyes | ⟨hnone, hbody⟩ | ⟨n, hsome, hwrap⟩
  · exact absurd hyes hcoding
  · rw [hnone]
    exact if_neg hbody
  · -- the sum wraps, and the buffer is longer than what is left of it
    have hle := contentLength_le hsome
    have htotal : (blank + 4 + n) % 2 ^ 64 < u.length := by
      unfold uint64Max at hle
      omega
    rw [hsome]
    dsimp only
    rw [if_neg (by omega), if_neg (by omega)]

/-- One response whose head frames a body is no more than that. -/
theorem consume_ne_malformed (hone : OneResponse (u ++ w) blank)
    (hbig : kMaxHeaderBytes < blank + 4) (hlen : blank + 4 ≤ u.length)
    (h : ¬Unframed (u ++ w) blank) : consume u ≠ .malformed := by
  obtain ⟨hfind, htake, hstatus⟩ := heads_eq hone.head hbig hlen
  have hwhole : u.length ≤ (u ++ w).length := by
    rw [List.length_append]
    omega
  have hbody := hone.body
  simp only [Unframed, not_or, not_and, not_exists, not_le, Bool.not_eq_true] at h
  obtain ⟨hcoding, hnone, hfits⟩ := h
  rw [bodyLength] at hbody
  rw [Http11Get.consume, hfind]
  dsimp only
  rw [htake, hstatus, hcoding, if_neg Bool.false_ne_true]
  cases hlength : contentLength ((u ++ w).take blank) with
  | none =>
    -- a status without a body ends with its head
    dsimp only
    have hbodyless := Bool.not_eq_false _ ▸ hnone hlength
    rw [if_pos hbodyless] at hbody ⊢
    have hend := hbody 0 rfl
    rw [if_pos (by omega)]
    simp
  | some n =>
    have hnowrap : (blank + 4 + n) % 2 ^ 64 = blank + 4 + n := Nat.mod_eq_of_lt (hfits n hlength)
    have hle : u.length ≤ blank + 4 + n := by
      rw [hcoding, if_neg Bool.false_ne_true, hlength] at hbody
      by_cases hbodyless : (statusCode (u ++ w)).any carriesNoBody = true
      · rw [if_pos hbodyless] at hbody
        have hend := hbody 0 rfl
        omega
      · rw [if_neg hbodyless] at hbody
        have hend := hbody n rfl
        omega
    dsimp only
    rw [hnowrap]
    split
    · simp
    · rw [if_pos (by omega)]
      simp

end Verdicts

/-! ## Outcomes -/

section Outcomes

variable {S : Text} {blank : ℕ} {arrivals : Arrivals} {last : Read}

/-- The head frames no body, or a read ends past the bound and before the end of the blank line. -/
def Refused (S : Text) (blank : ℕ) (arrivals : Arrivals) : Prop :=
  Unframed S blank ∨ EndsBetween kMaxHeaderBytes (blank + 4) arrivals

/-- A read that brings nothing ends the exchange, and not with a protocol error. -/
theorem Quiet.readLoop (h : Quiet last) (protocol : Protocol) (sent : Instant) (received : Text) :
    ∃ e, readLoop protocol sent received [last] = some (e, []) ∧ e.outcome ≠ .protocolError := by
  cases last with
  | bytes chunk now =>
    obtain rfl : chunk = [] := h
    exact ⟨_, rfl, by simp⟩
  | timedOut now => exact ⟨_, rfl, by simp⟩
  | failed => exact ⟨_, rfl, by simp⟩

/-- An exchange reads on behind the last byte when every boundary asks it to. -/
theorem exchangeOf_of_needMore (request : Text) (sent : Instant) (hreads : arrivals.Nonempty)
    (hlast : Quiet last)
    (hmore : ∀ u v : Arrivals, u ++ v = arrivals → u ≠ [] → consume u.text = .needMore) :
    ∃ e rest, exchangeOf request sent arrivals last = some (e, rest) ∧
      e.outcome ≠ .protocolError := by
  obtain ⟨e, hloop, houtcome⟩ :=
    hlast.readLoop (Http11Get.protocol request) sent ([] ++ arrivals.text)
  exact ⟨e, [], (readLoop_advance hreads hmore).trans hloop, houtcome⟩

/-- It ends at the first boundary that does not. -/
theorem exchangeOf_of_stop (request : Text) (sent : Instant) (last : Read)
    {before after : Arrivals} {c : Text × Instant}
    (hreads : Arrivals.Nonempty (before ++ [c] ++ after))
    (hmore : ∀ u v : Arrivals, u ++ v = before → u ≠ [] → consume u.text = .needMore)
    (hstop : consume (Arrivals.text (before ++ [c])) ≠ .needMore) :
    exchangeOf request sent (before ++ [c] ++ after) last =
      some (judged (Http11Get.protocol request) sent c.2 (Arrivals.text (before ++ [c])),
        after.reads ++ [last]) := by
  rw [exchangeOf, performRequest, Arrivals.reads, List.map_append, List.append_assoc]
  exact readLoop_of_stop (fun d hd => hreads d (List.mem_append_left _ hd)) hmore hstop

/-- What it returns there is a protocol error if the buffer is malformed. -/
theorem judged_eq_protocolError_iff (request : Text) (sent now : Instant) {buffer : Text}
    (hstop : consume buffer ≠ .needMore) :
    (judged (Http11Get.protocol request) sent now buffer).outcome = .protocolError ↔
      consume buffer = .malformed := by
  have hverdict : (Http11Get.protocol request).consume buffer = consume buffer := rfl
  rw [judged, hverdict]
  cases hbuffer : consume buffer with
  | needMore => exact absurd hbuffer hstop
  | malformed => exact iff_of_true rfl rfl
  | complete =>
    refine iff_of_false ?_ (by simp)
    rw [if_pos rfl]
    dsimp only
    split <;> simp

/-- A boundary that is judged is malformed exactly when the response is to be refused. -/
theorem malformed_iff_refused (hone : OneResponse S blank) (hbig : kMaxHeaderBytes < blank + 4)
    {before after : Arrivals} {c : Text × Instant}
    (hwhole : Arrivals.text (before ++ [c] ++ after) = S)
    (hmore : ∀ u v : Arrivals, u ++ v = before → u ≠ [] → consume u.text = .needMore)
    (hstop : consume (Arrivals.text (before ++ [c])) ≠ .needMore) :
    consume (Arrivals.text (before ++ [c])) = .malformed ↔
      Refused S blank (before ++ [c] ++ after) := by
  set b := before ++ [c]
  have hsplit : b.text ++ after.text = S := by rw [← Arrivals.text_append, hwhole]
  subst hsplit
  have hblank := hone.head
  rcases Nat.lt_or_ge b.text.length (blank + 4) with hinside | hbehind
  · -- no blank line yet: only the bound is judged
    have hnone := consume_of_find_eq_none (find_eq_none_of_append hblank hinside)
    by_cases hlow : kMaxHeaderBytes < b.text.length
    · rw [hnone, if_pos hlow]
      exact iff_of_true rfl (.inr ⟨b, after, rfl, hlow, hinside⟩)
    · rw [if_neg hlow] at hnone
      exact absurd hnone hstop
  · constructor
    · intro hmalformed
      by_contra hrefused
      rw [Refused, not_or] at hrefused
      exact consume_ne_malformed hone hbig hbehind hrefused.1 hmalformed
    · rintro (hunframed | ⟨u, v, huv, hlow, hhigh⟩)
      · exact hunframed.consume hblank hbig hbehind
      · -- the boundary lies before this one, where the loop was asked to read on
        exfalso
        have hpart : u.text ++ v.text = b.text ++ after.text := by
          rw [← Arrivals.text_append, huv, Arrivals.text_append]
        have hmalformed := consume_of_between (hpart.symm ▸ hblank) hlow hhigh
        rcases List.append_eq_append_iff.mp huv with ⟨t, ht, -⟩ | ⟨t, ht, -⟩
        · have ht' : t ≠ [] := by
            rintro rfl
            rw [ht, List.append_nil] at hbehind
            omega
          obtain ⟨r, hr⟩ := Arrivals.exists_rest ht.symm ht'
          have hu : u ≠ [] := by
            rintro rfl
            cases hlow
          rw [hmore u r hr hu] at hmalformed
          cases hmalformed
        · rw [ht, Arrivals.text_append, List.length_append] at hhigh
          omega

/-- An exchange refuses one response exactly when its head frames no body or a read ends past the
bound and before the end of the blank line. -/
theorem protocolError_iff_refused (request : Text) (sent : Instant) (hone : OneResponse S blank)
    (hbig : kMaxHeaderBytes < blank + 4) (hreads : arrivals.Nonempty)
    (hwhole : arrivals.text = S) (hlast : Quiet last) :
    ∃ e rest, exchangeOf request sent arrivals last = some (e, rest) ∧
      (e.outcome = .protocolError ↔ Refused S blank arrivals) := by
  have hfit : blank + 4 ≤ S.length := find_add_length_le hone.head
  by_cases hmore : ∀ u v : Arrivals, u ++ v = arrivals → u ≠ [] → consume u.text = .needMore
  · obtain ⟨e, rest, hperform, houtcome⟩ := exchangeOf_of_needMore request sent hreads hlast hmore
    refine ⟨e, rest, hperform, iff_of_false houtcome ?_⟩
    -- a response that is to be refused has a boundary that is malformed
    rintro (hunframed | ⟨u, v, huv, hlow, hhigh⟩)
    · rw [← List.append_nil S] at hunframed
      have hmalformed := hunframed.consume (by rw [List.append_nil, hone.head]) hbig hfit
      have hne : arrivals ≠ [] := by
        rintro rfl
        rw [← hwhole] at hfit
        cases hfit
      rw [← hwhole, hmore arrivals [] (List.append_nil _) hne] at hmalformed
      cases hmalformed
    · have hsplit : u.text ++ v.text = S := by rw [← Arrivals.text_append, huv, hwhole]
      have hmalformed := consume_of_between (hsplit.symm ▸ hone.head) hlow hhigh
      have hne : u ≠ [] := by
        rintro rfl
        cases hlow
      rw [hmore u v huv hne] at hmalformed
      cases hmalformed
  · simp only [not_forall] at hmore
    obtain ⟨x, y, hxy, hx, hjudged⟩ := hmore
    have hend : (Http11Get.protocol request).consume ([] ++ x.text) ≠ .needMore := hjudged
    obtain ⟨before, c, after, hb, hbefore, hstop⟩ := exists_stop hx hend
    obtain rfl : before ++ [c] ++ (after ++ y) = arrivals := by
      rw [← hxy, ← hb]
      simp
    exact ⟨_, _, exchangeOf_of_stop request sent last hreads hbefore hstop,
      (judged_eq_protocolError_iff request sent c.2 hstop).trans
        (malformed_iff_refused hone hbig hwhole hbefore hstop)⟩

/-- A read that leaps from the bound to the end of the blank line brings a response without a body
to its end. -/
theorem exchangeOf_leap (request : Text) (sent : Instant) (last : Read)
    (hone : OneResponse S blank) (hbig : kMaxHeaderBytes < blank + 4)
    (hlength : S.length = blank + 4) (hcomplete : consume S = .complete) :
    ∃ rest, exchangeOf request sent (leap S kMaxHeaderBytes (blank + 4)) last =
      some (judged (Http11Get.protocol request) sent 0 S, rest) := by
  have hsplits : Splits (blank + 4) S (leap S kMaxHeaderBytes (blank + 4)) :=
    splits_leap (Nat.succ_pos _) hbig hlength.ge (by omega)
  have hmore : ∀ u v : Arrivals, u ++ v = bytewise (S.take kMaxHeaderBytes) → u ≠ [] →
      consume u.text = .needMore := by
    intro u v huv _
    have htext : u.text ++ v.text = S.take kMaxHeaderBytes := by
      rw [← Arrivals.text_append, huv, text_bytewise]
    have hwhole : u.text ++ (v.text ++ S.drop kMaxHeaderBytes) = S := by
      rw [← List.append_assoc, htext, List.take_append_drop]
    refine consume_of_short (hwhole.symm ▸ hone.head) hbig ?_
    have hpart := congrArg List.length htext
    rw [List.length_append, List.length_take] at hpart
    omega
  -- the leap ends at the last byte
  have htext : Arrivals.text (bytewise (S.take kMaxHeaderBytes) ++
      [((S.take (blank + 4)).drop kMaxHeaderBytes, 0)]) = S := by
    rw [Arrivals.text_append, text_bytewise, List.take_of_length_le hlength.le, Arrivals.text_cons,
      Arrivals.text, List.flatMap_nil, List.append_nil, List.take_append_drop]
  have hstop : consume (Arrivals.text (bytewise (S.take kMaxHeaderBytes) ++
      [((S.take (blank + 4)).drop kMaxHeaderBytes, 0)])) ≠ .needMore := by
    rw [htext, hcomplete]
    simp
  have hreads := hsplits.reads
  rw [leap, List.append_cons] at hreads ⊢
  have hperform := exchangeOf_of_stop request sent last hreads hmore hstop
  rw [htext] at hperform
  exact ⟨_, hperform⟩

/-- A splitting is refused when no read can leap over the stretch between the bound and the end
of the blank line. -/
theorem Splits.refused {size : ℕ} (hsplits : Splits size S arrivals)
    (hblank : find blankLine S = some blank)
    (h : Unframed S blank ∨ size = 0 ∨ kMaxHeaderBytes + size < blank + 4) :
    Refused S blank arrivals := by
  have hfit : blank + 4 ≤ S.length := find_add_length_le hblank
  rcases h with hunframed | rfl | hlong
  · exact .inl hunframed
  · -- a read of no bytes is no read
    exfalso
    rcases arrivals with _ | ⟨c, arrivals⟩
    · obtain rfl : S = [] := hsplits.whole.symm
      cases hfit
    · have hlength := Nat.le_zero.mp (hsplits.bounded c List.mem_cons_self)
      exact hsplits.reads c List.mem_cons_self (List.eq_nil_of_length_eq_zero hlength)
  · have hlow : kMaxHeaderBytes < arrivals.text.length := by
      rw [hsplits.whole]
      omega
    obtain ⟨u, v, huv, hpast, hnear⟩ := exists_boundary hsplits.bounded hlow
    exact .inr ⟨u, v, huv, hpast, by omega⟩

/-- Any two splittings of the response, in reads of at most `size` bytes, are refused as a
protocol error, whatever a read behind them would return. -/
def AlwaysRefused (request : Text) (size : ℕ) (S : Text) : Prop :=
  ∀ (sent sent' : Instant) (arrivals arrivals' : Arrivals) (last last' : Read),
    Splits size S arrivals → Splits size S arrivals' → Quiet last → Quiet last' →
      ∃ e rest e' rest', exchangeOf request sent arrivals last = some (e, rest) ∧
        exchangeOf request sent' arrivals' last' = some (e', rest') ∧
        e.outcome = .protocolError ∧ e'.outcome = .protocolError

/-- A response with a header block past the bound is refused in one splitting exactly when its
head frames no body or a read ends past the bound and before the end of the blank line, and in all
splittings exactly when its head frames no body or no read can leap over that stretch. -/
theorem header_bound_iff (request : Text) (hone : OneResponse S blank)
    (hbig : kMaxHeaderBytes < blank + 4) :
    (∀ sent arrivals last, arrivals.Nonempty → arrivals.text = S → Quiet last →
      ∃ e rest, exchangeOf request sent arrivals last = some (e, rest) ∧
        (e.outcome = .protocolError ↔
          Unframed S blank ∨ EndsBetween kMaxHeaderBytes (blank + 4) arrivals)) ∧
      ∀ size, AlwaysRefused request size S ↔
        Unframed S blank ∨ size = 0 ∨ kMaxHeaderBytes + size < blank + 4 := by
  have hfit : blank + 4 ≤ S.length := find_add_length_le hone.head
  refine ⟨fun sent arrivals last => protocolError_iff_refused request sent hone hbig,
    fun size => ⟨fun halways => ?_, fun h => ?_⟩⟩
  · by_contra hnone
    rw [not_or, not_or, not_lt] at hnone
    obtain ⟨hframed, hsize, hjump⟩ := hnone
    -- a read that leaps over the stretch
    have hsplits : Splits size S (leap S kMaxHeaderBytes (blank + 4)) :=
      splits_leap (Nat.pos_of_ne_zero hsize) hbig hfit hjump
    obtain ⟨e, rest, -, -, hperform, -, houtcome, -⟩ :=
      halways 0 0 _ _ .failed .failed hsplits hsplits trivial trivial
    obtain ⟨e', rest', hperform', hiff⟩ := protocolError_iff_refused request 0 hone hbig
      hsplits.reads hsplits.whole (show Quiet .failed from trivial)
    obtain ⟨rfl, rfl⟩ := Prod.mk.inj (Option.some.inj (hperform.symm.trans hperform'))
    rcases hiff.mp houtcome with hunframed | hinside
    · exact hframed hunframed
    · exact not_endsBetween_leap hbig hfit hinside
  · -- whichever reads come, one ends in the stretch
    intro sent sent' arrivals arrivals' last last' hsplits hsplits' hlast hlast'
    obtain ⟨e, rest, hperform, hiff⟩ := protocolError_iff_refused request sent hone hbig
      hsplits.reads hsplits.whole hlast
    obtain ⟨e', rest', hperform', hiff'⟩ := protocolError_iff_refused request sent' hone hbig
      hsplits'.reads hsplits'.whole hlast'
    exact ⟨e, rest, e', rest', hperform, hperform', hiff.mpr (hsplits.refused hone.head h),
      hiff'.mpr (hsplits'.refused hone.head h)⟩

end Outcomes

/-- A response without a body ends with its head. -/
theorem FinalResponse.length_bytes_of_nil {response : FinalResponse} {head : Head}
    (hhead : response.head = head) (hbody : response.body = []) :
    response.bytes.length = head.block.length + 4 := by
  rw [response.length_bytes, hhead, hbody, List.length_nil, Nat.add_zero]

/-- A response with a status of `2xx` that is judged as a whole is a success. -/
theorem FinalResponse.judged_bytes (response : FinalResponse) (request : Text)
    (sent now : Instant) (hstatus : response.head.status < 300) :
    (judged (Http11Get.protocol request) sent now response.bytes).outcome = .succeeded := by
  have hverdict : (Http11Get.protocol request).consume response.bytes = .complete :=
    response.consume_bytes
  have hsucceeded : (Http11Get.protocol request).succeeded response.bytes = true := by
    show Http11Get.succeeded response.bytes = true
    rw [response.succeeded_bytes, decide_eq_true response.final, decide_eq_true hstatus]
    rfl
  rw [judged, if_pos hverdict, if_pos hsucceeded]

/-! ## A response past the bound -/

/-- A value of letters is on one line. -/
theorem letters_ok (n : ℕ) : ∀ c ∈ List.replicate n 'a', c ≠ '\r' ∧ c ≠ '\n' := by
  intro c hc
  obtain rfl := List.eq_of_mem_replicate hc
  decide

/-- A header line that brings the header block of `oversized` to `kMaxHeaderBytes + 2` bytes. -/
def padding : Field where
  name := ['X']
  value := List.replicate 65496 'a'
  name_ne := by decide
  name_ok := forall_mem_of_all (by decide)
  value_ok := letters_ok 65496

/-- The head of `200 OK` with a long header line. -/
def oversizedHead : Head :=
  { ok200.head with fields := [noBody, padding] }

theorem length_oversizedHead : oversizedHead.block.length + 4 = kMaxHeaderBytes + 2 := by
  have hpadding : padding.line.length = 65498 := by
    have hvalue : padding.value.length = 65496 := List.length_replicate
    rw [Field.line, List.length_append, List.length_cons, hvalue]
    rfl
  have hline : oversizedHead.statusLine.length = 15 := by decide +kernel
  have hnoBody : noBody.line.length = 17 := by decide +kernel
  -- a status line and two header lines
  have hblock : oversizedHead.block =
      joinLines [oversizedHead.statusLine, noBody.line, padding.line] := rfl
  rw [hblock]
  simp only [joinLines_cons_cons, joinLines_singleton, List.length_append, hpadding, hline,
    hnoBody, show crlf.length = 2 from rfl, kMaxHeaderBytes]

theorem framed_oversizedHead : ∃ value,
    oversizedHead.field "content-length".toList = some value ∧ Decimal value 0 :=
  ⟨"0".toList, by decide +kernel, by decide +kernel⟩

/-- `200 OK` with a long header line and no body. -/
def oversized : FinalResponse where
  head := oversizedHead
  body := []
  final := by decide
  framed := framed_oversizedHead
  plain := by decide +kernel
  fits := by
    rw [oversizedHead.length_render, length_oversizedHead]
    decide

theorem head_oversized : oversized.head = oversizedHead := rfl

theorem body_oversized : oversized.body = [] := rfl

theorem length_oversized : oversized.bytes.length = oversizedHead.block.length + 4 :=
  FinalResponse.length_bytes_of_nil head_oversized body_oversized

/-- Its head declares a body of no bytes, and nothing follows it. -/
theorem oneResponse_oversized : OneResponse oversized.bytes oversizedHead.block.length where
  head := oversizedHead.find_blankLine []
  body n h := by
    obtain ⟨value, hfield, hvalue⟩ := framed_oversizedHead
    have hstatus : statusCode oversized.bytes = some 200 := oversizedHead.statusCode_render []
    have htake : oversized.bytes.take oversizedHead.block.length = oversizedHead.block :=
      oversizedHead.take_block []
    rw [bodyLength, hstatus, if_neg (by decide), htake, oversizedHead.headerValue_block,
      show oversizedHead.field "transfer-encoding".toList = none from oversized.plain,
      Head.contentLength_block hfield hvalue (Nat.zero_le _)] at h
    obtain rfl : 0 = n := Option.some.inj h
    rw [Nat.add_zero, length_oversized]

/-- The same bytes, read one at a time up to the bound: a last read of two bytes is a success,
two reads of one byte are a protocol error. -/
theorem oversized_depends_on_segmentation :
    ∃ first second : Arrivals,
      Splits (16 * 1024) oversized.bytes first ∧ Splits (16 * 1024) oversized.bytes second ∧
        (∃ e rest, exchangeOf [] 0 first .failed = some (e, rest) ∧ e.outcome = .succeeded) ∧
        (∃ e rest, exchangeOf [] 0 second .failed = some (e, rest) ∧
          e.outcome = .protocolError) ∧
        ¬AlwaysRefused [] (16 * 1024) oversized.bytes := by
  have hone := oneResponse_oversized
  have hend := length_oversizedHead
  have hbig : kMaxHeaderBytes < oversizedHead.block.length + 4 := by omega
  have hfit : kMaxHeaderBytes + 2 ≤ oversized.bytes.length := by
    rw [length_oversized, hend]
  have hfirst : Splits (16 * 1024) oversized.bytes
      (leap oversized.bytes kMaxHeaderBytes (kMaxHeaderBytes + 2)) :=
    splits_leap (by decide) (by lia) hfit (by lia)
  have hsecond : Splits (16 * 1024) oversized.bytes
      (leap oversized.bytes (kMaxHeaderBytes + 1) (kMaxHeaderBytes + 2)) :=
    splits_leap (by decide) (by lia) hfit (by lia)
  have hcomplete : consume oversized.bytes = .complete := oversized.consume_bytes
  obtain ⟨rest, hperform⟩ := exchangeOf_leap [] 0 .failed hone hbig length_oversized hcomplete
  rw [hend] at hperform
  have houtcome := oversized.judged_bytes [] 0 0 (by rw [head_oversized]; decide)
  obtain ⟨e', rest', hperform', hiff⟩ := protocolError_iff_refused [] 0 hone hbig
    hsecond.reads hsecond.whole (show Quiet .failed from trivial)
  have houtcome' : e'.outcome = .protocolError := by
    refine hiff.mpr (.inr ?_)
    rw [hend]
    exact endsBetween_leap (by omega) (by omega) hfit
  refine ⟨_, _, hfirst, hsecond, ⟨_, rest, hperform, houtcome⟩, ⟨e', rest', hperform', houtcome'⟩,
    fun halways => ?_⟩
  obtain ⟨e₁, rest₁, -, -, hperform₁, -, hrefused, -⟩ :=
    halways 0 0 _ _ .failed .failed hfirst hfirst trivial trivial
  obtain ⟨rfl, rfl⟩ := Prod.mk.inj (Option.some.inj (hperform.symm.trans hperform₁))
  rw [houtcome] at hrefused
  cases hrefused

/-- Reads of a single byte never leap over the end of the blank line. -/
theorem header_bound_iff_bytewise :
    AlwaysRefused [] 1 oversized.bytes ↔
      Unframed oversized.bytes oversizedHead.block.length ∨ 1 = 0 ∨
        kMaxHeaderBytes + 1 < oversizedHead.block.length + 4 :=
  (header_bound_iff [] oneResponse_oversized (by rw [length_oversizedHead]; omega)).2 1

end Dariyanaap

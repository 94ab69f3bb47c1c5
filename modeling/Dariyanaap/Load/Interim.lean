import Dariyanaap.Load.Head
import Dariyanaap.Load.Replies

/-!
# Interim responses

A conforming target may answer a request with any number of `1xx` responses before the final
one. `Http11Get::consume` judges a buffer by the first head in it, and an interim head on its
own is complete: a status of `1xx` is defined to carry no body. So an exchange ends early, with
the connection declared usable and the final response still to come, exactly when a read ends
at the end of the first interim head (`CutAfterInterim`); with more bytes in the buffer the
verdict is `Malformed`, and the connection is given up.

`interim_synchronised_iff` is the exact statement for one exchange, and for a connection: as
long as no answer is cut there, every exchange that leaves the connection usable is the one of
its own final response.
-/

namespace Dariyanaap

open Text Http Http11Get

/-! ## What a conforming target answers -/

/-- An interim response: a `1xx` head that frames no body. -/
structure Interim where
  head : Head
  informational : head.status < 200
  unframed : head.field "content-length".toList = none
  plain : head.field "transfer-encoding".toList = none

/-- A final response whose body is framed by `Content-Length`. -/
structure FinalResponse where
  head : Head
  body : Text
  final : 200 ≤ head.status
  framed : ∃ value, head.field "content-length".toList = some value ∧ Decimal value body.length
  plain : head.field "transfer-encoding".toList = none
  /-- A response fits into memory. -/
  fits : head.render.length + body.length < 2 ^ 64

/-- The bytes of a final response. -/
def FinalResponse.bytes (response : FinalResponse) : Text := response.head.render ++ response.body

/-- The answer to one request. -/
structure Answer where
  interims : List Interim
  response : FinalResponse

namespace Answer

/-- The bytes of an answer. -/
def bytes (answer : Answer) : Text :=
  (answer.interims.flatMap fun interim => interim.head.render) ++ answer.response.bytes

/-- The answer arrives as the reply of a visit. -/
structure Arrives (answer : Answer) (visit : Visit) : Prop where
  reads : visit.arrivals.Nonempty
  reply : visit.reply = answer.bytes

/-- What the exchange of a visit is meant to report: the final response. -/
def exchange (answer : Answer) (visit : Visit) : Exchange where
  outcome :=
    if 200 ≤ answer.response.head.status ∧ answer.response.head.status < 300 then .succeeded
    else .rejected
  elapsed := between visit.sent visit.arrivals.finished
  connectionUsable := true

/-- A read ends exactly at the end of the first interim head, and none before it ends past the
bound on header blocks. -/
def CutAfterInterim (answer : Answer) (visit : Visit) : Prop :=
  ∃ interim rest, answer.interims = interim :: rest ∧
    ∃ before after : Arrivals, before ++ after = visit.arrivals ∧
      before.text = interim.head.render ∧
      ∀ u v : Arrivals, u ++ v = before → v ≠ [] → u.text.length ≤ kMaxHeaderBytes

end Answer

/-! ## Verdicts -/

/-- Inside a head only the size of the buffer is judged. -/
theorem consume_of_lt_head (head : Head) {u v : Text} (h : u ++ v = head.render) (hv : v ≠ []) :
    consume u = if kMaxHeaderBytes < u.length then .malformed else .needMore := by
  refine consume_of_find_eq_none ?_
  have hblank : find blankLine (u ++ v) = some head.block.length := by
    have := head.find_blankLine []
    rwa [List.append_nil, ← h] at this
  refine find_eq_none_of_append hblank ?_
  have hlength := congrArg List.length h
  have hpos : 0 < v.length := List.length_pos_of_ne_nil hv
  have hfour : blankLine.length = 4 := rfl
  rw [List.length_append, head.length_render] at hlength
  omega

/-- An interim head is complete on its own, and malformed with anything after it. -/
theorem Interim.consume_append (interim : Interim) (w : Text) :
    consume (interim.head.render ++ w) = if w = [] then .complete else .malformed := by
  have hstatus : (statusCode (interim.head.render ++ w)).any carriesNoBody = true := by
    rw [interim.head.statusCode_render]
    have hlow := interim.head.status_ok.1
    have hhigh := interim.informational
    simp [carriesNoBody, hlow, hhigh]
  -- without a length the verdict depends on whether the buffer ends with the head
  have hlength : (interim.head.render ++ w).length = interim.head.block.length + 4 ↔ w = [] := by
    rw [List.length_append, interim.head.length_render, Nat.add_eq_left, List.length_eq_zero_iff]
  rw [consume, interim.head.find_blankLine]
  simp only [interim.head.take_block, interim.head.headerValue_block, interim.plain,
    Head.contentLength_block_eq_none interim.unframed, hstatus, hlength, if_true,
    Option.isSome_none, Bool.false_eq_true, if_false]

/-- A final response is as long as its parts. -/
theorem FinalResponse.length_bytes (response : FinalResponse) :
    response.bytes.length = response.head.block.length + 4 + response.body.length := by
  rw [bytes, List.length_append, response.head.length_render]

/-- A final response is complete at its end. -/
theorem FinalResponse.consume_bytes (response : FinalResponse) :
    consume response.bytes = .complete := by
  obtain ⟨value, hfield, hvalue⟩ := response.framed
  have hfits := response.fits
  have hlength := response.length_bytes
  -- the sum in `consume` does not wrap for a response that fits into memory
  have hsmall : response.body.length ≤ uint64Max := by
    rw [uint64Max]
    omega
  rw [response.head.length_render] at hfits
  rw [consume, bytes, response.head.find_blankLine]
  simp only [response.head.take_block, response.head.headerValue_block, response.plain,
    Head.contentLength_block hfield hvalue hsmall, Option.isSome_none, Bool.false_eq_true, if_false]
  rw [← bytes, hlength, Nat.mod_eq_of_lt hfits, if_neg (lt_irrefl _), if_pos rfl]

/-- The status of a final response decides its outcome. -/
theorem FinalResponse.succeeded_bytes (response : FinalResponse) :
    Http11Get.succeeded response.bytes =
      (decide (200 ≤ response.head.status) && decide (response.head.status < 300)) := by
  rw [Http11Get.succeeded, bytes, response.head.statusCode_render]
  rfl

/-! ## One exchange -/

/-- Chunks without text are no chunks. -/
theorem Arrivals.eq_nil_of_text {arrivals : Arrivals} (hne : arrivals.Nonempty)
    (h : arrivals.text = []) : arrivals = [] := by
  cases arrivals with
  | nil => rfl
  | cons c arrivals =>
    rw [Arrivals.text_cons, List.append_eq_nil_iff] at h
    exact absurd h.1 (hne c List.mem_cons_self)

/-- A final response is not empty. -/
theorem FinalResponse.bytes_ne_nil (response : FinalResponse) : response.bytes ≠ [] := by
  intro h
  have hlength := congrArg List.length h
  rw [bytes, List.length_append, response.head.length_render] at hlength
  simp at hlength

section OneExchange

variable {answer : Answer} {visit : Visit}

/-- A prefix of an answer that is judged complete is the whole answer, or its first head. -/
theorem Answer.complete_prefix {u v : Text} (hsplit : u ++ v = answer.bytes)
    (hcomplete : consume u = .complete) :
    (answer.interims = [] ∧ v = []) ∨
      ∃ interim rest, answer.interims = interim :: rest ∧ u = interim.head.render := by
  cases hinterims : answer.interims with
  | nil =>
    refine .inl ⟨rfl, ?_⟩
    have hbytes : answer.bytes = answer.response.bytes := by
      rw [bytes, hinterims, List.flatMap_nil, List.nil_append]
    by_contra hv
    -- a final response is complete at its end only
    have hwhole : consume (u ++ v) = .complete := by
      rw [hsplit, hbytes]
      exact answer.response.consume_bytes
    rcases consume_prefix hwhole hv with hmore | ⟨-, -, hmalformed⟩
    · rw [hmore] at hcomplete
      cases hcomplete
    · rw [hmalformed] at hcomplete
      cases hcomplete
  | cons interim rest =>
    refine .inr ⟨interim, rest, rfl, ?_⟩
    obtain ⟨later, hlater⟩ : ∃ later, answer.bytes = interim.head.render ++ later :=
      ⟨_, by rw [bytes, hinterims, List.flatMap_cons, List.append_assoc]⟩
    rw [hlater] at hsplit
    rcases List.append_eq_append_iff.mp hsplit with ⟨w, hhead, -⟩ | ⟨w, rfl, -⟩
    · -- the buffer ends inside the first head, or with it
      rcases eq_or_ne w [] with rfl | hw
      · rw [hhead, List.append_nil]
      · rw [consume_of_lt_head interim.head hhead.symm hw] at hcomplete
        split at hcomplete <;> cases hcomplete
    · rw [interim.consume_append] at hcomplete
      split at hcomplete
      · next hw => rw [hw, List.append_nil]
      · cases hcomplete

/-- The end of an answer is always judged. -/
theorem Answer.consume_bytes_ne (answer : Answer) : consume answer.bytes ≠ .needMore := by
  cases hinterims : answer.interims with
  | nil =>
    rw [bytes, hinterims, List.flatMap_nil, List.nil_append, answer.response.consume_bytes]
    exact fun h => nomatch h
  | cons interim rest =>
    rw [bytes, hinterims, List.flatMap_cons, List.append_assoc, interim.consume_append]
    split <;> exact fun h => nomatch h

/-- An exchange in step with the target ends at the first boundary that is judged. -/
theorem Answer.Arrives.stops (harrives : answer.Arrives visit) (request : Text) :
    ∃ (before : Arrivals) (c : Text × Instant) (after : Arrivals),
      before ++ c :: after = visit.arrivals ∧
        (∀ u v : Arrivals, u ++ v = before → u ≠ [] → consume u.text = .needMore) ∧
        performRequest (Http11Get.protocol request) (visit.script []) =
          some (judged (Http11Get.protocol request) visit.sent c.2
            (Arrivals.text (before ++ [c])), after.reads) := by
  obtain ⟨sent, arrivals⟩ := visit
  have hbytes : arrivals.text = answer.bytes := harrives.reply
  have hne : arrivals ≠ [] := by
    rintro rfl
    have hnil : answer.bytes = [] := hbytes.symm
    rw [bytes, List.append_eq_nil_iff] at hnil
    exact answer.response.bytes_ne_nil hnil.2
  have hend : (Http11Get.protocol request).consume ([] ++ arrivals.text) ≠ .needMore := by
    rw [List.nil_append, hbytes]
    exact answer.consume_bytes_ne
  obtain ⟨before, c, after, rfl, hmore, hstop⟩ := exists_stop hne hend
  refine ⟨before, c, after, rfl, hmore, ?_⟩
  exact performRequest_of_stop harrives.reads hmore hstop

/-- An exchange that stops at the end of the first interim head, asked to read on at every
boundary before, is cut there. -/
theorem Answer.Arrives.cut_of_stop (harrives : answer.Arrives visit) {before after : Arrivals}
    {c : Text × Instant} (hwhole : before ++ [c] ++ after = visit.arrivals)
    (hmore : ∀ u v : Arrivals, u ++ v = before → u ≠ [] → consume u.text = .needMore)
    {interim : Interim} {rest : List Interim} (hinterims : answer.interims = interim :: rest)
    (hhead : Arrivals.text (before ++ [c]) = interim.head.render) :
    answer.CutAfterInterim visit := by
  refine ⟨interim, rest, hinterims, before ++ [c], after, hwhole, hhead, ?_⟩
  intro u v huv hv
  rcases eq_or_ne u [] with rfl | hu
  · exact Nat.zero_le _
  · have hvtext : v.text ≠ [] := by
      intro hnil
      refine hv (Arrivals.eq_nil_of_text (fun d hd => harrives.reads d ?_) hnil)
      rw [← hwhole, ← huv]
      exact List.mem_append_left _ (List.mem_append_right _ hd)
    have hinside : u.text ++ v.text = interim.head.render := by
      rw [← Arrivals.text_append, huv, hhead]
    -- `consume` asked for more at this boundary, so it was within the bound
    obtain ⟨t, ht⟩ := Arrivals.exists_rest huv hv
    have hmore' := hmore u t ht hu
    rw [consume_of_lt_head interim.head hinside hvtext] at hmore'
    by_contra hbig
    rw [if_pos (not_le.mp hbig)] at hmore'
    cases hmore'

/-- Off the cut an exchange that leaves the connection usable has read the whole answer, and is
the one of the final response. -/
theorem Answer.Arrives.exchange_of_not_cut (harrives : answer.Arrives visit)
    (hcut : ¬answer.CutAfterInterim visit) (request : Text) :
    ∃ e rest, performRequest (Http11Get.protocol request) (visit.script []) = some (e, rest) ∧
      (e.connectionUsable = true → rest = [] ∧ e = answer.exchange visit) := by
  obtain ⟨before, c, after, hsplit, hmore, hperform⟩ := harrives.stops request
  refine ⟨_, _, hperform, fun husable => ?_⟩
  have hverdict : (Http11Get.protocol request).consume (Arrivals.text (before ++ [c])) =
      .complete := by
    by_contra hother
    rw [judged, if_neg hother] at husable
    cases husable
  have hcomplete : consume (Arrivals.text (before ++ [c])) = .complete := hverdict
  have hwhole : before ++ [c] ++ after = visit.arrivals := by
    rw [← hsplit, ← List.append_cons]
  have hbytes : Arrivals.text (before ++ [c]) ++ after.text = answer.bytes := by
    rw [← Arrivals.text_append, hwhole]
    exact harrives.reply
  rcases Answer.complete_prefix hbytes hcomplete with ⟨hinterims, hafter⟩ | hfirst
  · -- no interim response, and nothing left to read
    have hnil : after = [] := by
      refine Arrivals.eq_nil_of_text (fun d hd => harrives.reads d ?_) hafter
      rw [← hwhole]
      exact List.mem_append_right _ hd
    subst hnil
    have hresponse : Arrivals.text (before ++ [c]) = answer.response.bytes := by
      rw [hafter, List.append_nil] at hbytes
      rw [hbytes, Answer.bytes, hinterims, List.flatMap_nil, List.nil_append]
    have hfinished : visit.arrivals.finished = c.2 := by
      rw [← hsplit, Arrivals.finished_append_singleton]
    refine ⟨rfl, ?_⟩
    rw [judged, if_pos hverdict, Answer.exchange, hfinished, hresponse]
    simp only [Http11Get.protocol, answer.response.succeeded_bytes, Bool.and_eq_true,
      decide_eq_true_eq]
  · -- the buffer is the first interim head: the cut
    obtain ⟨interim, rest, hinterims, hhead⟩ := hfirst
    exact absurd (harrives.cut_of_stop hwhole hmore hinterims hhead) hcut

/-- On the cut an exchange leaves the connection usable with the final response still to
come. -/
theorem Answer.Arrives.exchange_of_cut (harrives : answer.Arrives visit)
    (hcut : answer.CutAfterInterim visit) (request : Text) :
    ∃ e rest, performRequest (Http11Get.protocol request) (visit.script []) = some (e, rest) ∧
      e.connectionUsable = true ∧ rest ≠ [] := by
  obtain ⟨sent, arrivals⟩ := visit
  obtain ⟨interim, rest, hinterims, before, after, rfl, hhead, hsmall⟩ := hcut
  rcases List.eq_nil_or_concat' before with rfl | ⟨before, c, rfl⟩
  · have hlength := congrArg List.length hhead
    rw [interim.head.length_render] at hlength
    simp [Arrivals.text] at hlength
  have hwhole : before ++ [c] ++ after = before ++ c :: after := (List.append_cons ..).symm
  have hcne : c.1 ≠ [] := harrives.reads c (by simp)
  have hmore : ∀ u v : Arrivals, u ++ v = before → u ≠ [] →
      (Http11Get.protocol request).consume u.text = .needMore := by
    rintro u v rfl -
    -- before the cut the buffer is a proper part of the head, within the bound
    have hinside : u.text ++ (v.text ++ c.1) = interim.head.render := by
      rw [← hhead]
      simp [Arrivals.text]
    have hle := hsmall u (v ++ [c]) (by simp) (by simp)
    exact (consume_of_lt_head interim.head hinside (by simp [hcne])).trans
      (if_neg (not_lt.mpr hle))
  have hstop : (Http11Get.protocol request).consume (Arrivals.text (before ++ [c])) =
      .complete := by
    have hcomplete := interim.consume_append []
    rw [List.append_nil, if_pos rfl, ← hhead] at hcomplete
    exact hcomplete
  -- the final response is still to come
  have hafter : after ≠ [] := by
    rintro rfl
    have hreply := harrives.reply
    rw [Visit.reply, List.append_nil, hhead, Answer.bytes, hinterims, List.flatMap_cons,
      List.append_assoc, List.self_eq_append_right, List.append_eq_nil_iff] at hreply
    exact answer.response.bytes_ne_nil hreply.2
  have hreads : Arrivals.Nonempty (before ++ c :: after) := hwhole ▸ harrives.reads
  refine ⟨judged (Http11Get.protocol request) sent c.2 (Arrivals.text (before ++ [c])),
    after.reads, ?_, ?_, ?_⟩
  · rw [hwhole]
    exact performRequest_of_stop hreads hmore (by rw [hstop]; simp)
  · rw [judged, if_pos hstop]
  · simpa [Arrivals.reads] using hafter

end OneExchange

/-! ## One connection -/

/-- Every exchange of a connection that leaves it usable is the one of its own final response,
with no byte of the answer still to come. -/
def InStep (rounds : List (Answer × Visit)) (results : List (Exchange × List Read)) : Prop :=
  ∀ (k : ℕ) (e : Exchange) (rest : List Read), results[k]? = some (e, rest) →
    ∃ answer visit, rounds[k]? = some (answer, visit) ∧
      (e.connectionUsable = true → rest = [] ∧ e = answer.exchange visit)

/-- A connection on which no answer is cut stays in step. -/
theorem exchanges_of_not_cut {request : Text} {rounds : List (Answer × Visit)}
    (h : ∀ round ∈ rounds, round.1.Arrives round.2 ∧ ¬round.1.CutAfterInterim round.2) :
    ∃ results, exchanges (Http11Get.protocol request) [] (rounds.map Prod.snd) = some results ∧
      InStep rounds results := by
  induction rounds with
  | nil =>
    refine ⟨[], rfl, ?_⟩
    intro k e rest hk
    cases hk
  | cons round rounds ih =>
    obtain ⟨harrives, hcut⟩ := h round List.mem_cons_self
    obtain ⟨results, hresults, hall⟩ := ih fun r hr => h r (List.mem_cons_of_mem _ hr)
    obtain ⟨e, rest, hperform, hdrained⟩ := harrives.exchange_of_not_cut hcut request
    rw [List.map_cons, exchanges, hperform]
    by_cases husable : e.connectionUsable = true
    · -- nothing is left for the next exchange to read
      obtain ⟨rfl, -⟩ := hdrained husable
      refine ⟨(e, []) :: results, by simp [husable, hresults], ?_⟩
      intro k e' rest' hk
      cases k with
      | zero =>
        obtain ⟨rfl, rfl⟩ := Prod.mk.inj (Option.some.inj hk)
        exact ⟨round.1, round.2, rfl, hdrained⟩
      | succ k => exact hall k e' rest' hk
    · -- the connection is dropped, and carries nothing more
      refine ⟨[(e, rest)], by simp [husable], ?_⟩
      intro k e' rest' hk
      cases k with
      | zero =>
        obtain ⟨rfl, rfl⟩ := Prod.mk.inj (Option.some.inj hk)
        exact ⟨round.1, round.2, rfl, hdrained⟩
      | succ k => cases hk

/-- An exchange with interim responses keeps the connection in step exactly off the cut, and a
connection on which no answer is cut stays in step for all its exchanges. -/
theorem interim_synchronised_iff (request : Text) :
    (∀ (answer : Answer) (visit : Visit), answer.Arrives visit →
      ((∀ e rest, performRequest (Http11Get.protocol request) (visit.script []) = some (e, rest) →
          e.connectionUsable = true → rest = [] ∧ e = answer.exchange visit) ↔
        ¬answer.CutAfterInterim visit)) ∧
      ∀ rounds : List (Answer × Visit),
        (∀ round ∈ rounds, round.1.Arrives round.2 ∧ ¬round.1.CutAfterInterim round.2) →
        ∃ results, exchanges (Http11Get.protocol request) [] (rounds.map Prod.snd) = some results ∧
          InStep rounds results := by
  refine ⟨fun answer visit harrives => ⟨fun hstep hcut => ?_, fun hcut e rest hperform => ?_⟩,
    fun rounds h => exchanges_of_not_cut h⟩
  · obtain ⟨e, rest, hperform, husable, hrest⟩ := harrives.exchange_of_cut hcut request
    exact hrest (hstep e rest hperform husable).1
  · obtain ⟨e', rest', hperform', hdrained⟩ := harrives.exchange_of_not_cut hcut request
    obtain ⟨rfl, rfl⟩ := Prod.mk.inj (Option.some.inj (hperform'.symm.trans hperform))
    exact hdrained

/-- `100 Continue`. -/
def continue100 : Interim where
  head := ⟨100, "Continue".toList, [], by decide, forall_mem_of_all (by decide)⟩
  informational := by decide
  unframed := rfl
  plain := rfl

/-- `Content-Length: 0`. -/
def noBody : Field :=
  ⟨"Content-Length".toList, " 0".toList, by decide, forall_mem_of_all (by decide),
    forall_mem_of_all (by decide)⟩

/-- `200 OK` without a body. -/
def ok200 : FinalResponse where
  head := ⟨200, "OK".toList, [noBody], by decide, forall_mem_of_all (by decide)⟩
  body := []
  final := by decide
  framed := ⟨"0".toList, by decide +kernel, by decide +kernel⟩
  plain := by decide +kernel
  fits := by decide +kernel

/-- `503` without a body. -/
def unavailable503 : FinalResponse where
  head := ⟨503, "Unavailable".toList, [noBody], by decide, forall_mem_of_all (by decide)⟩
  body := []
  final := by decide
  framed := ⟨"0".toList, by decide +kernel, by decide +kernel⟩
  plain := by decide +kernel
  fits := by decide +kernel

/-- A `100 Continue` that arrives in one read with a part of the final response is not cut, and
two answers without interim responses stay in step. -/
theorem interim_synchronised_iff_uncut :
    (∀ e rest, performRequest (Http11Get.protocol []) (Visit.script ⟨0,
          [("HTTP/1.1 100 Continue\r\n\r\nHTTP/1.1 200 OK\r\n".toList, 1),
            ("Content-Length: 0\r\n\r\n".toList, 2)]⟩ []) = some (e, rest) →
        e.connectionUsable = true → rest = [] ∧ e = Answer.exchange ⟨[continue100], ok200⟩ ⟨0,
          [("HTTP/1.1 100 Continue\r\n\r\nHTTP/1.1 200 OK\r\n".toList, 1),
            ("Content-Length: 0\r\n\r\n".toList, 2)]⟩) ∧
      ∃ results, exchanges (Http11Get.protocol []) []
          [⟨0, [(ok200.bytes, 5)]⟩, ⟨6, [(unavailable503.bytes, 9)]⟩] = some results ∧
        InStep [(⟨[], ok200⟩, ⟨0, [(ok200.bytes, 5)]⟩),
          (⟨[], unavailable503⟩, ⟨6, [(unavailable503.bytes, 9)]⟩)] results := by
  refine ⟨((interim_synchronised_iff []).1 ⟨[continue100], ok200⟩ _
    ⟨by decide +kernel, by decide +kernel⟩).mpr ?_, ?_⟩
  · rintro ⟨interim, rest, hinterims, before, after, hsplit, hhead, -⟩
    obtain ⟨rfl, -⟩ := List.cons.inj hinterims
    have hnone : ∀ before ∈ List.inits
        [("HTTP/1.1 100 Continue\r\n\r\nHTTP/1.1 200 OK\r\n".toList, (1 : Instant)),
          ("Content-Length: 0\r\n\r\n".toList, 2)],
        Arrivals.text before ≠ continue100.head.render := by decide +kernel
    exact hnone before ((List.mem_inits _ _).mpr ⟨after, hsplit⟩) hhead
  · refine (interim_synchronised_iff []).2 [(⟨[], ok200⟩, ⟨0, [(ok200.bytes, 5)]⟩),
      (⟨[], unavailable503⟩, ⟨6, [(unavailable503.bytes, 9)]⟩)] ?_
    intro round hround
    simp only [List.mem_cons, List.not_mem_nil, or_false] at hround
    rcases hround with rfl | rfl
    · refine ⟨⟨by decide +kernel, by decide +kernel⟩, ?_⟩
      rintro ⟨interim, rest, hinterims, -⟩
      cases hinterims
    · refine ⟨⟨by decide +kernel, by decide +kernel⟩, ?_⟩
      rintro ⟨interim, rest, hinterims, -⟩
      cases hinterims

/-- A `100 Continue` in a read of its own: the exchange ends there and the connection is
declared usable, so the next request, which the target answers with `503`, is reported as a
success, timed to the `200` of the request before it. -/
theorem interim_alone_desynchronises :
    ∃ rounds results,
      (∀ round ∈ rounds, Answer.Arrives round.1 round.2) ∧
        exchanges (Http11Get.protocol []) [] (rounds.map Prod.snd) = some results ∧
        results.map Prod.fst = [⟨.rejected, 1, true⟩, ⟨.succeeded, 3, true⟩] ∧
        rounds.map (fun round => round.1.exchange round.2) =
          [⟨.succeeded, 5, true⟩, ⟨.rejected, 7, true⟩] ∧
        ¬InStep rounds results := by
  refine ⟨[(⟨[continue100], ok200⟩, ⟨0, [(continue100.head.render, 1), (ok200.bytes, 5)]⟩),
      (⟨[], unavailable503⟩, ⟨2, [(unavailable503.bytes, 9)]⟩)],
    [(⟨.rejected, 1, true⟩, [.bytes ok200.bytes 5]),
      (⟨.succeeded, 3, true⟩, [.bytes unavailable503.bytes 9])],
    ?_, by decide +kernel, by decide, by decide +kernel, ?_⟩
  · intro round hround
    simp only [List.mem_cons, List.not_mem_nil, or_false] at hround
    rcases hround with rfl | rfl
    · exact ⟨by decide +kernel, by decide +kernel⟩
    · exact ⟨by decide +kernel, by decide +kernel⟩
  · intro hstep
    obtain ⟨answer, visit, -, hdrained⟩ := hstep 0 _ _ rfl
    cases (hdrained rfl).1

end Dariyanaap

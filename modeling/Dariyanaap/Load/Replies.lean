import Dariyanaap.Load.Runs

/-!
# Requests and replies on one connection

The target of a connection answers each request with some bytes, which arrive in reads of any
sizes; `exchanges` runs `perform_request` once per request on that stream. A call that stops
too early leaves reads behind, and the next call begins with them, so `exchanges` carries the
unread part of the stream from one call to the next.

A reply is `PrefixExact` for a protocol when the protocol asks to read on at every point inside
it and calls it complete at its end. Then no segmentation matters (`performRequest_of_exact`),
and by induction over the requests every call consumes its own reply (`exchanges_of_exact`).
-/

namespace Dariyanaap

open Text

namespace Arrivals

/-- When the last of some data arrived. -/
def finished (arrivals : Arrivals) : Instant := (arrivals.getLast?.map Prod.snd).getD 0

@[simp]
theorem finished_append_singleton (before : Arrivals) (c : Text × Instant) :
    Arrivals.finished (before ++ [c]) = c.2 := by
  simp [finished]

end Arrivals

/-- One request on a connection: when it was sent, and how the target's answer arrived. -/
structure Visit where
  sent : Instant
  arrivals : Arrivals

namespace Visit

/-- The bytes of the answer. -/
def reply (visit : Visit) : Text := visit.arrivals.text

/-- The environment of the exchange when some reads are still to be made on the connection. -/
def script (visit : Visit) (unread : List Read) : Script where
  sent := visit.sent
  write := .done
  reads := unread ++ visit.arrivals.reads

/-- What the exchange should return: the verdict on this answer, timed to its last byte. -/
def answered (protocol : Protocol) (visit : Visit) : Exchange where
  outcome := if protocol.succeeded visit.reply then .succeeded else .rejected
  elapsed := between visit.sent visit.arrivals.finished
  connectionUsable := true

end Visit

/-- The exchanges of one connection, each with the reads it left unread. An exchange that
leaves the connection unusable is the last one. -/
def exchanges (protocol : Protocol) :
    (unread : List Read) → List Visit → Option (List (Exchange × List Read))
  | _, [] => some []
  | unread, visit :: visits =>
      match performRequest protocol (visit.script unread) with
      | none => none
      | some (e, rest) =>
          if e.connectionUsable then (exchanges protocol rest visits).map ((e, rest) :: ·)
          else some [(e, rest)]

/-! ## Replies that no segmentation can cut short -/

/-- The protocol reads on inside `reply` and is satisfied at its end. -/
structure PrefixExact (protocol : Protocol) (reply : Text) : Prop where
  nonempty : reply ≠ []
  complete : protocol.consume reply = .complete
  needMore : ∀ u w : Text, u ++ w = reply → w ≠ [] → protocol.consume u = .needMore

/-- A bounded header block makes a complete HTTP reply exact. -/
theorem Http11Get.prefixExact {request reply : Text} {blank : ℕ}
    (hcomplete : Http11Get.consume reply = .complete)
    (hblank : find Http.blankLine reply = some blank) (hbound : blank + 4 ≤ kMaxHeaderBytes) :
    PrefixExact (Http11Get.protocol request) reply where
  nonempty := by
    rintro rfl
    cases hblank
  complete := hcomplete
  needMore := by
    rintro u w rfl hw
    exact consume_needMore_of_prefix hcomplete hw hblank hbound

/-- A raw reply is exact when it has the length of the payload. -/
theorem RawEcho.prefixExact {size : ℕ} {reply : Text} (hsize : size ≠ 0)
    (hlength : reply.length = size) : PrefixExact (RawEcho.protocol size) reply where
  nonempty := by
    rintro rfl
    exact hsize hlength.symm
  complete := by
    rw [RawEcho.protocol_consume]
    exact RawEcho.consume_of_eq hlength
  needMore := by
    rintro u w rfl hw
    have hpos : 0 < w.length := List.length_pos_of_ne_nil hw
    rw [RawEcho.protocol_consume]
    refine RawEcho.consume_of_lt ?_
    rw [List.length_append] at hlength
    omega

section Exact

variable {protocol : Protocol} {visit : Visit} {visits : List Visit}

/-- An exchange that begins in step with the target ends at the first boundary of the answer
that is judged, and leaves what arrived later unread. -/
theorem performRequest_of_stop {sent : Instant} {before after : Arrivals} {c : Text × Instant}
    (hreads : Arrivals.Nonempty (before ++ c :: after))
    (hmore : ∀ u v : Arrivals, u ++ v = before → u ≠ [] → protocol.consume u.text = .needMore)
    (hstop : protocol.consume (Arrivals.text (before ++ [c])) ≠ .needMore) :
    performRequest protocol (Visit.script ⟨sent, before ++ c :: after⟩ []) =
      some (judged protocol sent c.2 (Arrivals.text (before ++ [c])), after.reads) := by
  have hprefix : Arrivals.Nonempty (before ++ [c]) := by
    intro d hd
    refine hreads d ?_
    rw [List.append_cons]
    exact List.mem_append_left _ hd
  have hloop : readLoop protocol sent [] (Arrivals.reads (before ++ [c]) ++ after.reads) = _ :=
    readLoop_of_stop hprefix hmore hstop
  have hsplit : Arrivals.reads (before ++ c :: after) =
      Arrivals.reads (before ++ [c]) ++ after.reads := by
    simp [Arrivals.reads]
  rw [performRequest, Visit.script, List.nil_append]
  simp only [hsplit]
  exact hloop

/-- An exact reply is consumed as a whole, however it arrives. -/
theorem performRequest_of_exact (hexact : PrefixExact protocol visit.reply)
    (hreads : visit.arrivals.Nonempty) :
    performRequest protocol (visit.script []) = some (visit.answered protocol, []) := by
  obtain ⟨sent, arrivals⟩ := visit
  rcases List.eq_nil_or_concat' arrivals with rfl | ⟨before, c, rfl⟩
  · exact absurd rfl hexact.nonempty
  have hc : c.1 ≠ [] := hreads c (by simp)
  have hreply : Arrivals.text (before ++ [c]) = Arrivals.text before ++ c.1 := by
    simp [Arrivals.text]
  -- no boundary before the last one ends the reply
  have hmore : ∀ u v : Arrivals, u ++ v = before → u ≠ [] →
      protocol.consume u.text = .needMore := by
    rintro u v rfl -
    refine hexact.needMore u.text (v.text ++ c.1) ?_ (by simp [hc])
    rw [Visit.reply, hreply, Arrivals.text_append, List.append_assoc]
  have hstop : protocol.consume (Arrivals.text (before ++ [c])) = .complete := hexact.complete
  rw [performRequest_of_stop hreads hmore (by rw [hstop]; simp), judged, if_pos hstop]
  simp only [Visit.answered, Visit.reply, Arrivals.finished_append_singleton]
  rfl

/-- Every exchange of a connection consumes its own reply when all replies are exact. -/
theorem exchanges_of_exact
    (h : ∀ visit ∈ visits, visit.arrivals.Nonempty ∧ PrefixExact protocol visit.reply) :
    exchanges protocol [] visits =
      some (visits.map fun visit => (visit.answered protocol, [])) := by
  induction visits with
  | nil => rfl
  | cons visit visits ih =>
    -- the exchange leaves nothing unread, so the next one begins in step
    obtain ⟨hreads, hexact⟩ := h visit List.mem_cons_self
    have hrest := ih fun v hv => h v (List.mem_cons_of_mem _ hv)
    rw [exchanges, performRequest_of_exact hexact hreads]
    simp only [Visit.answered, if_true, hrest, Option.map_some, List.map_cons]

end Exact

/-! ## The protocols of the driver -/

/-- A made `Http11Get` judges as the class does, whatever its request. -/
theorem Http11Get.eq_of_make {host path : Text} {protocol : Protocol}
    (hmake : Http11Get.make host path = .ok protocol) :
    ∃ request, protocol = Http11Get.protocol request := by
  unfold Http11Get.make at hmake
  cases hbuild : Http.buildGet host path with
  | error e =>
    rw [hbuild] at hmake
    cases hmake
  | ok request =>
    rw [hbuild] at hmake
    cases hmake
    exact ⟨request, rfl⟩

/-- A made `RawEcho` has a payload. -/
theorem RawEcho.eq_of_make {size : ℕ} {protocol : Protocol}
    (hmake : RawEcho.make size = .ok protocol) :
    size ≠ 0 ∧ protocol = RawEcho.protocol size := by
  unfold RawEcho.make at hmake
  split at hmake
  · cases hmake
  · next hsize =>
    cases hmake
    exact ⟨hsize, rfl⟩

/-- `perform_request` as the loops call it. -/
def Protocol.perform (protocol : Protocol) (script : Script) : Option Exchange :=
  (performRequest protocol script).map Prod.fst

/-- Whatever the target does, a connection is usable exactly after a whole reply. -/
theorem Protocol.perform_usable {protocol : Protocol} {script : Script} {e : Exchange}
    (h : protocol.perform script = some e) : e.connectionUsable = e.outcome.replied := by
  obtain ⟨⟨e', rest⟩, hperform, rfl⟩ := Option.map_eq_some_iff.mp h
  exact performRequest_usable hperform

/-- Replies are never attributed to the wrong request. On one connection every call consumes
exactly the reply to its own request, for both protocols and however the replies are cut into
reads; and in every run of either loop, against any target, no socket carries a further
request after an exchange that was not a whole reply. -/
theorem replies_attributed :
    (∀ host path protocol, Http11Get.make host path = .ok protocol → ∀ visits : List Visit,
        (∀ visit ∈ visits, visit.arrivals.Nonempty ∧
          Http11Get.consume visit.reply = .complete ∧
          ∃ blank, find Http.blankLine visit.reply = some blank ∧
            blank + 4 ≤ Http11Get.kMaxHeaderBytes) →
        exchanges protocol [] visits =
          some (visits.map fun visit => (visit.answered protocol, []))) ∧
      (∀ size protocol, RawEcho.make size = .ok protocol → ∀ visits : List Visit,
        (∀ visit ∈ visits, visit.arrivals.Nonempty ∧ visit.reply.length = size) →
        exchanges protocol [] visits =
          some (visits.map fun visit => (visit.answered protocol, []))) ∧
      ∀ (protocol : Protocol) (fl : Rounding) (started : Instant) (threads : ℕ)
        (schedule : List (ℕ × Call Script)),
        (∀ (plan : ClosedLoopPlan) (state : ClosedLoop.State Script),
          (ClosedLoop.spawn Script plan started threads).run
              (ConnectionWorker.step protocol.perform (plan.window started)) schedule =
            some state →
          ∀ t ∈ state.threads, (ConnectionWorker.exchanges t.past).Pairwise RepliedBefore) ∧
        ∀ (plan : OpenLoopPlan) (state : OpenLoop.State Script),
          (OpenLoop.spawn Script plan started threads).run
              (OpenLoopWorker.step fl protocol.perform (plan.window started)) schedule =
            some state →
          ∀ t ∈ state.threads, (OpenLoopWorker.exchanges t.past).Pairwise RepliedBefore := by
  refine ⟨?_, ?_, ?_⟩
  · intro host path protocol hmake visits hvisits
    obtain ⟨request, rfl⟩ := Http11Get.eq_of_make hmake
    refine exchanges_of_exact fun visit hvisit => ?_
    obtain ⟨hreads, hcomplete, blank, hblank, hbound⟩ := hvisits visit hvisit
    exact ⟨hreads, Http11Get.prefixExact hcomplete hblank hbound⟩
  · intro size protocol hmake visits hvisits
    obtain ⟨hsize, rfl⟩ := RawEcho.eq_of_make hmake
    refine exchanges_of_exact fun visit hvisit => ?_
    obtain ⟨hreads, hlength⟩ := hvisits visit hvisit
    exact ⟨hreads, RawEcho.prefixExact hsize hlength⟩
  · intro protocol fl started threads schedule
    exact ⟨fun plan state hrun =>
        closedLoop_chain (fun _ _ hperform => Protocol.perform_usable hperform) hrun,
      fun plan state hrun =>
        openLoop_chain (fun _ _ hperform => Protocol.perform_usable hperform) hrun⟩

/-- Two HTTP replies, the first cut inside its headers and its body; one echoed payload cut in
two; and a worker of each loop whose first socket answers once and then breaks. -/
theorem replies_attributed_cut :
    (∃ protocol, Http11Get.make "host".toList "/".toList = .ok protocol ∧
      exchanges protocol []
          [⟨10, [("HTTP/1.1 200 OK\r\nContent-".toList, 12), ("Length: 2\r\n\r\nh".toList, 14),
              ("i".toList, 17)]⟩,
            ⟨20, [("HTTP/1.1 503 No\r\nContent-Length: 0\r\n\r\n".toList, 25)]⟩] =
        some [(⟨.succeeded, 7, true⟩, []), (⟨.rejected, 5, true⟩, [])]) ∧
      exchanges (RawEcho.protocol 3) [] [⟨10, [("ab".toList, 12), ("c".toList, 13)]⟩] =
        some [(⟨.succeeded, 3, true⟩, [])] ∧
      (∃ state : ClosedLoop.State Script,
        (ClosedLoop.spawn Script { duration := 10 } 0 1).run
            (ConnectionWorker.step (RawEcho.protocol 1).perform
              (ClosedLoopPlan.window { duration := 10 } 0))
            [(0, .now 0), (0, .connect .connected),
              (0, .perform ⟨1, .done, [.bytes "a".toList 2]⟩), (0, .now 3),
              (0, .perform ⟨4, .done, [.failed]⟩), (0, .now 5), (0, .connect .connected),
              (0, .perform ⟨6, .done, [.bytes "a".toList 7]⟩)] = some state ∧
          state.threads.map (fun t => (ConnectionWorker.exchanges t.past).map Prod.fst) =
            [[0, 0, 1]] ∧
          ∀ t ∈ state.threads, (ConnectionWorker.exchanges t.past).Pairwise RepliedBefore) ∧
      ∃ state : OpenLoop.State Script,
        (OpenLoop.spawn Script { duration := 10 } 0 1).run
            (OpenLoopWorker.step .exact (RawEcho.protocol 1).perform
              (OpenLoopPlan.window { duration := 10 } 0))
            [(0, .now 0), (0, .connect .connected), (0, .now 1), (0, .claim),
              (0, .sleepUntil 0 1), (0, .now 2), (0, .perform ⟨3, .done, [.failed]⟩)] =
          some state ∧
          state.threads.map (fun t => (OpenLoopWorker.exchanges t.past).map Prod.fst) = [[0]] ∧
          ∀ t ∈ state.threads, (OpenLoopWorker.exchanges t.past).Pairwise RepliedBefore := by
  refine ⟨⟨_, rfl, ?_⟩, ?_, ?_, ?_⟩
  · rw [replies_attributed.1 "host".toList "/".toList _ rfl _ ?_]
    · decide +kernel
    · have hfirst : find Http.blankLine
          "HTTP/1.1 200 OK\r\nContent-Length: 2\r\n\r\nhi".toList = some 34 := by decide +kernel
      have hsecond : find Http.blankLine
          "HTTP/1.1 503 No\r\nContent-Length: 0\r\n\r\n".toList = some 34 := by decide +kernel
      intro visit hvisit
      simp only [List.mem_cons, List.not_mem_nil, or_false] at hvisit
      rcases hvisit with rfl | rfl
      · exact ⟨by decide +kernel, by decide +kernel, 34, hfirst, by decide⟩
      · exact ⟨by decide +kernel, by decide +kernel, 34, hsecond, by decide⟩
  · rw [replies_attributed.2.1 3 _ rfl _ (by decide +kernel)]
    decide +kernel
  · refine Interleaving.exists_run_eq (fun state : ClosedLoop.State Script =>
      state.threads.map fun t => (ConnectionWorker.exchanges t.past).map Prod.fst) [[0, 0, 1]]
      (by decide +kernel) fun state hrun hids => ?_
    exact ⟨hids, (replies_attributed.2.2 _ .exact 0 1 _).1 { duration := 10 } state hrun⟩
  · refine Interleaving.exists_run_eq (fun state : OpenLoop.State Script =>
      state.threads.map fun t => (OpenLoopWorker.exchanges t.past).map Prod.fst) [[0]]
      (by decide +kernel) fun state hrun hids => ?_
    exact ⟨hids, (replies_attributed.2.2 _ .exact 0 1 _).2 { duration := 10 } state hrun⟩

end Dariyanaap

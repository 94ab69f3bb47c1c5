import Dariyanaap.Core.WriteAll
import Dariyanaap.Load.Exchange

/-!
# Exchanges in system calls

`perform_request` (`load/exchange.cpp`) at the level of `send` and `recv`: the loops of `write_all`
and `read_some` (`core/socket.cpp`) are taken apart into their turns. A turn is one system call with
what it returned, and the clock when it did.

The exchange of `Load/Exchange.lean` is what a run of these turns amounts to (`exchange_refined`):
a signal is no event of an exchange, and the bytes of the request were handed to the kernel once and
in order before the first read.
-/

namespace Dariyanaap

open WriteAll (Errno Send)

/-- What `recv` returns. No bytes means a clean close. -/
inductive Recv where
  | got (bytes : Text)
  | failed (errno : Errno)
  deriving DecidableEq

/-- The end of `read_some`, if a `recv` ends it. -/
def Recv.read (now : Instant) : Recv → Option Read
  | .got bytes => some (.bytes bytes now)
  -- a signal is not a network event
  | .failed .eintr => none
  | .failed .eagain | .failed .ewouldblock => some (.timedOut now)
  | .failed (.other _) => some .failed

namespace WriteAll

instance (data : Text) (w : Write) (send : Send) : Decidable (Permitted data w send) :=
  match send with
  | .wrote count => decidable_of_iff (count ≤ (w.offered data).length)
      ⟨fun h _ heq => Send.wrote.inj heq ▸ h, fun h => h count rfl⟩
  | .failed _ => isTrue fun _ heq => by cases heq

/-- The bytes a `send` hands over. -/
def Write.handed (data : Text) (w : Write) : Send → Text
  | .wrote count => (w.offered data).take count
  | .failed _ => []

section Handed

variable {data : Text} {w : Write} {send : Send}

/-- A turn gets further by what it hands over. -/
theorem turn_sent (hpermitted : Permitted data w send) :
    (w.turn data send).sent = w.sent + (w.handed data send).length := by
  cases send with
  | wrote count =>
    have hlength : ((w.offered data).take count).length = count :=
      List.length_take_of_le (hpermitted count rfl)
    rw [Write.handed, hlength]
    obtain rfl | hpos := Nat.eq_zero_or_pos count
    · rw [turn_wrote_zero, Nat.add_zero]
    · rw [turn_wrote hpos]
  | failed errno => exact turn_failed_sent

/-- What a turn hands over comes behind what was sent. -/
theorem take_append_handed (hpermitted : Permitted data w send) :
    data.take w.sent ++ w.handed data send = data.take (w.turn data send).sent := by
  rw [turn_sent hpermitted]
  cases send with
  | wrote count =>
    have hlength : ((w.offered data).take count).length = count :=
      List.length_take_of_le (hpermitted count rfl)
    rw [Write.handed, hlength, Write.offered, List.take_add]
  | failed errno => exact List.append_nil _

/-- What a turn hands over is no longer left to send. -/
theorem handed_append_drop (hpermitted : Permitted data w send) :
    w.handed data send ++ data.drop (w.turn data send).sent = data.drop w.sent := by
  rw [turn_sent hpermitted]
  cases send with
  | wrote count =>
    have hlength : ((w.offered data).take count).length = count :=
      List.length_take_of_le (hpermitted count rfl)
    rw [Write.handed, hlength, Write.offered, ← List.drop_drop, List.take_append_drop]
  | failed errno => rfl

end Handed

end WriteAll

namespace PerformRequest

/-- Where the call stands. -/
inductive Stage where
  | writing (w : WriteAll.Write)
  | reading (received : Text)
  | finished (e : Exchange) (received : Text)
  deriving DecidableEq

/-- A system call, and the clock when it returned. -/
inductive Turn where
  | send (result : Send) (now : Instant)
  | recv (result : Recv) (now : Instant)
  deriving DecidableEq

/-- After a turn of `write_all`. -/
def afterWrite (sent now : Instant) (w : WriteAll.Write) : Stage :=
  match w.ended with
  | none => .writing w
  | some .returned => .reading []
  | some (.timedOut _) => .finished { outcome := .timedOut, elapsed := between sent now } []
  | some (.ioError _) => .finished { outcome := .writeFailed } []

/-- After `read_some` returned or threw. -/
def afterRead (protocol : Protocol) (sent : Instant) (received : Text) : Read → Stage
  | .timedOut now => .finished { outcome := .timedOut, elapsed := between sent now } received
  | .failed => .finished { outcome := .readFailed } received
  | .bytes chunk now =>
      if chunk = [] then .finished { outcome := .readFailed } received
      else
        match protocol.consume (received ++ chunk) with
        | .needMore => .reading (received ++ chunk)
        | .malformed => .finished { outcome := .protocolError } (received ++ chunk)
        | .complete =>
            .finished
              { outcome :=
                  if protocol.succeeded (received ++ chunk) then .succeeded else .rejected
                elapsed := between sent now
                connectionUsable := true } (received ++ chunk)

/-- The entry of the call. -/
def enter (protocol : Protocol) (sent : Instant) : Stage :=
  afterWrite sent sent (WriteAll.enter protocol.request)

/-- One turn. -/
def turn (protocol : Protocol) (sent : Instant) : Stage → Turn → Option Stage
  | .writing w, .send result now => some (afterWrite sent now (w.turn protocol.request result))
  | .reading received, .recv result now =>
      match result.read now with
      | none => some (.reading received)
      | some read => some (afterRead protocol sent received read)
  | _, _ => none

/-- `send` accepts no more than it is offered. -/
def Permitted (protocol : Protocol) (stage : Stage) (t : Turn) : Prop :=
  ∀ w result now, stage = .writing w → t = .send result now →
    WriteAll.Permitted protocol.request w result

/-- The turns of a call entered at a given time, and where they lead. -/
inductive Run (protocol : Protocol) (sent : Instant) : List Turn → Stage → Prop
  | enter : Run protocol sent [] (enter protocol sent)
  | turn {turns : List Turn} {stage stage' : Stage} {t : Turn} :
      Run protocol sent turns stage → Permitted protocol stage t →
        turn protocol sent stage t = some stage' → Run protocol sent (turns ++ [t]) stage'

/-! ## The exchange that the turns amount to -/

namespace Turn

/-- What `send` returned. -/
def sendResult : Turn → Option Send
  | .send result _ => some result
  | .recv .. => none

/-- What `recv` returned. -/
def recvResult : Turn → Option Recv
  | .recv result _ => some result
  | .send .. => none

/-- The end of `write_all`, if it throws in this turn. -/
def write : Turn → Option Write
  | .send (.wrote 0) _ => some .failed
  | .send (.failed .eagain) now | .send (.failed .ewouldblock) now => some (.timedOut now)
  | .send (.failed (.other _)) _ => some .failed
  | _ => none

/-- The end of `read_some`, if it ends in this turn. -/
def read : Turn → Option Read
  | .recv result now => result.read now
  | .send .. => none

end Turn

/-- What the environment did during some turns. -/
def script (sent : Instant) (turns : List Turn) : Script where
  sent := sent
  write := (turns.findSome? Turn.write).getD .done
  reads := turns.filterMap Turn.read

/-- What the call has returned. -/
def Stage.result : Stage → Option (Exchange × List Read)
  | .finished e _ => some (e, [])
  | _ => none

/-- What the turns so far amount to. -/
inductive Stands (protocol : Protocol) (sent : Instant) (turns : List Turn) : Stage → Prop
  | writing (w : WriteAll.Write)
      (hrun : WriteAll.Run protocol.request (turns.filterMap Turn.sendResult) w)
      (hgoing : w.ended = none) (hwrite : turns.findSome? Turn.write = none)
      (hrecvs : turns.filterMap Turn.recvResult = []) : Stands protocol sent turns (.writing w)
  | reading (w : WriteAll.Write) (received : Text)
      (hrun : WriteAll.Run protocol.request (turns.filterMap Turn.sendResult) w)
      (hreturned : w.ended = some .returned) (hwrite : turns.findSome? Turn.write = none)
      (hreads : ∀ more, readLoop protocol sent [] (turns.filterMap Turn.read ++ more) =
        readLoop protocol sent received more) : Stands protocol sent turns (.reading received)
  | finished (w : WriteAll.Write) (e : Exchange) (received : Text)
      (hrun : WriteAll.Run protocol.request (turns.filterMap Turn.sendResult) w)
      (hended : w.ended = some .returned ∨ turns.filterMap Turn.recvResult = [])
      (hresult : performRequest protocol (script sent turns) = some (e, [])) :
      Stands protocol sent turns (.finished e received)

section Stands

variable {protocol : Protocol} {sent now : Instant} {turns : List Turn} {stage stage' : Stage}
  {t : Turn} {data received : Text} {w : WriteAll.Write} {result : Send} {read : Read}
  {rest : List Read}

/-- How `write_all` ends an exchange that it does not let go on. -/
def endOfWrite (now : Instant) : Option WriteAll.Outcome → Option Write
  | none | some .returned => none
  | some (.timedOut _) => some (.timedOut now)
  | some (.ioError _) => some .failed

/-- A turn of `write_all` is seen as what it does to the call. -/
theorem write_send (w : WriteAll.Write) (data : Text) (result : Send) (now : Instant) :
    Turn.write (.send result now) = endOfWrite now (w.turn data result).ended := by
  cases result with
  | wrote count =>
    obtain rfl | hpos := Nat.eq_zero_or_pos count
    · rfl
    · obtain ⟨k, rfl⟩ := Nat.exists_eq_add_of_lt hpos
      rw [WriteAll.turn_wrote hpos, WriteAll.test]
      split <;> simp [Turn.write, endOfWrite]
  | failed errno =>
    cases errno with
    | eintr =>
      rw [WriteAll.Write.turn, WriteAll.test]
      split <;> rfl
    | eagain | ewouldblock | other strerror => rfl

/-- Where nothing was received, no `read_some` ended. -/
theorem read_eq_nil (hrecvs : turns.filterMap Turn.recvResult = []) :
    turns.filterMap Turn.read = [] := by
  rw [List.filterMap_eq_nil_iff] at hrecvs ⊢
  intro t ht
  cases t with
  | send result now => rfl
  | recv result now => cases hrecvs _ ht

/-- One turn of the read loop. -/
theorem readLoop_cons : readLoop protocol sent received (read :: rest) =
    match afterRead protocol sent received read with
    | .reading received => readLoop protocol sent received rest
    | .finished e _ => some (e, rest)
    | .writing _ => none := by
  cases read with
  | timedOut now => rfl
  | failed => rfl
  | bytes chunk now =>
    rw [readLoop, afterRead]
    by_cases hchunk : chunk = []
    · rw [if_pos hchunk, if_pos hchunk]
    · rw [if_neg hchunk, if_neg hchunk]
      cases protocol.consume (received ++ chunk) <;> rfl

/-- What stands after a turn of `write_all`, or at its entry. -/
theorem stands_afterWrite
    (hrun : WriteAll.Run protocol.request (turns.filterMap Turn.sendResult) w)
    (hwrite : turns.findSome? Turn.write = endOfWrite now w.ended)
    (hrecvs : turns.filterMap Turn.recvResult = []) :
    Stands protocol sent turns (afterWrite sent now w) := by
  have hreads := read_eq_nil hrecvs
  rw [afterWrite]
  cases hended : w.ended with
  | none =>
    rw [hended] at hwrite
    exact .writing w hrun hended hwrite hrecvs
  | some outcome =>
    rw [hended] at hwrite
    cases outcome with
    | returned => exact .reading w [] hrun hended hwrite fun more => by rw [hreads, List.nil_append]
    | timedOut what =>
      refine .finished w _ _ hrun (.inr hrecvs) ?_
      rw [performRequest, script, hwrite, hreads]
      rfl
    | ioError what =>
      refine .finished w _ _ hrun (.inr hrecvs) ?_
      rw [performRequest, script, hwrite, hreads]
      rfl

theorem stands_enter : Stands protocol sent [] (enter protocol sent) := by
  refine stands_afterWrite .enter ?_ rfl
  rw [WriteAll.enter, WriteAll.test]
  split <;> rfl

/-- What stands after a `read_some`. -/
theorem stands_afterRead (h : Stands protocol sent turns (.reading received))
    (hread : t.read = some read) :
    Stands protocol sent (turns ++ [t]) (afterRead protocol sent received read) := by
  cases h with
  | reading w _ hrun hreturned hwrite hreads =>
    cases t with
    | send result now => cases hread
    | recv result now =>
      have hsends : (turns ++ [Turn.recv result now]).filterMap Turn.sendResult =
          turns.filterMap Turn.sendResult := by
        simp [Turn.sendResult]
      have hwrites : (turns ++ [Turn.recv result now]).findSome? Turn.write = none := by
        rw [List.findSome?_append, hwrite]
        rfl
      have hall : (turns ++ [Turn.recv result now]).filterMap Turn.read =
          turns.filterMap Turn.read ++ [read] := by
        rw [List.filterMap_append, List.filterMap_cons_some hread, List.filterMap_nil]
      rw [← hsends] at hrun
      cases hafter : afterRead protocol sent received read with
      | writing w' =>
        cases read with
        | bytes chunk now =>
          rw [afterRead] at hafter
          split at hafter
          · cases hafter
          · split at hafter <;> cases hafter
        | timedOut now => cases hafter
        | failed => cases hafter
      | reading received' =>
        refine .reading w received' hrun hreturned hwrites fun more => ?_
        rw [hall, List.append_assoc, List.singleton_append, hreads, readLoop_cons, hafter]
      | finished e received' =>
        refine .finished w e received' hrun (.inl hreturned) ?_
        rw [performRequest, script, hwrites, hall]
        dsimp only [Option.getD_none]
        rw [hreads, readLoop_cons, hafter]

/-- What stands after a turn. -/
theorem Stands.turn (h : Stands protocol sent turns stage)
    (hpermitted : Permitted protocol stage t)
    (hturn : turn protocol sent stage t = some stage') :
    Stands protocol sent (turns ++ [t]) stage' := by
  cases stage with
  | writing w =>
    cases h with
    | writing _ hrun hgoing hwrite hrecvs =>
      cases t with
      | recv result now => cases hturn
      | send result now =>
        obtain rfl := Option.some.inj hturn
        refine stands_afterWrite ?_ ?_ ?_
        · rw [List.filterMap_append]
          exact .turn hrun hgoing (hpermitted w result now rfl rfl)
        · rw [List.findSome?_append, hwrite, Option.none_or, List.findSome?_singleton, write_send]
        · rw [List.filterMap_append, hrecvs]
          rfl
  | reading received =>
    cases t with
    | send result now => cases hturn
    | recv result now =>
      rw [PerformRequest.turn] at hturn
      split at hturn
      · next hsignal =>
        -- the loop of `read_some` goes on
        obtain rfl := Option.some.inj hturn
        have hread : (Turn.recv result now).read = none := hsignal
        cases h with
        | reading w _ hrun hreturned hwrite hreads =>
          refine .reading w received ?_ hreturned ?_ fun more => ?_
          · rw [List.filterMap_append, List.filterMap_cons_none rfl, List.filterMap_nil,
              List.append_nil]
            exact hrun
          · rw [List.findSome?_append, hwrite]
            rfl
          · rw [List.filterMap_append, List.filterMap_cons_none hread, List.filterMap_nil,
              List.append_nil, hreads]
      · next read hread =>
        obtain rfl := Option.some.inj hturn
        exact stands_afterRead h hread
  | finished e received =>
    cases t with
    | send result now => cases hturn
    | recv result now => cases hturn

theorem run_stands (hrun : Run protocol sent turns stage) : Stands protocol sent turns stage := by
  induction hrun with
  | enter => exact stands_enter
  | turn _ hpermitted hturn ih => exact ih.turn hpermitted hturn

/-- What the system calls of an exchange amount to. -/
structure Amounts (protocol : Protocol) (sent : Instant) (turns : List Turn) (stage : Stage) :
    Prop where
  /-- The call returns what the exchange of its script is, when it is. -/
  exchange : performRequest protocol (script sent turns) = stage.result
  /-- The sends are a run of `write_all`. -/
  written : ∃ w, WriteAll.Run protocol.request (turns.filterMap Turn.sendResult) w ∧
    w.accepted.flatten <+: protocol.request ∧
    -- and nothing is received before the last byte is sent
    (turns.filterMap Turn.recvResult ≠ [] → w.accepted.flatten = protocol.request)

/-- The sends of a call, with the bytes handed over. -/
theorem Stands.written (h : Stands protocol sent turns stage) :
    ∃ w, WriteAll.Run protocol.request (turns.filterMap Turn.sendResult) w ∧
      (w.ended = some .returned ∨ turns.filterMap Turn.recvResult = []) := by
  cases h with
  | writing w hrun _ _ hrecvs => exact ⟨w, hrun, .inr hrecvs⟩
  | reading w _ hrun hreturned => exact ⟨w, hrun, .inl hreturned⟩
  | finished w _ _ hrun hended => exact ⟨w, hrun, hended⟩

/-- The exchange of the script so far. -/
theorem Stands.exchange (h : Stands protocol sent turns stage) :
    performRequest protocol (script sent turns) = stage.result := by
  cases h with
  | writing w _ _ hwrite hrecvs =>
    rw [performRequest, script, hwrite, read_eq_nil hrecvs]
    rfl
  | reading w received _ _ hwrite hreads =>
    rw [performRequest, script, hwrite]
    have hall := hreads []
    rw [List.append_nil] at hall
    exact hall
  | finished w e received _ _ hresult => exact hresult

/-- Whatever the system calls of `perform_request` return, the call is the exchange of their script,
and the bytes of the request go out once, in order and before anything is received. -/
theorem exchange_refined (hrun : Run protocol sent turns stage) :
    Amounts protocol sent turns stage := by
  have hstands := run_stands hrun
  obtain ⟨w, hwrite, hended⟩ := hstands.written
  have hstep := WriteAll.run_inStep hwrite
  refine ⟨hstands.exchange, w, hwrite, ?_, fun hrecvs => ?_⟩
  · rw [hstep.accepted]
    exact List.take_prefix _ _
  · have hall := hstep.returned.mp (hended.resolve_right hrecvs)
    rw [hstep.accepted, hall, List.take_length]

/-- Two bytes in two sends, and their echo in two reads behind a signal. -/
theorem exchange_refined_in_parts :
    Amounts (RawEcho.protocol 2) 10
      [.send (.wrote 1) 11, .send (.failed .eintr) 12, .send (.wrote 1) 13,
        .recv (.failed .eintr) 14, .recv (.got "a".toList) 15, .recv (.got "b".toList) 16]
      (.finished { outcome := .succeeded, elapsed := 6, connectionUsable := true }
        "ab".toList) := by
  -- a turn that is not a `send` is permitted
  have hrecv : ∀ received t, Permitted (RawEcho.protocol 2) (.reading received) t :=
    fun received t w result now hstage => by cases hstage
  have hsend : ∀ w result now, WriteAll.Permitted (RawEcho.protocol 2).request w result →
      Permitted (RawEcho.protocol 2) (.writing w) (.send result now) :=
    fun w result now hpermitted w' result' now' hstage ht => by
      cases hstage
      cases ht
      exact hpermitted
  have hfirst : Run (RawEcho.protocol 2) 10 ([] ++ [.send (.wrote 1) 11])
      (.writing ⟨1, ["a".toList], none⟩) :=
    .turn .enter (hsend _ _ _ (by decide)) (by decide)
  have hsignal : Run (RawEcho.protocol 2) 10 (_ ++ [.send (.failed .eintr) 12])
      (.writing ⟨1, ["a".toList], none⟩) :=
    .turn hfirst (hsend _ _ _ (by decide)) (by decide)
  have hsecond : Run (RawEcho.protocol 2) 10 (_ ++ [.send (.wrote 1) 13]) (.reading []) :=
    .turn hsignal (hsend _ _ _ (by decide)) (by decide)
  have hagain : Run (RawEcho.protocol 2) 10 (_ ++ [.recv (.failed .eintr) 14]) (.reading []) :=
    .turn hsecond (hrecv _ _) (by decide)
  have hhalf : Run (RawEcho.protocol 2) 10 (_ ++ [.recv (.got "a".toList) 15])
      (.reading "a".toList) :=
    .turn hagain (hrecv _ _) (by decide)
  exact exchange_refined (.turn hhalf (hrecv _ _) (by decide))

end Stands

end PerformRequest

/-! ## The system calls behind an exchange -/

/-- A `recv` behind what `read_some` did. -/
def Read.turn : Read → PerformRequest.Turn
  | .bytes chunk now => .recv (.got chunk) now
  | .timedOut now => .recv (.failed .eagain) now
  | .failed => .recv (.failed (.other [])) 0

/-- A `send` behind what `write_all` did with a request of some length. -/
def Write.turn (length : ℕ) : Write → PerformRequest.Turn
  | .done => .send (.wrote length) 0
  | .timedOut now => .send (.failed .eagain) now
  | .failed => .send (.wrote 0) 0

namespace PerformRequest

section Behind

variable {protocol : Protocol} {sent : Instant} {turns : List Turn} {received : Text}
  {read : Read} {reads : List Read} {e : Exchange} {s : Script}

theorem read_turn : read.turn.read = some read := by
  cases read <;> rfl

/-- A turn of the read loop. -/
theorem Run.recv (hrun : Run protocol sent turns (.reading received)) (read : Read) :
    Run protocol sent (turns ++ [read.turn]) (afterRead protocol sent received read) := by
  refine .turn hrun (fun w result now h => ?_) ?_
  · cases h
  · cases read <;> rfl

/-- The reads of an exchange, each of them one `recv`. -/
theorem exists_run_reads (hrun : Run protocol sent turns (.reading received))
    (h : readLoop protocol sent received reads = some (e, [])) :
    ∃ received', Run protocol sent (turns ++ reads.map Read.turn) (.finished e received') := by
  induction reads generalizing turns received with
  | nil => cases h
  | cons read reads ih =>
    have hturn := hrun.recv read
    rw [readLoop_cons] at h
    rw [List.map_cons, List.append_cons]
    split at h
    · next received' hafter =>
      rw [hafter] at hturn
      exact ih hturn h
    · next e' received' hafter =>
      cases h
      rw [hafter] at hturn
      rw [List.map_nil, List.append_nil]
      exact ⟨received', hturn⟩
    · cases h

/-- The first turn of a call that has a byte to send. -/
theorem Run.send (sent : Instant) (hrequest : protocol.request ≠ []) (write : Write) :
    Run protocol sent [write.turn protocol.request.length]
      (match write with
        | .done => .reading []
        | .timedOut now => .finished { outcome := .timedOut, elapsed := between sent now } []
        | .failed => .finished { outcome := .writeFailed } []) := by
  have hlength := List.length_pos_of_ne_nil hrequest
  have henter : Run protocol sent [] (.writing ⟨0, [], none⟩) := by
    have h : Run protocol sent [] (PerformRequest.enter protocol sent) := .enter
    rwa [PerformRequest.enter, WriteAll.enter, WriteAll.test_eq_none_iff.mpr hlength] at h
  have hwrite : ∀ result now, WriteAll.Permitted protocol.request ⟨0, [], none⟩ result →
      Run protocol sent [.send result now]
        (afterWrite sent now (WriteAll.Write.turn protocol.request ⟨0, [], none⟩ result)) :=
    fun result now hpermitted => .turn henter (fun w result' now' hw hsend => by
      cases hw
      cases hsend
      exact hpermitted) rfl
  cases write with
  | done =>
    have h := hwrite (.wrote protocol.request.length) 0 fun count hcount => by
      cases hcount
      simp [WriteAll.Write.offered]
    rw [WriteAll.turn_wrote hlength, afterWrite] at h
    dsimp only at h
    rw [WriteAll.test_eq_returned_iff.mpr (by omega)] at h
    exact h
  | timedOut now => exact hwrite (.failed .eagain) now fun count hcount => by cases hcount
  | failed => exact hwrite (.wrote 0) 0 fun count hcount => by cases hcount; exact Nat.zero_le _

/-- What the turns behind an exchange amount to. -/
theorem script_turns (hrequest : protocol.request ≠ []) :
    script s.sent (s.write.turn protocol.request.length :: s.reads.map Read.turn) = s := by
  have hreads : s.reads.filterMap (Turn.read ∘ Read.turn) = s.reads := by
    have hsome : Turn.read ∘ Read.turn = some := funext fun read => read_turn
    rw [hsome, List.filterMap_some]
  have hlater : (s.reads.map Read.turn).findSome? Turn.write = none := by
    rw [List.findSome?_map, List.findSome?_eq_none_iff]
    intro read _
    cases read <;> rfl
  have hpos := List.length_pos_of_ne_nil hrequest
  obtain ⟨length, hlength⟩ := Nat.exists_eq_succ_of_ne_zero hpos.ne'
  obtain ⟨sent, write, reads⟩ := s
  rw [script, List.filterMap_cons_none (by cases write <;> rfl), List.filterMap_map, hreads]
  cases write with
  | done =>
    rw [List.findSome?_cons_of_isNone, hlater]
    · rfl
    · rw [hlength]; rfl
  | timedOut now => rfl
  | failed => rfl

/-- The system calls behind an exchange that leaves nothing unread. -/
theorem exists_run_turns (hrequest : protocol.request ≠ [])
    (h : performRequest protocol s = some (e, [])) :
    ∃ received, Run protocol s.sent
      ([s.write.turn protocol.request.length] ++ s.reads.map Read.turn) (.finished e received) := by
  have hwrite := Run.send s.sent hrequest s.write
  obtain ⟨sent, write, reads⟩ := s
  cases write with
  | done => exact exists_run_reads hwrite h
  | timedOut now =>
    cases h
    exact ⟨[], hwrite⟩
  | failed =>
    cases h
    exact ⟨[], hwrite⟩

/-- The exchanges of a request are what its system calls can amount to, and no others: the script of
`perform_request` says no more and no less than `send` and `recv` can do. -/
theorem exchange_iff_exists_run (hrequest : protocol.request ≠ []) :
    performRequest protocol s = some (e, []) ↔
      ∃ (turns : List Turn) (received : Text),
        Run protocol s.sent turns (.finished e received) ∧ script s.sent turns = s := by
  constructor
  · intro h
    obtain ⟨received, hrun⟩ := exists_run_turns hrequest h
    exact ⟨_, received, hrun, script_turns hrequest⟩
  · rintro ⟨turns, received, hrun, hscript⟩
    have hexchange := (run_stands hrun).exchange
    rw [hscript] at hexchange
    exact hexchange

/-- A target that closes the connection behind half an echo. -/
theorem exchange_iff_exists_run_closed :
    ∃ (turns : List Turn) (received : Text),
      Run (RawEcho.protocol 2) 10 turns (.finished { outcome := .readFailed } received) ∧
        script 10 turns = ⟨10, .done, [.bytes "a".toList 12, .bytes [] 13]⟩ :=
  (exchange_iff_exists_run (s := ⟨10, .done, [.bytes "a".toList 12, .bytes [] 13]⟩)
    (by decide)).mp (by decide)

end Behind

end PerformRequest

end Dariyanaap

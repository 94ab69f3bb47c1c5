import Dariyanaap.App.Serving

/-!
# The rig against the null target

One connection with both of its ends: the worker of the rig calls `perform_request` for `RawEcho`
(`load/exchange.cpp`, `load/raw_echo.cpp`) over and over, as long as the connection stays usable,
and the null target serves the connection (`apps/dariyanaap_null.cpp`). Between them the kernel
holds the bytes of each direction in order. Who moves next, how many bytes a call takes and which
call fails is left open.

`RawEcho` sends the same bytes each time and does not look at those that come back. Neither does
anything else depend on them, so here the requests may differ (`RawEcho.sending`), and it can be
said whose echo an exchange has got (`safe`). At most one request is under way, so that no read of
the target passes the end of a payload, and `sync` says where its bytes can be.
-/

namespace Dariyanaap

namespace Echo

open WriteAll (Send)
open Null (Interlude Service)

/-- The end of the worker. -/
inductive Client where
  /-- Between two requests. -/
  | idle
  | asking (sent : Instant) (stage : PerformRequest.Stage)
  /-- It has closed the connection. -/
  | gone
  deriving DecidableEq

theorem Client.writing_inj {sent sent' : Instant} {w w' : WriteAll.Write}
    (h : Client.asking sent (.writing w) = .asking sent' (.writing w')) :
    sent = sent' ∧ w = w' := by
  obtain ⟨hsent, hstage⟩ := Client.asking.inj h
  exact ⟨hsent, PerformRequest.Stage.writing.inj hstage⟩

theorem Client.reading_inj {sent sent' : Instant} {received received' : Text}
    (h : Client.asking sent (.reading received) = .asking sent' (.reading received')) :
    sent = sent' ∧ received = received' := by
  obtain ⟨hsent, hstage⟩ := Client.asking.inj h
  exact ⟨hsent, PerformRequest.Stage.reading.inj hstage⟩

/-- A connection, and what the worker has got out of it. -/
structure Connection where
  client : Client := .idle
  service : Service := {}
  /-- Bytes on their way to the target. -/
  up : Text := []
  /-- Bytes on their way to the worker. -/
  down : Text := []
  /-- The exchanges that have ended, with the bytes received. -/
  exchanges : List (Exchange × Text) := []
  deriving DecidableEq

/-- Who moves, and what the kernel answers. -/
inductive Label where
  /-- The worker enters `perform_request`. -/
  | begin (now : Instant)
  /-- The worker has reached its deadline. -/
  | leave
  | client (turn : PerformRequest.Turn)
  | server (turn : Null.Turn)

/-- A channel after a `recv` from it, if it can return this: the first bytes on their way, as many
as there is space for, or a clean close behind the last of them. -/
def deliver (channel : Text) (closed : Bool) (space : ℕ) : Recv → Option Text
  | .got bytes =>
      if bytes = [] then if closed ∧ channel = [] then some [] else none
      else if bytes.length ≤ space ∧ bytes <+: channel then some (channel.drop bytes.length)
      else none
  | .failed _ => some channel

/-- The worker behind a turn of `perform_request`. It keeps the connection if it is usable. -/
def settle (c : Connection) (sent : Instant) : PerformRequest.Stage → Connection
  | .finished e received =>
      { c with
        client := if e.connectionUsable then .idle else .gone
        exchanges := c.exchanges ++ [(e, received)] }
  | stage => { c with client := .asking sent stage }

/-- One step. The worker sends its requests in order, all of them of the `n` bytes that the target
echoes, and has a read buffer of its own. -/
def step (interlude : ℕ → Interlude) (n : ℕ) (requests : ℕ → Text) (buffer : ℕ)
    (c : Connection) : Label → Option Connection
  | .begin now =>
      match c.client with
      | .idle =>
          some (settle c now
            (PerformRequest.enter (RawEcho.sending (requests c.exchanges.length)) now))
      | _ => none
  | .leave =>
      match c.client with
      | .idle => some { c with client := .gone }
      | _ => none
  | .client (.send result now) =>
      match c.client with
      | .asking sent (.writing w) =>
          if WriteAll.Permitted (requests c.exchanges.length) w result then
            (PerformRequest.turn (RawEcho.sending (requests c.exchanges.length)) sent
              (.writing w) (.send result now)).map
              (settle { c with up := c.up ++ w.handed (requests c.exchanges.length) result } sent)
          else none
      | _ => none
  | .client (.recv result now) =>
      match c.client with
      | .asking sent (.reading received) =>
          (deliver c.down (c.service.stage = .returned) buffer result).bind fun down =>
            (PerformRequest.turn (RawEcho.sending (requests c.exchanges.length)) sent
              (.reading received) (.recv result now)).map (settle { c with down := down } sent)
      | _ => none
  | .server (.recv result) =>
      match c.service.stage with
      | .reading filled =>
          (deliver c.up (c.client = .gone) (Null.bufferSize n - filled.length) result).bind
            fun up =>
              (Null.turn interlude n c.service (.recv result)).map fun service =>
                { c with service := service, up := up }
      | _ => none
  | .server .respond =>
      (Null.turn interlude n c.service .respond).map fun service => { c with service := service }
  | .server (.send result) =>
      match c.service.stage with
      | .answering reply w =>
          (Null.turn interlude n c.service (.send result)).map fun service =>
            { c with service := service, down := c.down ++ w.handed reply result }
      | _ => none

/-- The exchanges that succeeded. -/
def Connection.successes (c : Connection) : ℕ :=
  c.exchanges.countP fun (e, _) => e.outcome = .succeeded

/-- Whether the request before an interlude is dropped. -/
def drops (now : Interlude) : Bool := now.knobs.shouldDrop now.draw

/-! ## What a system call does to one end -/

/-- An error that is not a signal. -/
def Broken (errno : WriteAll.Errno) : Prop := errno ≠ .eintr

section Ends

variable {channel channel' bytes data received filled p : Text} {closed : Bool} {space : ℕ}
  {result : Recv} {send : Send} {w : WriteAll.Write} {sent now : Instant}
  {stage : PerformRequest.Stage}

/-- What a channel gives. -/
theorem deliver_got (h : deliver channel closed space (.got bytes) = some channel') :
    bytes = [] ∧ closed = true ∨ bytes ≠ [] ∧ bytes ++ channel' = channel := by
  rw [deliver] at h
  split at h
  · next hempty =>
    split at h
    · next hclosed => exact .inl ⟨hempty, hclosed.1⟩
    · cases h
  · next hne =>
    split at h
    · next hpart =>
      obtain rfl := Option.some.inj h
      obtain ⟨rest, hrest⟩ := hpart.2
      rw [← hrest, List.drop_left]
      exact .inr ⟨hne, rfl⟩
    · cases h

/-- What a turn of `write_all` leads to. -/
inductive Sent (data : Text) (w : WriteAll.Write) (send : Send) (w' : WriteAll.Write) : Prop
  | more (hgoing : w'.ended = none) (hle : w.sent ≤ w'.sent)
      (hlt : ∀ count, send = .wrote count → w.sent < w'.sent)
  | whole (hreturned : w'.ended = some .returned) (hall : w'.sent = data.length)
      (hlt : ∃ count, send = .wrote count ∧ 0 < count)
  | failed (hfailed : w'.ended ≠ none ∧ w'.ended ≠ some .returned)
      (hcause : send = .wrote 0 ∨ ∃ errno, Broken errno ∧ send = .failed errno)

theorem sent_turn (hstep : WriteAll.InStep data w) (hgoing : w.ended = none)
    (hpermitted : WriteAll.Permitted data w send) : Sent data w send (w.turn data send) := by
  have hnext := hstep.turn hgoing hpermitted
  have hlength := WriteAll.turn_sent hpermitted
  cases send with
  | wrote count =>
    obtain rfl | hpos := Nat.eq_zero_or_pos count
    · refine .failed ?_ (.inl rfl)
      rw [WriteAll.turn_wrote_zero]
      simp
    · have hlt : w.sent < (w.turn data (.wrote count)).sent := by
        rw [WriteAll.turn_wrote hpos]
        exact Nat.lt_add_of_pos_right hpos
      by_cases hmore : (w.turn data (.wrote count)).sent < data.length
      · refine .more ?_ hlt.le fun _ _ => hlt
        rw [WriteAll.turn_wrote hpos] at hmore ⊢
        exact WriteAll.test_eq_none_iff.mpr hmore
      · have hall := hnext.sent_le.antisymm (not_lt.mp hmore)
        exact .whole (hnext.returned.mpr hall) hall ⟨count, rfl, hpos⟩
  | failed errno =>
    cases errno with
    | eintr =>
      rw [WriteAll.turn_eintr hgoing (hstep.sent_lt hgoing)]
      exact .more hgoing le_rfl fun count h => by cases h
    | eagain | ewouldblock | other strerror =>
      exact .failed ⟨by simp [WriteAll.Write.turn], by simp [WriteAll.Write.turn]⟩
        (.inr ⟨_, by simp [Broken], rfl⟩)

/-- What a `recv` of the worker leads to, while some bytes of an echo are still to come. -/
inductive Received (p received channel : Text) (closed : Bool) (result : Recv) :
    PerformRequest.Stage → Text → Prop
  | more (received' channel' : Text) (hbytes : received' ++ channel' = received ++ channel)
      (hshort : received'.length < p.length) (hle : received.length ≤ received'.length)
      (hlt : ∀ bytes, result = .got bytes → received.length < received'.length) :
      Received p received channel closed result (.reading received') channel'
  | whole (e : Exchange) (hbytes : received ++ channel = p)
      (houtcome : e.outcome = .succeeded) (husable : e.connectionUsable = true)
      (hgot : ∃ bytes, result = .got bytes) :
      Received p received channel closed result (.finished e p) []
  | failed (e : Exchange) (received' channel' : Text)
      (houtcome : e.outcome = .timedOut ∨ e.outcome = .readFailed)
      (husable : e.connectionUsable = false)
      (hcause : (result = .got [] ∧ closed = true) ∨
        ∃ errno, Broken errno ∧ result = .failed errno) :
      Received p received channel closed result (.finished e received') channel'

/-- As much of a text as the whole is the whole. -/
theorem eq_of_prefix_of_length_le {whole : Text} (hpart : received ++ channel <+: whole)
    (hle : whole.length ≤ received.length) : received = whole ∧ channel = [] := by
  have hlength := hpart.length_le
  rw [List.length_append] at hlength
  obtain rfl : channel = [] := List.length_eq_zero_iff.mp (by omega)
  rw [List.append_nil] at hpart
  exact ⟨hpart.eq_of_length_le hle, rfl⟩

theorem received_turn (hpart : received ++ channel <+: p)
    (hshort : received.length < p.length)
    (hdeliver : deliver channel closed space result = some channel')
    (hturn : PerformRequest.turn (RawEcho.sending p) sent (.reading received)
      (.recv result now) = some stage) :
    Received p received channel closed result stage channel' := by
  cases result with
  | got bytes =>
    rw [PerformRequest.turn, Recv.read] at hturn
    obtain rfl := Option.some.inj hturn
    obtain ⟨rfl, hclosed⟩ | ⟨hne, rfl⟩ := deliver_got hdeliver
    · exact .failed _ _ _ (.inr rfl) rfl (.inl ⟨rfl, hclosed⟩)
    have hgrown : received.length < (received ++ bytes).length := by
      rw [List.length_append]
      exact Nat.lt_add_of_pos_right (List.length_pos_of_ne_nil hne)
    rw [← List.append_assoc] at hpart
    rw [PerformRequest.afterRead, if_neg hne]
    by_cases hmore : (received ++ bytes).length < p.length
    · have hneed : (RawEcho.sending p).consume (received ++ bytes) = .needMore :=
        RawEcho.consume_of_lt hmore
      rw [hneed]
      exact .more _ _ (List.append_assoc ..) hmore hgrown.le fun _ _ => hgrown
    · obtain ⟨hwhole, rfl⟩ := eq_of_prefix_of_length_le hpart (not_lt.mp hmore)
      have hcomplete : (RawEcho.sending p).consume (received ++ bytes) = .complete := by
        rw [hwhole]
        exact RawEcho.consume_of_eq rfl
      rw [hcomplete, hwhole]
      refine .whole _ ?_ rfl rfl ⟨bytes, rfl⟩
      rw [List.append_nil, hwhole]
  | failed errno =>
    obtain rfl := Option.some.inj hdeliver
    cases errno with
    | eintr =>
      obtain rfl := Option.some.inj hturn
      exact .more _ _ rfl hshort le_rfl fun bytes h => by cases h
    | eagain | ewouldblock =>
      obtain rfl := Option.some.inj hturn
      exact .failed _ _ _ (.inl rfl) rfl (.inr ⟨_, by simp [Broken], rfl⟩)
    | other strerror =>
      obtain rfl := Option.some.inj hturn
      exact .failed _ _ _ (.inr rfl) rfl (.inr ⟨_, by simp [Broken], rfl⟩)

/-- What a `recv` of the target leads to, while some bytes of a payload are still to come. -/
inductive Taken (p filled channel : Text) (closed : Bool) (result : Recv) :
    Null.Stage → Text → Prop
  | more (filled' channel' : Text) (hbytes : filled' ++ channel' = filled ++ channel)
      (hshort : filled'.length < p.length) (hle : filled.length ≤ filled'.length)
      (hlt : ∀ bytes, result = .got bytes → filled.length < filled'.length) :
      Taken p filled channel closed result (.reading filled') channel'
  | whole (hbytes : filled ++ channel = p) (hgot : ∃ bytes, result = .got bytes) :
      Taken p filled channel closed result (.holding p) []
  | failed (channel' : Text)
      (hcause : (result = .got [] ∧ closed = true) ∨
        ∃ errno, Broken errno ∧ result = .failed errno) :
      Taken p filled channel closed result .returned channel'

theorem taken_afterRecv (hpart : filled ++ channel <+: p)
    (hshort : filled.length < p.length)
    (hdeliver : deliver channel closed space result = some channel') :
    Taken p filled channel closed result (Null.afterRecv p.length filled result) channel' := by
  cases result with
  | got bytes =>
    obtain ⟨rfl, hclosed⟩ | ⟨hne, rfl⟩ := deliver_got hdeliver
    · exact .failed _ (.inl ⟨rfl, hclosed⟩)
    have hgrown : filled.length < (filled ++ bytes).length := by
      rw [List.length_append]
      exact Nat.lt_add_of_pos_right (List.length_pos_of_ne_nil hne)
    rw [← List.append_assoc] at hpart
    rw [Null.afterRecv, if_neg hne]
    split
    · next hmore => exact .more _ _ (List.append_assoc ..) hmore hgrown.le fun _ _ => hgrown
    · next hmore =>
      obtain ⟨hwhole, rfl⟩ := eq_of_prefix_of_length_le hpart (not_lt.mp hmore)
      rw [hwhole]
      refine .whole ?_ ⟨bytes, rfl⟩
      rw [List.append_nil, hwhole]
  | failed errno =>
    obtain rfl := Option.some.inj hdeliver
    cases errno with
    | eintr => exact .more _ _ rfl hshort le_rfl fun bytes h => by cases h
    | eagain | ewouldblock | other strerror =>
      exact .failed _ (.inr ⟨_, by simp [Broken], rfl⟩)

end Ends

/-! ## Where the bytes of a request can be -/

/-- The requests that the target has taken, against the exchanges that succeeded. It has dropped
none of these, and not the one that it is answering either. -/
structure Counted (interlude : ℕ → Interlude) (successes request taken answered : ℕ) : Prop where
  request_eq : request = successes + taken
  kept (i : ℕ) (h : i < successes) : drops (interlude i) = false
  answered (h : answered = 1) : drops (interlude successes) = false

/-- A worker whose target has hung up. What is still on its way to it is of the last answer. -/
inductive ClientSide (interlude : ℕ → Interlude) (p : Text) (taken answered : ℕ)
    (c : Connection) : Prop
  | idle (hclient : c.client = .idle) (hdown : c.down = [])
  | asking (sent : Instant) (w : WriteAll.Write) (hclient : c.client = .asking sent (.writing w))
      (hgoing : w.ended = none) (hwrite : WriteAll.InStep p w)
      (hdown : c.down = [])
  | reading (sent : Instant) (received : Text)
      (hclient : c.client = .asking sent (.reading received))
      (hbytes : received ++ c.down <+: p) (hshort : received.length < p.length)
      (hanswered : received ++ c.down ≠ [] → taken = 1 ∧ answered = 1)

/-- A target whose worker has gone. What is still on its way to it is of the last request. -/
inductive ServerSide (p : Text) (taken answered : ℕ) (c : Connection) : Prop
  | reading (filled : Text) (hstage : c.service.stage = .reading filled)
      (hbytes : filled ++ c.up <+: p) (hshort : filled.length < p.length)
      (hfresh : filled ++ c.up ≠ [] → taken = 0 ∧ answered = 0)
  | holding (hstage : c.service.stage = .holding p) (hup : c.up = [])
      (hfresh : taken = 0 ∧ answered = 0)
  | answering (w : WriteAll.Write) (hstage : c.service.stage = .answering p w)
      (hgoing : w.ended = none) (hwrite : WriteAll.InStep p w) (hup : c.up = [])
  | returned (hstage : c.service.stage = .returned)

/-- Where the bytes of the one request under way are. -/
inductive Phase (interlude : ℕ → Interlude) (p : Text) (c : Connection) : ℕ → ℕ → Prop
  | idle (hclient : c.client = .idle) (hup : c.up = []) (hdown : c.down = [])
      (hstage : c.service.stage = .reading []) : Phase interlude p c 0 0
  | asking (sent : Instant) (w : WriteAll.Write) (filled : Text)
      (hclient : c.client = .asking sent (.writing w)) (hgoing : w.ended = none)
      (hwrite : WriteAll.InStep p w)
      (hstage : c.service.stage = .reading filled)
      (hbytes : filled ++ c.up = p.take w.sent) (hdown : c.down = []) :
      Phase interlude p c 0 0
  | asked (sent : Instant) (filled : Text) (hclient : c.client = .asking sent (.reading []))
      (hstage : c.service.stage = .reading filled) (hbytes : filled ++ c.up = p)
      (hshort : filled.length < p.length) (hdown : c.down = []) : Phase interlude p c 0 0
  | held (sent : Instant) (hclient : c.client = .asking sent (.reading []))
      (hstage : c.service.stage = .holding p) (hup : c.up = [])
      (hdown : c.down = []) : Phase interlude p c 0 0
  | answering (sent : Instant) (received : Text) (w : WriteAll.Write)
      (hclient : c.client = .asking sent (.reading received))
      (hstage : c.service.stage = .answering p w) (hgoing : w.ended = none)
      (hwrite : WriteAll.InStep p w)
      (hbytes : received ++ c.down = p.take w.sent) (hup : c.up = []) :
      Phase interlude p c 1 1
  | answered (sent : Instant) (received : Text)
      (hclient : c.client = .asking sent (.reading received))
      (hstage : c.service.stage = .reading []) (hbytes : received ++ c.down = p)
      (hshort : received.length < p.length) (hup : c.up = []) : Phase interlude p c 1 1
  /-- Its request was dropped, and nothing will come. -/
  | dropped (sent : Instant) (hclient : c.client = .asking sent (.reading []))
      (hstage : c.service.stage = .reading []) (hup : c.up = []) (hdown : c.down = []) :
      Phase interlude p c 1 0
  | hungUp {taken answered : ℕ} (hle : answered ≤ taken ∧ taken ≤ 1)
      (hstage : c.service.stage = .returned) (hside : ClientSide interlude p taken answered c) :
      Phase interlude p c taken answered
  | left {taken answered : ℕ} (hle : answered ≤ taken ∧ taken ≤ 1) (hclient : c.client = .gone)
      (hside : ServerSide p taken answered c) : Phase interlude p c taken answered

/-- What the exchange of a request with the null target can be. -/
structure Fine (request : Text) (x : Exchange × Text) : Prop where
  outcome : x.1.outcome ≠ .protocolError ∧ x.1.outcome ≠ .rejected
  echo : x.1.outcome = .succeeded → x.2 = request

/-- Whose bytes are under way: those of the request behind the ones that have been echoed. These
are all there were, as long as the worker is there. -/
structure Own (n : ℕ) (requests : ℕ → Text) (c : Connection) (p : Text) : Prop where
  length : p.length = n
  request : p = requests c.successes
  all : c.client ≠ .gone → c.exchanges.length = c.successes

/-- The invariant. -/
structure Sync (interlude : ℕ → Interlude) (n : ℕ) (requests : ℕ → Text) (c : Connection) :
    Prop where
  phase : ∃ p taken answered, Own n requests c p ∧ Phase interlude p c taken answered ∧
    Counted interlude c.successes c.service.request taken answered
  fine : ∀ i x, c.exchanges[i]? = some x → Fine (requests i) x

section Steps

variable {interlude : ℕ → Interlude} {n buffer taken answered : ℕ} {requests : ℕ → Text}
  {c c' : Connection} {a : Label} {sent now : Instant} {w : WriteAll.Write}
  {filled received p : Text} {send : Send} {result : Recv} {stage : PerformRequest.Stage}
  {e : Exchange} {labels : List Label}

/-- While the bytes of a request are being sent, their front that was read is shorter. -/
theorem front_le_sent {front rest : Text} (hwrite : WriteAll.InStep p w)
    (hgoing : w.ended = none) (hbytes : front ++ rest = p.take w.sent) :
    front.length ≤ w.sent ∧ w.sent < p.length := by
  have hlength := congrArg List.length hbytes
  have hlt := hwrite.sent_lt hgoing
  rw [List.length_append, List.length_take_of_le hlt.le] at hlength
  exact ⟨by omega, hlt⟩

/-- With nothing read and nothing on its way, what is under way is any payload's front. -/
theorem isPrefix_of_nil {channel : Text} (hnil : channel = []) : [] ++ channel <+: p := by
  rw [hnil]
  exact List.nil_prefix

/-- A call of `write_all` has a byte to send. -/
theorem going_enter (hpos : 1 ≤ p.length) : (WriteAll.enter p).ended = none :=
  WriteAll.test_eq_none_iff.mpr hpos

theorem enter_sending (hpos : 1 ≤ p.length) : PerformRequest.enter (RawEcho.sending p) now =
    .writing (WriteAll.enter p) := by
  have hgoing : (WriteAll.enter (RawEcho.sending p).request).ended = none := going_enter hpos
  rw [PerformRequest.enter, PerformRequest.afterWrite, hgoing]
  rfl

/-- A `write_all` that throws ends the exchange, and the connection with it. -/
theorem exists_finished_of_failed (hfailed : w.ended ≠ none ∧ w.ended ≠ some .returned) :
    ∃ e, PerformRequest.afterWrite sent now w = .finished e [] ∧
      (e.outcome = .timedOut ∨ e.outcome = .readFailed ∨ e.outcome = .writeFailed) ∧
      e.connectionUsable = false := by
  rw [PerformRequest.afterWrite]
  split
  · next hnone => exact absurd hnone hfailed.1
  · next hreturned => exact absurd hreturned hfailed.2
  · exact ⟨_, rfl, .inl rfl, rfl⟩
  · exact ⟨_, rfl, .inr (.inr rfl), rfl⟩

/-- And the target that it throws in returns. -/
theorem afterWrite_failed (hfailed : w.ended ≠ none ∧ w.ended ≠ some .returned) :
    Null.afterWrite p w = .returned := by
  rw [Null.afterWrite]
  split
  · next hnone => exact absurd hnone hfailed.1
  · next hreturned => exact absurd hreturned hfailed.2
  · rfl
  · rfl

/-- While the worker is there, the request under way is the next one. -/
theorem Own.eq (h : Own n requests c p) (hclient : c.client ≠ .gone) :
    p = requests c.exchanges.length := by
  rw [h.all hclient]
  exact h.request

/-- It stays the one under way while the worker waits for its echo. -/
theorem Own.waiting (h : Own n requests c p) (hclient : c.client ≠ .gone)
    (hexchanges : c'.exchanges = c.exchanges) : Own n requests c' p := by
  have hsuccesses : c'.successes = c.successes := by
    rw [Connection.successes, hexchanges, Connection.successes]
  refine ⟨h.length, ?_, fun _ => ?_⟩
  · rw [hsuccesses]
    exact h.request
  · rw [hsuccesses, hexchanges]
    exact h.all hclient

/-- One more exchange, of its own request. -/
theorem fine_append {x : Exchange × Text}
    (hfine : ∀ i y, c.exchanges[i]? = some y → Fine (requests i) y)
    (hx : Fine (requests c.exchanges.length) x) :
    ∀ i y, (c.exchanges ++ [x])[i]? = some y → Fine (requests i) y := by
  intro i y hy
  rcases lt_trichotomy i c.exchanges.length with hlt | rfl | hgt
  · rw [List.getElem?_append_left hlt] at hy
    exact hfine i y hy
  · rw [List.getElem?_concat_length] at hy
    exact Option.some.inj hy ▸ hx
  · rw [List.getElem?_eq_none (by rw [List.length_append, List.length_singleton]; omega)] at hy
    cases hy

/-- An exchange that ends the connection. -/
theorem Sync.gone (hown : Own n requests c p)
    (hfine : ∀ i x, c.exchanges[i]? = some x → Fine (requests i) x)
    (husable : e.connectionUsable = false)
    (houtcome : e.outcome = .timedOut ∨ e.outcome = .readFailed ∨ e.outcome = .writeFailed)
    (hcounted : Counted interlude c.successes c.service.request taken answered)
    (hle : answered ≤ taken ∧ taken ≤ 1) (hside : ServerSide p taken answered c) :
    Sync interlude n requests (settle c sent (.finished e received)) := by
  have hfailed : e.outcome ≠ .succeeded := by
    rcases houtcome with h | h | h <;> simp [h]
  have hsuccesses : (settle c sent (.finished e received)).successes = c.successes := by
    simp [settle, Connection.successes, hfailed]
  have hgone : (settle c sent (.finished e received)).client = .gone := by
    simp [settle, husable]
  have hrequest : p = requests (settle c sent (.finished e received)).successes := by
    rw [hsuccesses]
    exact hown.request
  refine ⟨⟨p, taken, answered, ⟨hown.length, hrequest, fun hstays => absurd hgone hstays⟩,
    .left hle hgone ?_, by rw [hsuccesses]; exact hcounted⟩, fine_append hfine ?_⟩
  · cases hside with
    | reading filled hstage hbytes hshort hfresh =>
      exact .reading filled hstage hbytes hshort hfresh
    | holding hstage hup hfresh => exact .holding hstage hup hfresh
    | answering w hstage hgoing hwrite hup => exact .answering w hstage hgoing hwrite hup
    | returned hstage => exact .returned hstage
  · refine ⟨?_, fun h => absurd h hfailed⟩
    rcases houtcome with h | h | h <;> simp [h]

/-- A whole echo, behind which nothing is under way. -/
theorem Sync.succeeded (hlength : ∀ i, (requests i).length = n)
    (hown : Own n requests c p) (hthere : c.client ≠ .gone)
    (hfine : ∀ i x, c.exchanges[i]? = some x → Fine (requests i) x)
    (husable : e.connectionUsable = true) (houtcome : e.outcome = .succeeded)
    (hcounted : Counted interlude c.successes c.service.request 1 1) (hdown : c.down = [])
    (hserver : c.service.stage = .returned ∨ c.service.stage = .reading [] ∧ c.up = []) :
    Sync interlude n requests (settle c sent (.finished e p)) := by
  have hsuccesses : (settle c sent (.finished e p)).successes = c.successes + 1 := by
    simp [settle, Connection.successes, houtcome]
  have hidle : (settle c sent (.finished e p)).client = .idle := by
    simp [settle, husable]
  have hfresh : Counted interlude (c.successes + 1) c.service.request 0 0 := by
    refine ⟨hcounted.request_eq, fun i hi => ?_, nofun⟩
    rcases Nat.lt_succ_iff_lt_or_eq.mp hi with hlt | rfl
    · exact hcounted.kept i hlt
    · exact hcounted.answered rfl
  -- the next request is the one under way from here on
  have hown' : Own n requests (settle c sent (.finished e p)) (requests (c.successes + 1)) := by
    refine ⟨hlength _, by rw [hsuccesses], fun _ => ?_⟩
    rw [hsuccesses, ← hown.all hthere]
    exact List.length_append
  refine ⟨⟨_, 0, 0, hown', ?_, by rw [hsuccesses]; exact hfresh⟩,
    fine_append hfine ⟨by simp [houtcome], fun _ => hown.eq hthere⟩⟩
  rcases hserver with hreturned | ⟨hreading, hup⟩
  · exact .hungUp ⟨le_rfl, zero_le_one⟩ hreturned (.idle hidle hdown)
  · exact .idle hidle hup hdown hreading

/-- The worker begins an exchange, or leaves. -/
theorem Sync.begin (hpos : 1 ≤ n) (h : Sync interlude n requests c) (hclient : c.client = .idle) :
    Sync interlude n requests (settle c now
      (PerformRequest.enter (RawEcho.sending (requests c.exchanges.length)) now)) := by
  obtain ⟨⟨p, taken, answered, hown, hphase, hcounted⟩, hfine⟩ := h
  have hthere : c.client ≠ .gone := by
    rw [hclient]
    simp
  obtain rfl := hown.eq hthere
  rw [← hown.length] at hpos
  rw [enter_sending hpos]
  have hwrite := WriteAll.InStep.enter (requests c.exchanges.length)
  have hgoing := going_enter hpos
  refine ⟨⟨_, taken, answered, hown.waiting hthere rfl, ?_, hcounted⟩, hfine⟩
  cases hphase with
  | idle _ hup hdown hstage =>
    refine .asking now _ [] rfl hgoing hwrite hstage ?_ hdown
    exact hup
  | hungUp hle hstage hside =>
    cases hside with
    | idle _ hdown => exact .hungUp hle hstage (.asking now _ rfl hgoing hwrite hdown)
    | asking sent w hother | reading sent received hother =>
      rw [hother] at hclient
      cases hclient
  | asking sent w filled hother | asked sent filled hother | held sent hother
  | answering sent received w hother | answered sent received hother | dropped sent hother
  | left hle hother =>
    rw [hother] at hclient
    cases hclient

theorem Sync.leave (h : Sync interlude n requests c) (hpos : 1 ≤ n) (hclient : c.client = .idle) :
    Sync interlude n requests { c with client := .gone } := by
  obtain ⟨⟨p, taken, answered, hown, hphase, hcounted⟩, hfine⟩ := h
  rw [← hown.length] at hpos
  refine ⟨⟨p, taken, answered, ⟨hown.length, hown.request, fun hstays => absurd rfl hstays⟩, ?_,
    hcounted⟩, hfine⟩
  cases hphase with
  | idle _ hup hdown hstage =>
    exact .left ⟨le_rfl, zero_le_one⟩ rfl
      (.reading [] hstage (isPrefix_of_nil hup) hpos fun _ => ⟨rfl, rfl⟩)
  | hungUp hle hstage hside => exact .left hle rfl (.returned hstage)
  | asking sent w filled hother | asked sent filled hother | held sent hother
  | answering sent received w hother | answered sent received hother | dropped sent hother
  | left hle hother =>
    rw [hother] at hclient
    cases hclient

/-- The worker in `write_all`. -/
theorem Sync.client_send (h : Sync interlude n requests c)
    (hclient : c.client = .asking sent (.writing w))
    (hpermitted : WriteAll.Permitted (requests c.exchanges.length) w send) :
    Sync interlude n requests
      (settle { c with up := c.up ++ w.handed (requests c.exchanges.length) send } sent
        (PerformRequest.afterWrite sent now (w.turn (requests c.exchanges.length) send))) := by
  obtain ⟨⟨p, taken, answered, hown, hphase, hcounted⟩, hfine⟩ := h
  have hthere : c.client ≠ .gone := by
    rw [hclient]
    simp
  obtain rfl := hown.eq hthere
  have hown' : ∀ c' : Connection, c'.exchanges = c.exchanges → Own n requests c' _ :=
    fun c' => hown.waiting hthere
  cases hphase with
  | asking sent' w' filled hother hgoing hwrite hstage hbytes hdown =>
    obtain ⟨rfl, rfl⟩ : sent' = sent ∧ w' = w := Client.writing_inj (hother.symm.trans hclient)
    have hnext := hwrite.turn hgoing hpermitted
    have hhanded : filled ++ (c.up ++ w'.handed (requests c.exchanges.length) send) =
        (requests c.exchanges.length).take
          (w'.turn (requests c.exchanges.length) send).sent := by
      rw [← List.append_assoc, hbytes, WriteAll.take_append_handed hpermitted]
    obtain ⟨hfront, hlt⟩ := front_le_sent hwrite hgoing hbytes
    have hshort := hfront.trans_lt hlt
    cases sent_turn hwrite hgoing hpermitted with
    | more hgoing' hle hlt =>
      rw [PerformRequest.afterWrite, hgoing']
      exact ⟨⟨_, 0, 0, hown' _ rfl, .asking sent' _ filled rfl hgoing' hnext hstage hhanded hdown,
        hcounted⟩, hfine⟩
    | whole hreturned hall hlt =>
      rw [PerformRequest.afterWrite, hreturned]
      rw [hall, List.take_length] at hhanded
      exact ⟨⟨_, 0, 0, hown' _ rfl, .asked sent' filled rfl hstage hhanded hshort hdown, hcounted⟩,
        hfine⟩
    | failed hfailed hcause =>
      have hside : ServerSide (requests c.exchanges.length) 0 0
          { c with up := c.up ++ w'.handed (requests c.exchanges.length) send } :=
        .reading filled hstage (hhanded ▸ List.take_prefix _ _) hshort fun _ => ⟨rfl, rfl⟩
      obtain ⟨e, hfinished, houtcome, husable⟩ := exists_finished_of_failed hfailed
      rw [hfinished]
      exact .gone (hown' _ rfl) hfine husable houtcome hcounted ⟨le_rfl, zero_le_one⟩ hside
  | hungUp hle hstage hside =>
    cases hside with
    | asking sent' w' hother hgoing hwrite hdown =>
      obtain ⟨rfl, rfl⟩ : sent' = sent ∧ w' = w := Client.writing_inj (hother.symm.trans hclient)
      cases sent_turn hwrite hgoing hpermitted with
      | more hgoing' _ hlt =>
        rw [PerformRequest.afterWrite, hgoing']
        exact ⟨⟨_, taken, answered, hown' _ rfl, .hungUp hle hstage
          (.asking sent' _ rfl hgoing' (hwrite.turn hgoing hpermitted) hdown), hcounted⟩, hfine⟩
      | whole hreturned hall hlt =>
        rw [PerformRequest.afterWrite, hreturned]
        have hpos : 0 < (requests c.exchanges.length).length :=
          (Nat.zero_le _).trans_lt (hwrite.sent_lt hgoing)
        exact ⟨⟨_, taken, answered, hown' _ rfl, .hungUp hle hstage
          (.reading sent' [] rfl (isPrefix_of_nil hdown) hpos fun hne => absurd hdown hne),
          hcounted⟩, hfine⟩
      | failed hfailed hcause =>
        obtain ⟨e, hfinished, houtcome, husable⟩ := exists_finished_of_failed hfailed
        rw [hfinished]
        exact .gone (hown' _ rfl) hfine husable houtcome hcounted hle (.returned hstage)
    | idle hother | reading sent received hother =>
      rw [hother] at hclient
      cases hclient
  | idle hother | asked sent filled hother | held sent hother | answering sent received w hother
  | answered sent received hother | dropped sent hother | left hle hother =>
    rw [hother] at hclient
    cases hclient

/-- With nothing on its way, the worker goes on waiting or gives up. -/
theorem Received.of_nil {closed : Bool} {channel' : Text} (hpos : 1 ≤ p.length)
    (h : Received p [] [] closed result stage channel') :
    stage = .reading [] ∧ channel' = [] ∨ ∃ e received', stage = .finished e received' ∧
      (e.outcome = .timedOut ∨ e.outcome = .readFailed) ∧ e.connectionUsable = false := by
  cases h with
  | more received' channel' hbytes =>
    obtain ⟨rfl, rfl⟩ := List.append_eq_nil_iff.mp hbytes
    exact .inl ⟨rfl, rfl⟩
  | whole e hbytes => exact absurd hbytes.symm (List.ne_nil_of_length_pos hpos)
  | failed e received' channel' houtcome husable =>
    exact .inr ⟨e, received', rfl, houtcome, husable⟩

/-- The worker in `read_some`. -/
theorem Sync.client_recv (hpos : 1 ≤ n) (hlength : ∀ i, (requests i).length = n)
    (h : Sync interlude n requests c) {down : Text}
    (hclient : c.client = .asking sent (.reading received))
    (hdeliver : deliver c.down (c.service.stage = .returned) buffer result = some down)
    (hturn : PerformRequest.turn (RawEcho.sending (requests c.exchanges.length)) sent
      (.reading received) (.recv result now) = some stage) :
    Sync interlude n requests (settle { c with down := down } sent stage) := by
  obtain ⟨⟨p, taken, answered, hown, hphase, hcounted⟩, hfine⟩ := h
  have hthere : c.client ≠ .gone := by
    rw [hclient]
    simp
  obtain rfl := hown.eq hthere
  have hown' : ∀ c' : Connection, c'.exchanges = c.exchanges → Own n requests c' _ :=
    fun c' => hown.waiting hthere
  rw [← hown.length] at hpos
  -- what the worker that waits for a first byte does
  have hwaiting : received = [] → c.down = [] →
      stage = .reading [] ∧ down = [] ∨ ∃ e received', stage = .finished e received' ∧
        (e.outcome = .timedOut ∨ e.outcome = .readFailed) ∧ e.connectionUsable = false := by
    rintro rfl hdown
    rw [hdown] at hdeliver
    exact (received_turn (isPrefix_of_nil rfl) hpos hdeliver hturn).of_nil hpos
  cases hphase with
  | asked sent' filled hother hstage hbytes hshort hdown =>
    obtain ⟨rfl, rfl⟩ : sent' = sent ∧ [] = received :=
      Client.reading_inj (hother.symm.trans hclient)
    obtain ⟨rfl, rfl⟩ | ⟨e, received', rfl, houtcome, husable⟩ := hwaiting rfl hdown
    · exact ⟨⟨_, 0, 0, hown' _ rfl, .asked sent' filled rfl hstage hbytes hshort rfl, hcounted⟩,
        hfine⟩
    · exact .gone (hown' _ rfl) hfine husable (houtcome.imp_right .inl) hcounted
        ⟨le_rfl, zero_le_one⟩
        (.reading filled hstage (hbytes ▸ List.prefix_rfl) hshort fun _ => ⟨rfl, rfl⟩)
  | held sent' hother hstage hup hdown =>
    obtain ⟨rfl, rfl⟩ : sent' = sent ∧ [] = received :=
      Client.reading_inj (hother.symm.trans hclient)
    obtain ⟨rfl, rfl⟩ | ⟨e, received', rfl, houtcome, husable⟩ := hwaiting rfl hdown
    · exact ⟨⟨_, 0, 0, hown' _ rfl, .held sent' rfl hstage hup rfl, hcounted⟩, hfine⟩
    · exact .gone (hown' _ rfl) hfine husable (houtcome.imp_right .inl) hcounted
        ⟨le_rfl, zero_le_one⟩ (.holding hstage hup ⟨rfl, rfl⟩)
  | dropped sent' hother hstage hup hdown =>
    obtain ⟨rfl, rfl⟩ : sent' = sent ∧ [] = received :=
      Client.reading_inj (hother.symm.trans hclient)
    obtain ⟨rfl, rfl⟩ | ⟨e, received', rfl, houtcome, husable⟩ := hwaiting rfl hdown
    · exact ⟨⟨_, 1, 0, hown' _ rfl, .dropped sent' rfl hstage hup rfl, hcounted⟩, hfine⟩
    · exact .gone (hown' _ rfl) hfine husable (houtcome.imp_right .inl) hcounted
        ⟨zero_le_one, le_rfl⟩
        (.reading [] hstage (isPrefix_of_nil hup) hpos fun hne => absurd hup hne)
  | answering sent' received' w hother hstage hgoing hwrite hbytes hup =>
    obtain ⟨rfl, rfl⟩ : sent' = sent ∧ received' = received :=
      Client.reading_inj (hother.symm.trans hclient)
    obtain ⟨hfront, hlt⟩ := front_le_sent hwrite hgoing hbytes
    have hshort := hfront.trans_lt hlt
    cases received_turn (hbytes ▸ List.take_prefix _ _) hshort hdeliver hturn with
    | more received'' _ hmore hshort' =>
      exact ⟨⟨_, 1, 1, hown' _ rfl, .answering sent' received'' w rfl hstage hgoing hwrite
        (hmore.trans hbytes) hup, hcounted⟩, hfine⟩
    | whole e hwhole =>
      -- not all of the echo has been sent
      rw [hwhole, eq_comm, List.take_eq_self_iff] at hbytes
      omega
    | failed e _ _ houtcome husable =>
      exact .gone (hown' _ rfl) hfine husable (houtcome.imp_right .inl) hcounted ⟨le_rfl, le_rfl⟩
        (.answering w hstage hgoing hwrite hup)
  | answered sent' received' hother hstage hbytes hshort hup =>
    obtain ⟨rfl, rfl⟩ : sent' = sent ∧ received' = received :=
      Client.reading_inj (hother.symm.trans hclient)
    cases received_turn (hbytes ▸ List.prefix_rfl) hshort hdeliver hturn with
    | more received'' _ hmore hshort' =>
      exact ⟨⟨_, 1, 1, hown' _ rfl,
        .answered sent' received'' rfl hstage (hmore.trans hbytes) hshort' hup, hcounted⟩, hfine⟩
    | whole e _ houtcome husable =>
      exact .succeeded hlength (hown' _ rfl) hthere hfine husable houtcome hcounted rfl
        (.inr ⟨hstage, hup⟩)
    | failed e _ _ houtcome husable =>
      exact .gone (hown' _ rfl) hfine husable (houtcome.imp_right .inl) hcounted ⟨le_rfl, le_rfl⟩
        (.reading [] hstage (isPrefix_of_nil hup) hpos fun hne => absurd hup hne)
  | hungUp hle hstage hside =>
    cases hside with
    | reading sent' received' hother hbytes hshort hanswered =>
      obtain ⟨rfl, rfl⟩ : sent' = sent ∧ received' = received :=
        Client.reading_inj (hother.symm.trans hclient)
      cases received_turn hbytes hshort hdeliver hturn with
      | more received'' _ hmore hshort' =>
        refine ⟨⟨_, taken, answered, hown' _ rfl, .hungUp hle hstage
          (.reading sent' received'' rfl ?_ hshort' ?_), hcounted⟩, hfine⟩
        · exact hmore ▸ hbytes
        · exact fun hne => hanswered (hmore ▸ hne)
      | whole e hwhole houtcome husable =>
        obtain ⟨rfl, rfl⟩ := hanswered (hwhole ▸ List.ne_nil_of_length_pos hpos)
        exact .succeeded hlength (hown' _ rfl) hthere hfine husable houtcome hcounted rfl
          (.inl hstage)
      | failed e _ _ houtcome husable =>
        exact .gone (hown' _ rfl) hfine husable (houtcome.imp_right .inl) hcounted hle
          (.returned hstage)
    | idle hother | asking sent w hother =>
      rw [hother] at hclient
      cases hclient
  | idle hother | asking sent w filled hother | left hle hother =>
    rw [hother] at hclient
    cases hclient

/-- With nothing on its way, the target goes on waiting or hangs up. -/
theorem Taken.of_nil {closed : Bool} {channel' : Text} {stage : Null.Stage} (hpos : 1 ≤ p.length)
    (h : Taken p [] [] closed result stage channel') :
    stage = .reading [] ∧ channel' = [] ∨ stage = .returned := by
  cases h with
  | more filled' channel' hbytes =>
    obtain ⟨rfl, rfl⟩ := List.append_eq_nil_iff.mp hbytes
    exact .inl ⟨rfl, rfl⟩
  | whole hbytes => exact absurd hbytes.symm (List.ne_nil_of_length_pos hpos)
  | failed => exact .inr rfl

/-- The target in `read_some`. -/
theorem Sync.server_recv (hpos : 1 ≤ n) (h : Sync interlude n requests c) {up : Text}
    (hstage : c.service.stage = .reading filled)
    (hdeliver : deliver c.up (c.client = .gone) (Null.bufferSize n - filled.length) result =
      some up) :
    Sync interlude n requests
      { c with
        service := { c.service with stage := Null.afterRecv n filled result }
        up := up } := by
  obtain ⟨⟨p, taken, answered, hown, hphase, hcounted⟩, hfine⟩ := h
  obtain rfl := hown.length
  refine ⟨⟨p, taken, answered, ⟨hown.length, hown.request, hown.all⟩, ?_, hcounted⟩, hfine⟩
  -- what the target that waits for a request does
  have hwaiting : filled = [] → c.up = [] →
      Null.afterRecv p.length filled result = .reading [] ∧ up = [] ∨
        Null.afterRecv p.length filled result = .returned := by
    rintro rfl hup
    rw [hup] at hdeliver
    exact (taken_afterRecv (isPrefix_of_nil rfl) hpos hdeliver).of_nil hpos
  cases hphase with
  | idle hclient hup hdown hother =>
    obtain rfl : [] = filled := Null.Stage.reading.inj (hother.symm.trans hstage)
    obtain ⟨hnext, rfl⟩ | hnext := hwaiting rfl hup
    · exact .idle hclient rfl hdown hnext
    · exact .hungUp ⟨le_rfl, zero_le_one⟩ hnext (.idle hclient hdown)
  | asking sent w filled' hclient hgoing hwrite hother hbytes hdown =>
    obtain rfl : filled' = filled := Null.Stage.reading.inj (hother.symm.trans hstage)
    obtain ⟨hfront, hlt⟩ := front_le_sent hwrite hgoing hbytes
    have hshort := hfront.trans_lt hlt
    generalize hnext : Null.afterRecv p.length filled' result = next
    have htaken := taken_afterRecv (hbytes ▸ List.take_prefix _ _) hshort hdeliver
    rw [hnext] at htaken
    cases htaken with
    | more filled'' _ hmore =>
      exact .asking sent w filled'' hclient hgoing hwrite rfl (hmore.trans hbytes) hdown
    | whole hwhole =>
      -- not all of the request has been sent
      rw [hwhole, eq_comm, List.take_eq_self_iff] at hbytes
      omega
    | failed => exact .hungUp ⟨le_rfl, zero_le_one⟩ rfl (.asking sent w hclient hgoing hwrite hdown)
  | asked sent filled' hclient hother hbytes hshort hdown =>
    obtain rfl : filled' = filled := Null.Stage.reading.inj (hother.symm.trans hstage)
    generalize hnext : Null.afterRecv p.length filled' result = next
    have htaken := taken_afterRecv (hbytes ▸ List.prefix_rfl) hshort hdeliver
    rw [hnext] at htaken
    cases htaken with
    | more filled'' _ hmore hshort' =>
      exact .asked sent filled'' hclient rfl (hmore.trans hbytes) hshort' hdown
    | whole => exact .held sent hclient rfl rfl hdown
    | failed =>
      exact .hungUp ⟨le_rfl, zero_le_one⟩ rfl
        (.reading sent [] hclient (isPrefix_of_nil hdown) hpos fun hne => absurd hdown hne)
  | answered sent received hclient hother hbytes hshort hup =>
    obtain rfl : [] = filled := Null.Stage.reading.inj (hother.symm.trans hstage)
    obtain ⟨hnext, rfl⟩ | hnext := hwaiting rfl hup
    · exact .answered sent received hclient hnext hbytes hshort rfl
    · exact .hungUp ⟨le_rfl, le_rfl⟩ hnext
        (.reading sent received hclient (hbytes ▸ List.prefix_rfl) hshort fun _ => ⟨rfl, rfl⟩)
  | dropped sent hclient hother hup hdown =>
    obtain rfl : [] = filled := Null.Stage.reading.inj (hother.symm.trans hstage)
    obtain ⟨hnext, rfl⟩ | hnext := hwaiting rfl hup
    · exact .dropped sent hclient hnext rfl hdown
    · exact .hungUp ⟨zero_le_one, le_rfl⟩ hnext
        (.reading sent [] hclient (isPrefix_of_nil hdown) hpos fun hne => absurd hdown hne)
  | left hle hclient hside =>
    cases hside with
    | reading filled' hother hbytes hshort hfresh =>
      obtain rfl : filled' = filled := Null.Stage.reading.inj (hother.symm.trans hstage)
      generalize hnext : Null.afterRecv p.length filled' result = next
      have htaken := taken_afterRecv hbytes hshort hdeliver
      rw [hnext] at htaken
      cases htaken with
      | more filled'' _ hmore hshort' =>
        refine .left hle hclient (.reading filled'' rfl ?_ hshort' fun hne => ?_)
        · exact hmore ▸ hbytes
        · exact hfresh (hmore ▸ hne)
      | whole hwhole =>
        exact .left hle hclient
          (.holding rfl rfl (hfresh (hwhole ▸ List.ne_nil_of_length_pos hpos)))
      | failed => exact .left hle hclient (.returned rfl)
    | holding hother | answering w hother | returned hother =>
      rw [hother] at hstage
      cases hstage
  | held sent hclient hother | answering sent received w hclient hother | hungUp hle hother =>
    rw [hother] at hstage
    cases hstage

/-- A request that the target takes is dropped or answered. -/
theorem Counted.next {successes request : ℕ} (h : Counted interlude successes request 0 0) :
    Counted interlude successes (request + 1) 1 (if drops (interlude request) then 0 else 1) := by
  obtain rfl := h.request_eq
  refine ⟨rfl, h.kept, fun hanswered => ?_⟩
  by_contra hdrop
  rw [Bool.not_eq_false] at hdrop
  rw [if_pos hdrop] at hanswered
  cases hanswered

/-- The end of what holds a reply. -/
theorem respond_eq {s s' : Service} (hstage : s.stage = .holding filled)
    (hturn : Null.turn interlude n s .respond = some s') :
    s'.request = s.request + 1 ∧ if drops (interlude s.request) then s'.stage = .reading []
      else s'.stage = Null.afterWrite (filled.take n) (WriteAll.enter (filled.take n)) := by
  rw [Null.turn, hstage] at hturn
  dsimp only [Null.answer] at hturn
  rw [drops]
  split at hturn
  · next hdropped =>
    obtain rfl := Option.some.inj hturn
    split at hdropped
    · next hdrop => exact ⟨rfl, by rw [if_pos hdrop]⟩
    · cases hdropped
  · next reply rest hanswer =>
    obtain rfl := Option.some.inj hturn
    split at hanswer
    · cases hanswer
    · next hkeep =>
      obtain ⟨rfl, -⟩ := List.cons.inj hanswer
      exact ⟨rfl, by rw [if_neg hkeep]⟩

/-- The target at the end of what holds a reply. -/
theorem Sync.respond (hpos : 1 ≤ n) (h : Sync interlude n requests c) {service : Service}
    (hturn : Null.turn interlude n c.service .respond = some service) :
    Sync interlude n requests { c with service := service } := by
  obtain ⟨⟨p, taken, answered, hown, hphase, hcounted⟩, hfine⟩ := h
  obtain rfl := hown.length
  have hown' : Own p.length requests { c with service := service } p :=
    ⟨hown.length, hown.request, hown.all⟩
  -- a whole payload, whose reply is the same bytes
  have hnext : c.service.stage = .holding p →
      service.request = c.service.request + 1 ∧
        if drops (interlude c.service.request) then service.stage = .reading []
        else service.stage = .answering p (WriteAll.enter p) := by
    intro hstage
    have h := respond_eq hstage hturn
    rwa [List.take_length, Null.afterWrite, going_enter hpos] at h
  have hwrite := WriteAll.InStep.enter p
  cases hphase with
  | held sent hclient hstage hup hdown =>
    obtain ⟨hrequest, hstage'⟩ := hnext hstage
    have htaken := hcounted.next
    rw [← hrequest] at htaken
    split at hstage'
    · next hdrop =>
      rw [if_pos hdrop] at htaken
      exact ⟨⟨p, 1, 0, hown', .dropped sent hclient hstage' hup hdown, htaken⟩, hfine⟩
    · next hkeep =>
      rw [if_neg hkeep] at htaken
      exact ⟨⟨p, 1, 1, hown',
        .answering sent [] _ hclient hstage' (going_enter hpos) hwrite hdown hup, htaken⟩, hfine⟩
  | left hle hclient hside =>
    cases hside with
    | holding hstage hup hfresh =>
      obtain ⟨rfl, rfl⟩ := hfresh
      obtain ⟨hrequest, hstage'⟩ := hnext hstage
      have htaken := hcounted.next
      rw [← hrequest] at htaken
      split at hstage'
      · next hdrop =>
        rw [if_pos hdrop] at htaken
        exact ⟨⟨p, 1, 0, hown', .left ⟨zero_le_one, le_rfl⟩ hclient
          (.reading [] hstage' (isPrefix_of_nil hup) hpos fun hne => absurd hup hne), htaken⟩,
          hfine⟩
      · next hkeep =>
        rw [if_neg hkeep] at htaken
        exact ⟨⟨p, 1, 1, hown', .left ⟨le_rfl, le_rfl⟩ hclient
          (.answering _ hstage' (going_enter hpos) hwrite hup), htaken⟩, hfine⟩
    | reading filled hother | answering w hother | returned hother =>
      rw [Null.turn, hother] at hturn
      cases hturn
  | idle _ _ _ hother | asking _ _ _ _ _ _ hother | asked _ _ _ hother
  | answering _ _ _ _ hother | answered _ _ _ hother | dropped _ _ hother | hungUp _ hother =>
    rw [Null.turn, hother] at hturn
    cases hturn

/-- The target in `write_all`. -/
theorem Sync.server_send (hpos : 1 ≤ n) (h : Sync interlude n requests c) {reply : Text}
    (hstage : c.service.stage = .answering reply w)
    (hpermitted : WriteAll.Permitted reply w send) :
    Sync interlude n requests
      { c with
        service :=
          { c.service with
            stage := Null.afterWrite reply (w.turn reply send)
            sent := c.service.sent ++ w.handed reply send }
        down := c.down ++ w.handed reply send } := by
  obtain ⟨⟨p, taken, answered, hown, hphase, hcounted⟩, hfine⟩ := h
  rw [← hown.length] at hpos
  refine ⟨⟨p, taken, answered, ⟨hown.length, hown.request, hown.all⟩, ?_, hcounted⟩, hfine⟩
  cases hphase with
  | answering sent received w' hclient hother hgoing hwrite hbytes hup =>
    obtain ⟨rfl, rfl⟩ : p = reply ∧ w' = w := Null.Stage.answering.inj (hother.symm.trans hstage)
    have hhanded : received ++ (c.down ++ w'.handed p send) =
        p.take (w'.turn p send).sent := by
      rw [← List.append_assoc, hbytes, WriteAll.take_append_handed hpermitted]
    obtain ⟨hfront, hlt⟩ := front_le_sent hwrite hgoing hbytes
    have hshort := hfront.trans_lt hlt
    cases sent_turn hwrite hgoing hpermitted with
    | more hgoing' _ hlt =>
      refine .answering sent received _ hclient ?_ hgoing' (hwrite.turn hgoing hpermitted) hhanded
        hup
      rw [Null.afterWrite, hgoing']
    | whole hreturned hall hlt =>
      rw [hall, List.take_length] at hhanded
      refine .answered sent received hclient ?_ hhanded hshort hup
      rw [Null.afterWrite, hreturned]
    | failed hfailed hcause =>
      exact .hungUp ⟨le_rfl, le_rfl⟩ (afterWrite_failed hfailed)
        (.reading sent received hclient (hhanded ▸ List.take_prefix _ _) hshort
          fun _ => ⟨rfl, rfl⟩)
  | left hle hclient hside =>
    cases hside with
    | answering w' hother hgoing hwrite hup =>
      obtain ⟨rfl, rfl⟩ : p = reply ∧ w' = w := Null.Stage.answering.inj (hother.symm.trans hstage)
      refine .left hle hclient ?_
      cases sent_turn hwrite hgoing hpermitted with
      | more hgoing' _ hlt =>
        refine .answering _ ?_ hgoing' (hwrite.turn hgoing hpermitted) hup
        rw [Null.afterWrite, hgoing']
      | whole hreturned hall hlt =>
        refine .reading [] ?_ (isPrefix_of_nil hup) hpos fun hne => absurd hup hne
        rw [Null.afterWrite, hreturned]
      | failed hfailed hcause => exact .returned (afterWrite_failed hfailed)
    | reading filled hother | holding hother | returned hother =>
      rw [hother] at hstage
      cases hstage
  | idle _ _ _ hother | asking _ _ _ _ _ _ hother | asked _ _ _ hother
  | held _ _ hother | answered _ _ _ hother | dropped _ _ hother | hungUp _ hother =>
    rw [hother] at hstage
    cases hstage

/-- Every step keeps the two ends in step. -/
theorem Sync.step (hpos : 1 ≤ n) (hlength : ∀ i, (requests i).length = n)
    (h : Sync interlude n requests c)
    (hstep : step interlude n requests buffer c a = some c') : Sync interlude n requests c' := by
  cases a with
  | begin now =>
    rw [Echo.step] at hstep
    split at hstep
    · next hclient =>
      obtain rfl := Option.some.inj hstep
      exact h.begin hpos hclient
    · cases hstep
  | leave =>
    rw [Echo.step] at hstep
    split at hstep
    · next hclient =>
      obtain rfl := Option.some.inj hstep
      exact h.leave hpos hclient
    · cases hstep
  | client turn =>
    cases turn with
    | send result now =>
      rw [Echo.step] at hstep
      split at hstep
      · next sent w hclient =>
        split at hstep
        · next hpermitted =>
          obtain rfl := Option.some.inj hstep
          exact h.client_send hclient hpermitted
        · cases hstep
      · cases hstep
    | recv result now =>
      rw [Echo.step] at hstep
      split at hstep
      · next sent received hclient =>
        obtain ⟨down, hdeliver, hstep⟩ := Option.bind_eq_some_iff.mp hstep
        obtain ⟨stage, hturn, rfl⟩ := Option.map_eq_some_iff.mp hstep
        exact h.client_recv hpos hlength hclient hdeliver hturn
      · cases hstep
  | server turn =>
    cases turn with
    | recv result =>
      rw [Echo.step] at hstep
      split at hstep
      · next filled hstage =>
        obtain ⟨up, hdeliver, hstep⟩ := Option.bind_eq_some_iff.mp hstep
        rw [Null.turn, hstage] at hstep
        obtain rfl := Option.some.inj hstep
        exact h.server_recv hpos hstage hdeliver
      · cases hstep
    | respond =>
      obtain ⟨service, hturn, rfl⟩ := Option.map_eq_some_iff.mp hstep
      exact h.respond hpos hturn
    | send result =>
      rw [Echo.step] at hstep
      split at hstep
      · next reply w hstage =>
        obtain ⟨service, hturn, rfl⟩ := Option.map_eq_some_iff.mp hstep
        rw [Null.turn, hstage] at hturn
        dsimp only at hturn
        split at hturn
        · next hpermitted =>
          obtain rfl := Option.some.inj hturn
          exact h.server_send hpos hstage hpermitted
        · cases hturn
      · cases hstep

/-- Both ends are in step after every run. -/
theorem sync (hpos : 1 ≤ n) (hlength : ∀ i, (requests i).length = n)
    (hrun : Transition.run (Echo.step interlude n requests buffer) {} labels = some c) :
    Sync interlude n requests c := by
  refine Transition.run_invariant (fun c a c' h hstep => h.step hpos hlength hstep) ?_ hrun
  exact ⟨⟨_, 0, 0, ⟨hlength 0, rfl, fun _ => rfl⟩, .idle rfl rfl rfl rfl, ⟨rfl, nofun, nofun⟩⟩,
    nofun⟩

/-- What can be said of a connection at any time, whatever fails on it. -/
structure Safe (interlude : ℕ → Interlude) (n : ℕ) (requests : ℕ → Text) (c : Connection) :
    Prop where
  /-- No reply is malformed, and an exchange that succeeds is an echo of its own request. -/
  exchanges : ∀ i x, c.exchanges[i]? = some x → Fine (requests i) x
  /-- No read of the target passes the end of a payload. -/
  reading : ∀ filled, c.service.stage = .reading filled → filled.length < n
  /-- The requests that it takes are those of the worker, in order. -/
  holding : ∀ request, c.service.stage = .holding request → request = requests c.service.request
  /-- It never takes a request before the one it took last has succeeded, -/
  counted : c.successes ≤ c.service.request ∧ c.service.request ≤ c.successes + 1
  /-- and has dropped none that did. -/
  kept : ∀ i < c.successes, drops (interlude i) = false

/-- What a phase says of the requests. -/
theorem Phase.counted (h : Phase interlude p c taken answered) :
    answered ≤ taken ∧ taken ≤ 1 := by
  cases h with
  | idle | asking | asked | held => exact ⟨le_rfl, zero_le_one⟩
  | answering | answered => exact ⟨le_rfl, le_rfl⟩
  | dropped => exact ⟨zero_le_one, le_rfl⟩
  | hungUp hle | left hle => exact hle

/-- What a phase says of a target that reads. -/
theorem Phase.reading (hpos : 1 ≤ p.length) (h : Phase interlude p c taken answered)
    (hstage : c.service.stage = .reading filled) : filled.length < p.length := by
  have heq : ∀ other, c.service.stage = .reading other → other.length < p.length →
      filled.length < p.length := fun other hother hlt => by
    rw [hstage] at hother
    cases hother
    exact hlt
  cases h with
  | idle _ _ _ hother | answered _ _ _ hother | dropped _ _ hother => exact heq _ hother hpos
  | asked _ filled' _ hother _ hshort => exact heq _ hother hshort
  | asking _ w filled' _ hgoing hwrite hother hbytes =>
    obtain ⟨hfront, hlt⟩ := front_le_sent hwrite hgoing hbytes
    exact heq _ hother (hfront.trans_lt hlt)
  | left _ _ hside =>
    cases hside with
    | reading filled' hother _ hshort => exact heq _ hother hshort
    | holding hother | answering _ hother | returned hother =>
      rw [hother] at hstage
      cases hstage
  | held _ _ hother | answering _ _ _ _ hother | hungUp _ hother =>
    rw [hother] at hstage
    cases hstage

/-- What a phase says of a request that is held. -/
theorem Phase.holding {request : Text} (h : Phase interlude p c taken answered)
    (hstage : c.service.stage = .holding request) : request = p ∧ taken = 0 := by
  cases h with
  | held _ _ hother =>
    rw [hother] at hstage
    exact ⟨by simpa using hstage.symm, rfl⟩
  | left _ _ hside =>
    cases hside with
    | holding hother _ hfresh =>
      rw [hother] at hstage
      exact ⟨by simpa using hstage.symm, hfresh.1⟩
    | reading _ hother | answering _ hother | returned hother =>
      rw [hother] at hstage
      cases hstage
  | idle _ _ _ hother | asking _ _ _ _ _ _ hother | asked _ _ _ hother
  | answering _ _ _ _ hother | answered _ _ _ hother | dropped _ _ hother | hungUp _ hother =>
    rw [hother] at hstage
    cases hstage

/-- Whatever the kernel does, and whenever either end fails, hangs up or drops a request: an
exchange of the rig with the null target fails or is an echo of its own request, also when no two
requests are alike, and the bytes that the target would lose behind the end of a payload are never
there. -/
theorem safe (hpos : 1 ≤ n) (hlength : ∀ i, (requests i).length = n)
    (hrun : Transition.run (Echo.step interlude n requests buffer) {} labels = some c) :
    Safe interlude n requests c := by
  obtain ⟨⟨p, taken, answered, hown, hphase, hcounted⟩, hfine⟩ := sync hpos hlength hrun
  obtain rfl := hown.length
  refine ⟨hfine, fun _ => hphase.reading hpos, fun request hstage => ?_, ?_, hcounted.kept⟩
  · obtain ⟨rfl, rfl⟩ := hphase.holding hstage
    rw [hcounted.request_eq]
    exact hown.request
  · rw [hcounted.request_eq]
    exact ⟨Nat.le_add_right _ _, Nat.add_le_add_left hphase.counted.2 _⟩

/-- The first two requests of a run whose requests are not alike. -/
def unlike (i : ℕ) : Text := if i = 0 then "ab".toList else "cd".toList

/-- A request of two bytes that is echoed, and another that is dropped. -/
theorem safe_dropped :
    Safe (fun i => if i = 1 then { knobs := { any := true, dropPpm := 1_000_000 } } else {}) 2
      unlike
      { client := .gone
        service :=
          { request := 2, replies := [⟨0, {}, "ab".toList⟩], sent := "ab".toList }
        exchanges :=
          [({ outcome := .succeeded, elapsed := 3, connectionUsable := true }, "ab".toList),
            ({ outcome := .timedOut, elapsed := 1001 }, [])] } := by
  have hlength : ∀ i, (unlike i).length = 2 := fun i => by
    rw [unlike]
    split <;> rfl
  refine safe (by decide) hlength (?_ : Transition.run
      (Echo.step
        (fun i => if i = 1 then { knobs := { any := true, dropPpm := 1_000_000 } } else {}) 2
        unlike 16) {}
      [.begin 0, .client (.send (.wrote 2) 1), .server (.recv (.got "a".toList)),
        .server (.recv (.got "b".toList)), .server .respond, .server (.send (.wrote 1)),
        .client (.recv (.got "a".toList) 2), .server (.send (.wrote 1)),
        .client (.recv (.got "b".toList) 3), .begin 4, .client (.send (.wrote 2) 5),
        .server (.recv (.got "cd".toList)), .server .respond,
        .client (.recv (.failed .eagain) 1005)] = _)
  decide

end Steps

end Echo

end Dariyanaap

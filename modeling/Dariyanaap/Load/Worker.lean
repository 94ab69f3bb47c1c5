import Dariyanaap.Library.Interleaving
import Dariyanaap.Load.Connection
import Dariyanaap.Load.RunResult
import Dariyanaap.Stats.TimeSeries

/-!
# The closed-loop worker

`ConnectionWorker::run` (`load/worker.cpp`) as a step function: one connection, which is
replaced when it is lost, and one request at a time. Every call of the loop is a step; the
position in the loop between two calls is a `Pc` with the locals that are live there.

`step_move` lists what a step can do, `step_turn` what the accounting sees of it, and
`worker_invariant` is what holds between any two steps: the tally is the one of the measured
attempts in the worker's past, and the exchanges in it respect the socket discipline.
-/

namespace Dariyanaap

namespace ConnectionWorker

/-- Where the loop of `run` stands. -/
inductive Pc where
  /-- About to read the clock for the next turn. -/
  | top
  | connecting (now : Instant)
  /-- About to sleep for `reconnect_delay`. -/
  | backoff
  | sending (now : Instant)
  /-- About to read the clock for the per-second series. -/
  | stamping (now : Instant) (result : Exchange)
  | returned
  deriving DecidableEq

/-- What a worker has done. -/
inductive Event where
  | connectFailed (now : Instant)
  | exchanged (now : Instant) (socket : Socket) (result : Exchange)

namespace Event

/-- The attempt the accounting sees, unless it started during warm-up. -/
def attempt (window : RunWindow) : Event → Option Attempt
  | connectFailed now => if window.recordFrom ≤ now then some .connectFailed else none
  | exchanged now _ result =>
      if window.recordFrom ≤ now then some (.exchanged result.outcome result.elapsed) else none

/-- The exchange, if it is one, with the socket that carried it. -/
def carried : Event → Option (ℕ × Exchange)
  | connectFailed _ => none
  | exchanged _ socket result => some (socket.id, result)

end Event

end ConnectionWorker

open ConnectionWorker in
/-- `ConnectionWorker`, with the locals of `run`. -/
structure ConnectionWorker where
  pc : Pc := .top
  socket : Option Socket := none
  /-- `histogram_`, `errors_` and `attempted_`. -/
  tally : Tally := {}
  /-- `series_`. -/
  writer : Option TimeSeries.Writer
  connectionsOpened : ℕ := 0
  /-- How many sockets were opened, which is what names them. -/
  sockets : ℕ := 0

namespace ConnectionWorker

/-- The constructor, with or without a per-second series. -/
def make (timeseries : Bool) : ConnectionWorker where
  writer := if timeseries then some {} else none

/-- The worker after `catch (const IoError&)`. -/
def connectFailed (window : RunWindow) (w : ConnectionWorker) (now : Instant) :
    ConnectionWorker :=
  { w with
    tally := if window.recordFrom ≤ now then w.tally.connectFailed else w.tally
    pc := .backoff }

/-- The rest of a turn after `perform_request`. -/
def finishTurn (window : RunWindow) (w : ConnectionWorker) (now : Instant) (socket : Socket)
    (result : Exchange) : ConnectionWorker :=
  { w with
    tally :=
      if window.recordFrom ≤ now then w.tally.exchanged result.elapsed result.outcome
      else w.tally
    socket := socket.keepIf result.connectionUsable
    pc := .top }

variable {Reply : Type*} (perform : Reply → Option Exchange) (window : RunWindow)

/-- One call of `run`. -/
def step (series : TimeSeries) (w : ConnectionWorker) :
    Call Reply → Option (TimeSeries × ConnectionWorker × List Event)
  | .now instant =>
      match w.pc with
      | .top =>
          if window.deadline ≤ instant then some (series, { w with pc := .returned }, [])
          -- a lost connection is replaced before anything is sent
          else if w.socket = none then some (series, { w with pc := .connecting instant }, [])
          else some (series, { w with pc := .sending instant }, [])
      | .stamping now result =>
          match w.socket, w.writer with
          | some socket, some writer =>
              let (series, writer) := writer.record series instant result.elapsed
              some (series, finishTurn window { w with writer := some writer } now socket result,
                [.exchanged now socket result])
          | _, _ => none
      | _ => none
  | .connect answer =>
      match w.pc, answer with
      | .connecting now, .connected =>
          some (series,
            { w with
              socket := some ⟨w.sockets, true⟩
              sockets := w.sockets + 1
              connectionsOpened := w.connectionsOpened + 1
              pc := .sending now }, [])
      | .connecting now, .timeoutsFailed =>
          -- the assignment to `socket` came before the call that threw
          some (series,
            connectFailed window
              { w with socket := some ⟨w.sockets, false⟩, sockets := w.sockets + 1 } now,
            [.connectFailed now])
      | .connecting now, .refused =>
          some (series, connectFailed window w now, [.connectFailed now])
      | _, _ => none
  | .sleepFor =>
      match w.pc with
      | .backoff => some (series, { w with pc := .top }, [])
      | _ => none
  | .perform reply =>
      match w.pc, w.socket, perform reply with
      | .sending now, some socket, some result =>
          -- the series is stamped by a reading of its own, after the reply
          if window.recordFrom ≤ now ∧ w.writer.isSome ∧ result.outcome.timed then
            some (series, { w with pc := .stamping now result }, [])
          else some (series, finishTurn window w now socket result,
            [.exchanged now socket result])
      | _, _, _ => none
  | .sleepUntil .. | .claim => none

/-! ## What a step can do -/

/-- The transitions of a worker, with the call that takes each of them. -/
inductive Move (perform : Reply → Option Exchange) (window : RunWindow) (series : TimeSeries)
    (w : ConnectionWorker) : Call Reply → TimeSeries → ConnectionWorker → List Event → Prop
  /-- The run is over at the top of a turn. -/
  | ended (now : Instant) (hpc : w.pc = .top) (hdeadline : window.deadline ≤ now) :
      Move perform window series w (.now now) series { w with pc := .returned } []
  | replace (now : Instant) (hpc : w.pc = .top) (hsocket : w.socket = none) :
      Move perform window series w (.now now) series { w with pc := .connecting now } []
  | send (now : Instant) (socket : Socket) (hpc : w.pc = .top) (hsocket : w.socket = some socket) :
      Move perform window series w (.now now) series { w with pc := .sending now } []
  | connected (now : Instant) (hpc : w.pc = .connecting now) :
      Move perform window series w (.connect .connected) series
        { w with
          socket := some ⟨w.sockets, true⟩
          sockets := w.sockets + 1
          connectionsOpened := w.connectionsOpened + 1
          pc := .sending now } []
  | timeoutsFailed (now : Instant) (hpc : w.pc = .connecting now) :
      Move perform window series w (.connect .timeoutsFailed) series
        (connectFailed window
          { w with socket := some ⟨w.sockets, false⟩, sockets := w.sockets + 1 } now)
        [.connectFailed now]
  | refused (now : Instant) (hpc : w.pc = .connecting now) :
      Move perform window series w (.connect .refused) series (connectFailed window w now)
        [.connectFailed now]
  | slept (hpc : w.pc = .backoff) :
      Move perform window series w .sleepFor series { w with pc := .top } []
  /-- A measured exchange with something to time goes on to the reading of the series. -/
  | timed (now : Instant) (reply : Reply) (socket : Socket) (writer : TimeSeries.Writer)
      (result : Exchange) (hpc : w.pc = .sending now) (hsocket : w.socket = some socket)
      (hreply : perform reply = some result) (hmeasured : window.recordFrom ≤ now)
      (hwriter : w.writer = some writer) (htimed : result.outcome.timed = true) :
      Move perform window series w (.perform reply) series
        { w with pc := .stamping now result } []
  | untimed (now : Instant) (reply : Reply) (socket : Socket) (result : Exchange)
      (hpc : w.pc = .sending now) (hsocket : w.socket = some socket)
      (hreply : perform reply = some result)
      (huntimed : ¬(window.recordFrom ≤ now ∧ w.writer.isSome ∧ result.outcome.timed)) :
      Move perform window series w (.perform reply) series (finishTurn window w now socket result)
        [.exchanged now socket result]
  | stamped (now finished : Instant) (socket : Socket) (writer : TimeSeries.Writer)
      (result : Exchange) (hpc : w.pc = .stamping now result) (hsocket : w.socket = some socket)
      (hwriter : w.writer = some writer) :
      Move perform window series w (.now finished)
        (writer.record series finished result.elapsed).1
        (finishTurn window
          { w with writer := some (writer.record series finished result.elapsed).2 } now socket
          result)
        [.exchanged now socket result]

/-- The effects of a step on the worker and on its past. -/
inductive Turn (perform : Reply → Option Exchange) (window : RunWindow) (w : ConnectionWorker) :
    ConnectionWorker → List Event → Prop
  /-- Only the position in the loop changes. -/
  | goto (pc : Pc)
      (hpc : ∀ now result, pc = .stamping now result → ∃ reply, perform reply = some result) :
      Turn perform window w { w with pc := pc } []
  | connected (now : Instant) :
      Turn perform window w
        { w with
          socket := some ⟨w.sockets, true⟩
          sockets := w.sockets + 1
          connectionsOpened := w.connectionsOpened + 1
          pc := .sending now } []
  | timeoutsFailed (now : Instant) :
      Turn perform window w
        (connectFailed window
          { w with socket := some ⟨w.sockets, false⟩, sockets := w.sockets + 1 } now)
        [.connectFailed now]
  | refused (now : Instant) :
      Turn perform window w (connectFailed window w now) [.connectFailed now]
  | exchanged (now : Instant) (writer : Option TimeSeries.Writer) (socket : Socket)
      (result : Exchange) (hsocket : w.socket = some socket)
      (hresult : (∃ reply, perform reply = some result) ∨ w.pc = .stamping now result) :
      Turn perform window w (finishTurn window { w with writer := writer } now socket result)
        [.exchanged now socket result]

variable {perform window} {series series' : TimeSeries} {w w' : ConnectionWorker}
  {call : Call Reply} {out : List Event}

theorem step_move (h : step perform window series w call = some (series', w', out)) :
    Move perform window series w call series' w' out := by
  cases call with
  | now instant =>
    simp only [step] at h
    split at h
    · next hpc =>
      split at h
      · next hdeadline => cases h; exact .ended instant hpc hdeadline
      · split at h
        · next hsocket => cases h; exact .replace instant hpc hsocket
        · next hsocket =>
          cases h
          obtain ⟨socket, hsome⟩ := Option.ne_none_iff_exists'.mp hsocket
          exact .send instant socket hpc hsome
    · next now result hpc =>
      split at h
      · next socket writer hsocket hwriter =>
        cases h
        exact .stamped now instant socket writer result hpc hsocket hwriter
      · cases h
    · cases h
  | connect answer =>
    simp only [step] at h
    split at h
    · next now hpc => cases h; exact .connected now hpc
    · next now hpc => cases h; exact .timeoutsFailed now hpc
    · next now hpc => cases h; exact .refused now hpc
    · cases h
  | sleepFor =>
    simp only [step] at h
    split at h
    · next hpc => cases h; exact .slept hpc
    · cases h
  | perform reply =>
    simp only [step] at h
    split at h
    · next now socket result hpc hsocket hreply =>
      split at h
      · next hmeasured =>
        cases h
        obtain ⟨hfrom, hwriter, htimed⟩ := hmeasured
        obtain ⟨writer, hsome⟩ := Option.isSome_iff_exists.mp hwriter
        exact .timed now reply socket writer result hpc hsocket hreply hfrom hsome htimed
      · next huntimed =>
        cases h
        exact .untimed now reply socket result hpc hsocket hreply huntimed
    · cases h
  | sleepUntil due woke => cases h
  | claim => cases h

/-- What the accounting needs to know about a step. -/
theorem step_turn (h : step perform window series w call = some (series', w', out)) :
    Turn perform window w w' out := by
  have hgoto : ∀ pc : Pc, (∀ now result, pc ≠ .stamping now result) →
      Turn perform window w { w with pc := pc } [] := fun pc hpc =>
    .goto pc fun now result heq => absurd heq (hpc now result)
  cases step_move h with
  | ended => exact hgoto _ (by simp)
  | replace => exact hgoto _ (by simp)
  | send => exact hgoto _ (by simp)
  | connected now => exact .connected now
  | timeoutsFailed now => exact .timeoutsFailed now
  | refused now => exact .refused now
  | slept => exact hgoto _ (by simp)
  | timed now reply socket writer result hpc hsocket hreply =>
    refine .goto _ fun now' result' heq => ⟨reply, ?_⟩
    rw [hreply, (Pc.stamping.inj heq).2]
  | untimed now reply socket result hpc hsocket hreply =>
    exact .exchanged now w.writer socket result hsocket (.inl ⟨reply, hreply⟩)
  | stamped now finished socket writer result hpc hsocket =>
    exact .exchanged now _ socket result hsocket (.inr hpc)

/-! ## What holds between two steps -/

/-- The invariant of a worker and its past. -/
structure Invariant (perform : Reply → Option Exchange) (window : RunWindow)
    (w : ConnectionWorker) (past : List Event) : Prop where
  /-- The tally is the one of the measured attempts. -/
  tally : w.tally = .ofAttempts (past.filterMap (Event.attempt window))
  /-- The exchanges respect the socket discipline. -/
  discipline : SocketDiscipline w.socket w.sockets (past.filterMap Event.carried)
  /-- Every exchange is one that `perform_request` returned. -/
  performed : ∀ c ∈ past.filterMap Event.carried, ∃ reply, perform reply = some c.2
  /-- So is the one whose turn is not over. -/
  pending : ∀ now result, w.pc = .stamping now result → ∃ reply, perform reply = some result

namespace Invariant

variable {past : List Event}

/-- A new worker has no past. -/
theorem make (timeseries : Bool) : Invariant perform window (.make timeseries) [] where
  tally := rfl
  discipline := .start
  performed := by simp
  pending := by
    rintro now result ⟨⟩

/-- A failed connect is booked if it was measured, and carries nothing. -/
theorem connectFailed (hinv : Invariant perform window w past) (now : Instant) :
    Invariant perform window (w.connectFailed window now) (past ++ [.connectFailed now]) where
  tally := by
    rw [List.filterMap_append, ConnectionWorker.connectFailed, hinv.tally]
    by_cases hmeasuring : window.recordFrom ≤ now
    · simp [Event.attempt, hmeasuring, Tally.book]
    · simp [Event.attempt, hmeasuring]
  discipline := by
    simpa [List.filterMap_cons, Event.carried, ConnectionWorker.connectFailed]
      using hinv.discipline
  performed := by
    simpa [List.filterMap_cons, Event.carried] using hinv.performed
  pending := by
    rintro now result ⟨⟩

/-- A finished exchange is booked if it was measured, on the socket in hand. -/
theorem exchanged (hinv : Invariant perform window w past) {now : Instant} {socket : Socket}
    {result : Exchange} (hsocket : w.socket = some socket)
    (hresult : ∃ reply, perform reply = some result) :
    Invariant perform window (w.finishTurn window now socket result)
      (past ++ [.exchanged now socket result]) where
  tally := by
    rw [List.filterMap_append, finishTurn, hinv.tally]
    by_cases hmeasuring : window.recordFrom ≤ now
    · simp [Event.attempt, hmeasuring, Tally.book]
    · simp [Event.attempt, hmeasuring]
  discipline := by
    have hdiscipline := hinv.discipline
    rw [hsocket] at hdiscipline
    simpa [List.filterMap_cons, Event.carried, finishTurn] using hdiscipline.carry result
  performed := by
    rw [List.filterMap_append]
    exact exists_reply_append hinv.performed hresult
  pending := by
    rintro now result ⟨⟩

end Invariant

/-- Every step of a worker keeps its invariant. -/
theorem worker_invariant {past : List Event} (hinv : Invariant perform window w past)
    (h : step perform window series w call = some (series', w', out)) :
    Invariant perform window w' (past ++ out) := by
  cases step_turn h with
  | goto pc hpc =>
    rw [List.append_nil]
    exact { hinv with pending := hpc }
  | connected now =>
    rw [List.append_nil]
    exact { hinv with
      discipline := hinv.discipline.connect true
      pending := by rintro now result ⟨⟩ }
  | timeoutsFailed now =>
    -- the socket was assigned before the call that threw, and has carried nothing
    have hopened : Invariant perform window
        { w with socket := some ⟨w.sockets, false⟩, sockets := w.sockets + 1 } past :=
      { hinv with discipline := hinv.discipline.connect false }
    exact hopened.connectFailed now
  | refused now => exact hinv.connectFailed now
  | exchanged now writer socket result hsocket hresult =>
    -- a stamped result was returned by the exchange before the stamp
    have hperformed : ∃ reply, perform reply = some result := by
      rcases hresult with hreply | hpc
      · exact hreply
      · exact hinv.pending now result hpc
    have hstamped : Invariant perform window { w with writer := writer } past := { hinv with }
    exact hstamped.exchanged hsocket hperformed

end ConnectionWorker

end Dariyanaap

import Dariyanaap.Library.Interleaving
import Dariyanaap.Load.Connection
import Dariyanaap.Load.RunResult

/-!
# Open-loop runs

`Schedule` (`load/schedule.hpp`), the `OpenLoopWorker` and `run_open_loop`
(`load/open_loop.cpp`). The workers share the schedule and nothing else; a claim is one atomic
step, and the counter it advances is a natural number. As for the closed loop, every call of
the loop is a step and `Pc` is the position between two calls.

`Turn` lists every transition with all it needs and does, so the invariants of this module and
of the later ones are case analyses over it.
-/

namespace Dariyanaap

/-! ## The schedule -/

/-- The schedule of a run: request `i` is due at `start + rate.dueAt i`. -/
structure Schedule where
  rate : Rate
  start : Instant
  next : ℕ := 0

/-- `Schedule::Slot`. -/
structure Slot where
  index : ℕ
  due : Instant
  deriving DecidableEq

namespace Schedule

/-- The slot of an index. -/
def slot (fl : Rounding) (schedule : Schedule) (index : ℕ) : Slot where
  index := index
  due := schedule.start + schedule.rate.dueAt fl index

/-- `Schedule::claim`: hand out the next index, atomically. -/
def claim (fl : Rounding) (schedule : Schedule) : Schedule × Slot :=
  ({ schedule with next := schedule.next + 1 }, schedule.slot fl schedule.next)

/-- `Schedule::claimed`. -/
def claimed (schedule : Schedule) : ℕ := schedule.next

end Schedule

namespace OpenLoopWorker

/-- Where the loop of `run` stands. -/
inductive Pc where
  /-- About to read the clock for the next turn. -/
  | top
  | connecting
  /-- In the handler of a failed connect, about to read the clock. -/
  | refused
  /-- About to sleep for `reconnect_delay`. -/
  | backoff
  /-- About to read `free_at`. -/
  | ready
  | claiming (freeAt : Instant)
  /-- About to sleep until the slot is due. -/
  | waiting (freeAt : Instant) (slot : Slot)
  /-- About to read `sending`. -/
  | awake (freeAt : Instant) (slot : Slot)
  | sending (freeAt : Instant) (slot : Slot) (sending : Instant)
  | returned
  deriving DecidableEq

/-- A slot that was carried, with the three readings its lag is split by. -/
structure Sent where
  slot : Slot
  freeAt : Instant
  sending : Instant
  socket : Socket
  result : Exchange

namespace Sent

/-- How late the request was sent. -/
def late (sent : Sent) : Nanos := max 0 (between sent.slot.due sent.sending)

/-- How much of it passed before the worker came free. -/
def waited (sent : Sent) : Nanos := max 0 (between sent.slot.due sent.freeAt)

/-- How much of it passed after. -/
def rig (sent : Sent) : Nanos := sent.late - sent.waited

/-- The latency of the request, measured from the slot's due time. -/
def fromDue (sent : Sent) : Nanos :=
  between sent.slot.due sent.sending + sent.result.elapsed

end Sent

/-- What a worker has done. -/
inductive Event where
  | connectFailed (now : Instant)
  | claimed (slot : Slot)
  | exchanged (sent : Sent)

namespace Event

/-- The attempt the accounting sees, unless it belongs to the warm-up. -/
def attempt (window : RunWindow) : Event → Option Attempt
  | connectFailed now => if window.recordFrom ≤ now then some .connectFailed else none
  | claimed _ => none
  | exchanged sent =>
      if window.recordFrom ≤ sent.slot.due then
        some (.exchanged sent.result.outcome sent.fromDue)
      else none

/-- The carried slot, if there is one. -/
def sent : Event → Option Sent
  | exchanged sent => some sent
  | _ => none

/-- The carried slot, if its lag was recorded. -/
def measured (window : RunWindow) : Event → Option Sent
  | exchanged sent => if window.recordFrom ≤ sent.slot.due then some sent else none
  | _ => none

/-- The claimed slot, if there is one. -/
def slot : Event → Option Slot
  | claimed slot => some slot
  | _ => none

/-- The exchange, if it is one, with the socket that carried it. -/
def carried : Event → Option (ℕ × Exchange)
  | exchanged sent => some (sent.socket.id, sent.result)
  | _ => none

end Event

end OpenLoopWorker

open OpenLoopWorker in
/-- `OpenLoopWorker`, with the locals of `run`. -/
structure OpenLoopWorker where
  pc : Pc := .top
  socket : Option Socket := none
  /-- `histogram`, `errors` and `attempted`. -/
  tally : Tally := {}
  lag : Histogram := .empty
  connectionWait : Histogram := .empty
  rigLag : Histogram := .empty
  connectionsOpened : ℕ := 0
  /-- How many sockets were opened, which is what names them. -/
  sockets : ℕ := 0

namespace OpenLoopWorker

/-- The rest of a turn after `perform_request`. -/
def finishTurn (window : RunWindow) (w : OpenLoopWorker) (sent : Sent) : OpenLoopWorker :=
  let w :=
    -- whether a request is measured is decided by when it was due
    if window.recordFrom ≤ sent.slot.due then
      { w with
        lag := w.lag.record sent.late
        connectionWait := w.connectionWait.record sent.waited
        rigLag := w.rigLag.record sent.rig
        tally := w.tally.exchanged sent.fromDue sent.result.outcome }
    else w
  { w with socket := sent.socket.keepIf sent.result.connectionUsable, pc := .top }

section FinishTurn

variable (window : RunWindow) (w : OpenLoopWorker) (sent : Sent)

@[simp]
theorem finishTurn_pc : (finishTurn window w sent).pc = .top := rfl

@[simp]
theorem finishTurn_socket :
    (finishTurn window w sent).socket = sent.socket.keepIf sent.result.connectionUsable := rfl

/-- What is measured says nothing about sockets. -/
@[simp]
theorem finishTurn_sockets : (finishTurn window w sent).sockets = w.sockets := by
  unfold finishTurn
  split <;> rfl

@[simp]
theorem finishTurn_connectionsOpened :
    (finishTurn window w sent).connectionsOpened = w.connectionsOpened := by
  unfold finishTurn
  split <;> rfl

end FinishTurn

variable {Reply : Type*} (fl : Rounding) (perform : Reply → Option Exchange) (window : RunWindow)

/-- One call of `run`. -/
def step (schedule : Schedule) (w : OpenLoopWorker) :
    Call Reply → Option (Schedule × OpenLoopWorker × List Event)
  | .now instant =>
      match w.pc with
      | .top =>
          if window.deadline ≤ instant then some (schedule, { w with pc := .returned }, [])
          -- a lost connection is replaced before a slot is claimed
          else if w.socket = none then some (schedule, { w with pc := .connecting }, [])
          else some (schedule, { w with pc := .ready }, [])
      | .refused =>
          some (schedule,
            { w with
              tally := if window.recordFrom ≤ instant then w.tally.connectFailed else w.tally
              pc := .backoff }, [.connectFailed instant])
      | .ready => some (schedule, { w with pc := .claiming instant }, [])
      | .awake freeAt slot => some (schedule, { w with pc := .sending freeAt slot instant }, [])
      | _ => none
  | .connect answer =>
      match w.pc, answer with
      | .connecting, .connected =>
          some (schedule,
            { w with
              socket := some ⟨w.sockets, true⟩
              sockets := w.sockets + 1
              connectionsOpened := w.connectionsOpened + 1
              pc := .ready }, [])
      | .connecting, .timeoutsFailed =>
          -- the assignment to `socket` came before the call that threw
          some (schedule,
            { w with socket := some ⟨w.sockets, false⟩, sockets := w.sockets + 1, pc := .refused },
            [])
      | .connecting, .refused => some (schedule, { w with pc := .refused }, [])
      | _, _ => none
  | .sleepFor =>
      match w.pc with
      | .backoff => some (schedule, { w with pc := .top }, [])
      | _ => none
  | .claim =>
      match w.pc with
      | .claiming freeAt =>
          let (schedule, slot) := schedule.claim fl
          -- the slot counts as claimed, but is past the end of the run
          if window.deadline ≤ slot.due then
            some (schedule, { w with pc := .returned }, [.claimed slot])
          else some (schedule, { w with pc := .waiting freeAt slot }, [.claimed slot])
      | _ => none
  | .sleepUntil due _ =>
      match w.pc with
      | .waiting freeAt slot =>
          if due = slot.due then some (schedule, { w with pc := .awake freeAt slot }, []) else none
      | _ => none
  | .perform reply =>
      match w.pc, w.socket, perform reply with
      | .sending freeAt slot sending, some socket, some result =>
          let sent : Sent := ⟨slot, freeAt, sending, socket, result⟩
          some (schedule, finishTurn window w sent, [.exchanged sent])
      | _, _, _ => none

/-! ## What a step can do -/

/-- The transitions of a worker, with the call that takes each of them. -/
inductive Turn (fl : Rounding) (perform : Reply → Option Exchange) (window : RunWindow)
    (schedule : Schedule) (w : OpenLoopWorker) :
    Call Reply → Schedule → OpenLoopWorker → List Event → Prop
  /-- The run is over at the top of a turn. -/
  | ended (now : Instant) (hpc : w.pc = .top) :
      Turn fl perform window schedule w (.now now) schedule { w with pc := .returned } []
  /-- The next turn begins, with a connect or without. -/
  | turn (now : Instant) (pc : Pc) (hpc : w.pc = .top) (hnext : pc = .connecting ∨ pc = .ready) :
      Turn fl perform window schedule w (.now now) schedule { w with pc := pc } []
  | connected (hpc : w.pc = .connecting) :
      Turn fl perform window schedule w (.connect .connected) schedule
        { w with
          socket := some ⟨w.sockets, true⟩
          sockets := w.sockets + 1
          connectionsOpened := w.connectionsOpened + 1
          pc := .ready } []
  | timeoutsFailed (hpc : w.pc = .connecting) :
      Turn fl perform window schedule w (.connect .timeoutsFailed) schedule
        { w with socket := some ⟨w.sockets, false⟩, sockets := w.sockets + 1, pc := .refused } []
  | refused (hpc : w.pc = .connecting) :
      Turn fl perform window schedule w (.connect .refused) schedule { w with pc := .refused } []
  | connectFailed (now : Instant) (hpc : w.pc = .refused) :
      Turn fl perform window schedule w (.now now) schedule
        { w with
          tally := if window.recordFrom ≤ now then w.tally.connectFailed else w.tally
          pc := .backoff } [.connectFailed now]
  | slept (hpc : w.pc = .backoff) :
      Turn fl perform window schedule w .sleepFor schedule { w with pc := .top } []
  | free (freeAt : Instant) (hpc : w.pc = .ready) :
      Turn fl perform window schedule w (.now freeAt) schedule { w with pc := .claiming freeAt } []
  /-- The claimed slot lies past the end of the run. -/
  | claimedLate (freeAt : Instant) (hpc : w.pc = .claiming freeAt)
      (hdue : window.deadline ≤ (schedule.slot fl schedule.next).due) :
      Turn fl perform window schedule w .claim { schedule with next := schedule.next + 1 }
        { w with pc := .returned } [.claimed (schedule.slot fl schedule.next)]
  | claimed (freeAt : Instant) (hpc : w.pc = .claiming freeAt)
      (hdue : ¬window.deadline ≤ (schedule.slot fl schedule.next).due) :
      Turn fl perform window schedule w .claim { schedule with next := schedule.next + 1 }
        { w with pc := .waiting freeAt (schedule.slot fl schedule.next) }
        [.claimed (schedule.slot fl schedule.next)]
  | woke (freeAt : Instant) (slot : Slot) (woke : Instant) (hpc : w.pc = .waiting freeAt slot) :
      Turn fl perform window schedule w (.sleepUntil slot.due woke) schedule
        { w with pc := .awake freeAt slot } []
  | sending (freeAt : Instant) (slot : Slot) (sending : Instant)
      (hpc : w.pc = .awake freeAt slot) :
      Turn fl perform window schedule w (.now sending) schedule
        { w with pc := .sending freeAt slot sending } []
  | exchanged (reply : Reply) (sent : Sent)
      (hpc : w.pc = .sending sent.freeAt sent.slot sent.sending)
      (hsocket : w.socket = some sent.socket) (hreply : perform reply = some sent.result) :
      Turn fl perform window schedule w (.perform reply) schedule (finishTurn window w sent)
        [.exchanged sent]

variable {fl perform window} {schedule schedule' : Schedule} {w w' : OpenLoopWorker}
  {call : Call Reply} {out : List Event}

theorem step_turn (h : step fl perform window schedule w call = some (schedule', w', out)) :
    Turn fl perform window schedule w call schedule' w' out := by
  cases call with
  | now instant =>
    simp only [step] at h
    split at h
    · next hpc =>
      split at h
      · cases h; exact .ended instant hpc
      · split at h
        · cases h; exact .turn instant .connecting hpc (.inl rfl)
        · cases h; exact .turn instant .ready hpc (.inr rfl)
    · next hpc => cases h; exact .connectFailed instant hpc
    · next hpc => cases h; exact .free instant hpc
    · next freeAt slot hpc => cases h; exact .sending freeAt slot instant hpc
    · cases h
  | connect answer =>
    simp only [step] at h
    split at h
    · next hpc => cases h; exact .connected hpc
    · next hpc => cases h; exact .timeoutsFailed hpc
    · next hpc => cases h; exact .refused hpc
    · cases h
  | sleepFor =>
    simp only [step] at h
    split at h
    · next hpc => cases h; exact .slept hpc
    · cases h
  | claim =>
    simp only [step] at h
    split at h
    · next freeAt hpc =>
      split at h
      · next hdue => cases h; exact .claimedLate freeAt hpc hdue
      · next hdue => cases h; exact .claimed freeAt hpc hdue
    · cases h
  | sleepUntil due woke =>
    simp only [step] at h
    split at h
    · next freeAt slot hpc =>
      split at h
      · next hdue => cases h; subst hdue; exact .woke freeAt slot woke hpc
      · cases h
    · cases h
  | perform reply =>
    simp only [step] at h
    split at h
    · next freeAt slot sending socket result hpc hsocket hreply =>
      cases h
      exact .exchanged reply ⟨slot, freeAt, sending, socket, result⟩ hpc hsocket hreply
    · cases h

/-! ## What holds between two steps -/

/-- The invariant of a worker and its past. -/
structure Invariant (perform : Reply → Option Exchange) (window : RunWindow)
    (w : OpenLoopWorker) (past : List Event) : Prop where
  /-- The tally is the one of the measured attempts. -/
  tally : w.tally = .ofAttempts (past.filterMap (Event.attempt window))
  /-- The three lags of every measured slot, and nothing else. -/
  lag : w.lag = .recordAll ((past.filterMap (Event.measured window)).map Sent.late)
  connectionWait :
    w.connectionWait = .recordAll ((past.filterMap (Event.measured window)).map Sent.waited)
  rigLag :
    w.rigLag = .recordAll ((past.filterMap (Event.measured window)).map Sent.rig)
  /-- The exchanges respect the socket discipline. -/
  discipline : SocketDiscipline w.socket w.sockets (past.filterMap Event.carried)
  /-- Every exchange is one that `perform_request` returned. -/
  performed : ∀ c ∈ past.filterMap Event.carried, ∃ reply, perform reply = some c.2

namespace Invariant

variable {past : List Event}

/-- A new worker has no past. -/
theorem start : Invariant perform window {} [] where
  tally := rfl
  lag := rfl
  connectionWait := rfl
  rigLag := rfl
  discipline := .start
  performed := by simp

/-- The position in the loop is not part of the accounting. -/
theorem goto (hinv : Invariant perform window w past) (pc : Pc) :
    Invariant perform window { w with pc := pc } (past ++ []) := by
  rw [List.append_nil]
  exact { hinv with }

/-- Neither is a socket that has carried nothing. -/
theorem opened (hinv : Invariant perform window w past) (timeoutsSet : Bool) (opened : ℕ)
    (pc : Pc) :
    Invariant perform window
      { w with
        socket := some ⟨w.sockets, timeoutsSet⟩
        sockets := w.sockets + 1
        connectionsOpened := opened
        pc := pc } (past ++ []) := by
  rw [List.append_nil]
  exact { hinv with discipline := hinv.discipline.connect timeoutsSet }

/-- An event that is no exchange has no lag and carries nothing; it may be an attempt. -/
theorem unmeasured (hinv : Invariant perform window w past) {event : Event} {tally : Tally}
    (pc : Pc)
    (htally : tally = .ofAttempts ((past ++ [event]).filterMap (Event.attempt window)))
    (hmeasured : Event.measured window event = none) (hcarried : Event.carried event = none) :
    Invariant perform window { w with tally := tally, pc := pc } (past ++ [event]) := by
  have hlags : (past ++ [event]).filterMap (Event.measured window) =
      past.filterMap (Event.measured window) := by
    simp [List.filterMap_append, hmeasured]
  have hexchanges : (past ++ [event]).filterMap Event.carried = past.filterMap Event.carried := by
    simp [List.filterMap_append, hcarried]
  constructor
  · exact htally
  · rw [hlags, hinv.lag]
  · rw [hlags, hinv.connectionWait]
  · rw [hlags, hinv.rigLag]
  · rw [hexchanges]
    exact hinv.discipline
  · rw [hexchanges]
    exact hinv.performed

/-- A claim is not an attempt yet. -/
theorem claimed (hinv : Invariant perform window w past) (pc : Pc) (slot : Slot) :
    Invariant perform window { w with pc := pc } (past ++ [.claimed slot]) := by
  refine hinv.unmeasured pc ?_ rfl rfl
  rw [List.filterMap_append, hinv.tally]
  exact congrArg Tally.ofAttempts (List.append_nil _).symm

/-- A failed connect is booked if it was measured. -/
theorem connectFailed (hinv : Invariant perform window w past) (now : Instant) :
    Invariant perform window
      { w with
        tally := if window.recordFrom ≤ now then w.tally.connectFailed else w.tally
        pc := .backoff } (past ++ [.connectFailed now]) := by
  refine hinv.unmeasured .backoff ?_ rfl rfl
  rw [List.filterMap_append, hinv.tally]
  by_cases hmeasuring : window.recordFrom ≤ now
  · simp [Event.attempt, hmeasuring, Tally.book]
  · simp [Event.attempt, hmeasuring]

/-- A histogram of one part of the lag after one more exchange. -/
theorem recordAll_measured (part : Sent → Nanos) (past : List Event) (sent : Sent) :
    Histogram.recordAll
        (((past ++ [Event.exchanged sent]).filterMap (Event.measured window)).map part) =
      if window.recordFrom ≤ sent.slot.due then
        (Histogram.recordAll ((past.filterMap (Event.measured window)).map part)).record (part sent)
      else Histogram.recordAll ((past.filterMap (Event.measured window)).map part) := by
  by_cases hmeasuring : window.recordFrom ≤ sent.slot.due
  · simp [Event.measured, hmeasuring, Histogram.recordAll_append_singleton]
  · simp [Event.measured, hmeasuring]

/-- A finished exchange is booked with its lags if it was measured, on the socket in hand. -/
theorem exchanged (hinv : Invariant perform window w past) {sent : Sent}
    (hsocket : w.socket = some sent.socket) (hresult : ∃ reply, perform reply = some sent.result) :
    Invariant perform window (w.finishTurn window sent) (past ++ [.exchanged sent]) := by
  have hdiscipline := hinv.discipline
  rw [hsocket] at hdiscipline
  constructor
  · rw [List.filterMap_append]
    unfold finishTurn
    by_cases hmeasuring : window.recordFrom ≤ sent.slot.due
    · simp [Event.attempt, hmeasuring, hinv.tally, Tally.book]
    · simp [Event.attempt, hmeasuring, hinv.tally]
  -- the three lags are recorded together, each with its own part
  · rw [recordAll_measured, ← hinv.lag]
    unfold finishTurn
    split <;> rfl
  · rw [recordAll_measured, ← hinv.connectionWait]
    unfold finishTurn
    split <;> rfl
  · rw [recordAll_measured, ← hinv.rigLag]
    unfold finishTurn
    split <;> rfl
  · rw [List.filterMap_append]
    unfold finishTurn
    -- the socket and the count of sockets do not depend on what is measured
    split <;> exact hdiscipline.carry sent.result
  · rw [List.filterMap_append]
    exact exists_reply_append hinv.performed hresult

end Invariant

/-- Every step of a worker keeps its invariant. -/
theorem worker_invariant {past : List Event} (hinv : Invariant perform window w past)
    (h : step fl perform window schedule w call = some (schedule', w', out)) :
    Invariant perform window w' (past ++ out) := by
  cases step_turn h with
  | ended => exact hinv.goto _
  | turn => exact hinv.goto _
  | connected => exact hinv.opened true _ _
  | timeoutsFailed => exact hinv.opened false _ _
  | refused => exact hinv.goto _
  | connectFailed now => exact hinv.connectFailed now
  | slept => exact hinv.goto _
  | free => exact hinv.goto _
  | claimedLate => exact hinv.claimed _ _
  | claimed => exact hinv.claimed _ _
  | woke => exact hinv.goto _
  | sending => exact hinv.goto _
  | exchanged reply sent hpc hsocket hreply => exact hinv.exchanged hsocket ⟨reply, hreply⟩

end OpenLoopWorker

/-! ## The run -/

/-- `OpenLoopPlan`, as far as the loop reads it. -/
structure OpenLoopPlan where
  rate : Rate := .thousand
  connections : ℕ := 1
  duration : Millis := 10_000
  warmup : Millis := 0

/-- `record_from` and `deadline`. -/
def OpenLoopPlan.window (plan : OpenLoopPlan) (started : Instant) : RunWindow where
  recordFrom := started + plan.warmup.toNanos
  deadline := started + plan.warmup.toNanos + plan.duration.toNanos

/-- One open-loop run. -/
structure OpenLoopRun where
  result : RunResult
  histogram : Histogram
  connectionsRequested : ℕ
  connectionsStarted : ℕ
  connectionsOpened : ℕ
  clockResolution : Nanos
  scheduleLag : Histogram
  connectionWait : Histogram
  rigLag : Histogram
  slotsClaimed : ℕ
  slotsDue : ℕ
  rate : Rate

namespace OpenLoopRun

/-- `OpenLoopRun::kept_up`. -/
def keptUp (fl : Rounding) (run : OpenLoopRun) : Bool :=
  if run.rigLag.count = 0 then true
  else
    match run.rigLag.percentile fl 50 with
    | some median => decide (median < run.rate.interval fl * 10)
    | none => false

/-- `OpenLoopRun::connections_saturated`. -/
def connectionsSaturated (fl : Rounding) (run : OpenLoopRun) : Bool :=
  if run.connectionWait.count = 0 then false
  else
    match run.connectionWait.percentile fl 50 with
    | some median => decide (run.rate.interval fl * 10 ≤ median)
    | none => false

end OpenLoopRun

namespace OpenLoop

/-- The state of a run: the shared schedule and the workers. -/
abbrev State (Reply : Type*) : Type _ :=
  Interleaving.Config Schedule OpenLoopWorker (Call Reply) OpenLoopWorker.Event

/-- A run with `threads` workers started, none of which has moved. The schedule starts at the
warm-up boundary. -/
def spawn (Reply : Type*) (plan : OpenLoopPlan) (started : Instant) (threads : ℕ) : State Reply :=
  .init { rate := plan.rate, start := (plan.window started).recordFrom } {} threads

/-- The merge loop after the join. -/
def collect {Reply : Type*} (fl : Rounding) (plan : OpenLoopPlan) (resolution : Nanos)
    (state : State Reply) : OpenLoopRun :=
  let workers := state.threads.map (·.state)
  let merged := Tally.mergeAll (workers.map (·.tally))
  { result := merged.result fl plan.duration.toNanos
    histogram := merged.histogram
    connectionsRequested := plan.connections
    connectionsStarted := state.threads.length
    connectionsOpened := (workers.map (·.connectionsOpened)).sum
    clockResolution := resolution
    scheduleLag := .mergeAll (workers.map (·.lag))
    connectionWait := .mergeAll (workers.map (·.connectionWait))
    rigLag := .mergeAll (workers.map (·.rigLag))
    slotsClaimed := state.shared.claimed
    slotsDue := ⌊fl (fl (plan.rate.rps * fl plan.duration) / 1000)⌋₊
    rate := plan.rate }

variable {Reply : Type*} {fl : Rounding} {perform : Reply → Option Exchange} {plan : OpenLoopPlan}
  {started : Instant} {threads : ℕ} {schedule : List (ℕ × Call Reply)} {state : State Reply}

/-- Every worker of every run keeps its invariant, whatever the others do. -/
theorem run_worker_invariant
    (hrun : (spawn Reply plan started threads).run
      (OpenLoopWorker.step fl perform (plan.window started)) schedule = some state) :
    ∀ t ∈ state.threads,
      OpenLoopWorker.Invariant perform (plan.window started) t.state t.past := by
  refine Interleaving.run_local_invariant
    (I := fun w _ past => OpenLoopWorker.Invariant perform (plan.window started) w past)
    ?_ .start hrun
  intro schedule w labels past call schedule' w' out hinv hstep
  exact OpenLoopWorker.worker_invariant hinv hstep

/-- The measured attempts of all workers. -/
def attempts (window : RunWindow) (state : State Reply) : List Attempt :=
  state.threads.flatMap fun t => t.past.filterMap (OpenLoopWorker.Event.attempt window)

/-- The merged tally counts the attempts of all workers. -/
theorem counts_attempts
    (hrun : (spawn Reply plan started threads).run
      (OpenLoopWorker.step fl perform (plan.window started)) schedule = some state) :
    (Tally.mergeAll ((state.threads.map (·.state)).map (·.tally))).Counts
      (attempts (plan.window started) state) := by
  rw [List.map_map]
  exact Tally.counts_mergeAll fun t ht => (run_worker_invariant hrun t ht).tally

/-- The merged report accounts for the attempts of all workers. -/
theorem collect_accounted
    (hrun : (spawn Reply plan started threads).run
      (OpenLoopWorker.step fl perform (plan.window started)) schedule = some state)
    (resolution : Nanos) :
    Accounted (collect fl plan resolution state).result (collect fl plan resolution state).histogram
      ((attempts (plan.window started) state).countP (Attempt.ended .succeeded)) :=
  (counts_attempts hrun).accounted fl _

end OpenLoop

end Dariyanaap

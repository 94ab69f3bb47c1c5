import Dariyanaap.Load.PerSecond
import Dariyanaap.Load.Runs

/-!
# What warm-up means

An attempt counts if it started at or after `record_from`. When an attempt started is read off
the calls of a worker: a failed connect and a closed-loop request start at the reading of their
turn, an open-loop request at the due time of its slot. The loops decide by a reading of their
own, which is the same one in all cases but one: the open loop's handler of a failed connect
reads the clock again. So the closed loop counts exactly the attempts that started in the window,
and the open loop does exactly when no failed connect of the warm-up is handled after it
(`warm_up_iff`).
-/

namespace Dariyanaap

/-! ## When attempts start -/

/-- An attempt, with the reading it started at and the one its worker decided by. -/
structure Begun where
  start : Instant
  judged : Instant
  attempt : Attempt

/-- What the calls of a worker say about its attempts. -/
structure Journal where
  /-- The last reading of the clock. -/
  reading : Instant := 0
  /-- The due time of the slot in hand. -/
  due : Instant := 0
  /-- The reading of a turn whose connect has failed and is not decided on yet. -/
  failed : Option Instant := none
  begun : List Begun := []

/-- The attempts that started in the window. -/
def startedIn (window : RunWindow) (begun : List Begun) : List Attempt :=
  (begun.filter fun b => decide (window.recordFrom ≤ b.start)).map Begun.attempt

/-- The attempts that were decided to be in the window. -/
def judgedIn (window : RunWindow) (begun : List Begun) : List Attempt :=
  (begun.filter fun b => decide (window.recordFrom ≤ b.judged)).map Begun.attempt

/-- The attempt started in the warm-up and was decided on after it. -/
def Begun.Straddles (window : RunWindow) (b : Begun) : Prop :=
  b.start < window.recordFrom ∧ window.recordFrom ≤ b.judged

/-- One attempt more in `ys` makes it longer. -/
theorem length_startedIn_lt {window : RunWindow} {begun : List Begun} {b : Begun}
    (hordered : ∀ c ∈ begun, c.start ≤ c.judged) (hb : b ∈ begun)
    (hstraddles : b.Straddles window) :
    (startedIn window begun).length < (judgedIn window begun).length := by
  obtain ⟨before, after, rfl⟩ := List.append_of_mem hb
  -- on either side of `b` the deciding readings admit at least what the starts admit
  have hle : ∀ part : List Begun, (∀ c ∈ part, c.start ≤ c.judged) →
      (part.filter fun c => decide (window.recordFrom ≤ c.start)).length ≤
        (part.filter fun c => decide (window.recordFrom ≤ c.judged)).length := by
    intro part hpart
    rw [← List.countP_eq_length_filter, ← List.countP_eq_length_filter]
    refine List.countP_mono_left fun c hc hstart => ?_
    rw [decide_eq_true_eq] at hstart ⊢
    exact hstart.trans (hpart c hc)
  have hbefore := hle before fun c hc => hordered c (List.mem_append_left _ hc)
  have hafter := hle after fun c hc =>
    hordered c (List.mem_append_right _ (List.mem_cons_of_mem _ hc))
  obtain ⟨hearly, hlate⟩ := hstraddles
  rw [startedIn, judgedIn, List.length_map, List.length_map, List.filter_append,
    List.filter_append, List.length_append, List.length_append,
    List.filter_cons_of_neg (by simpa using hearly), List.filter_cons_of_pos (by simpa using hlate),
    List.length_cons]
  omega

/-- Counting by the deciding reading is counting by the start exactly when no attempt lies
across the boundary. -/
theorem ofAttempts_judged_iff {window : RunWindow} {begun : List Begun}
    (hordered : ∀ b ∈ begun, b.start ≤ b.judged) :
    Tally.ofAttempts (judgedIn window begun) = Tally.ofAttempts (startedIn window begun) ↔
      ∀ b ∈ begun, ¬b.Straddles window := by
  constructor
  · intro htally b hb hstraddles
    have hlength := congrArg Tally.attempted htally
    rw [(Tally.counts_ofAttempts _).attempted, (Tally.counts_ofAttempts _).attempted] at hlength
    exact (length_startedIn_lt hordered hb hstraddles).ne hlength.symm
  · intro hnone
    have hsame : judgedIn window begun = startedIn window begun := by
      rw [judgedIn, startedIn]
      congr 1
      refine List.filter_congr fun b hb => decide_eq_decide.mpr ?_
      refine ⟨fun hjudged => ?_, fun hstart => ?_⟩
      · by_contra hearly
        exact hnone b hb ⟨not_le.mp hearly, hjudged⟩
      · exact hstart.trans (hordered b hb)
    rw [hsame]

variable {Reply : Type*} (perform : Reply → Option Exchange)

namespace ConnectionWorker

/-- One call of a closed-loop worker: every attempt starts at the last reading of the clock. -/
def note (journal : Journal) : Call Reply → Journal
  | .now now => { journal with reading := now }
  | .connect .connected => journal
  | .connect _ =>
      { journal with
        begun := journal.begun ++ [⟨journal.reading, journal.reading, .connectFailed⟩] }
  | .perform reply =>
      match perform reply with
      | some result =>
          { journal with
            begun := journal.begun ++
              [⟨journal.reading, journal.reading, .exchanged result.outcome result.elapsed⟩] }
      | none => journal
  | .sleepFor | .sleepUntil .. | .claim => journal

/-- All calls of a closed-loop worker. -/
def journal (labels : List (Call Reply)) : Journal := labels.foldl (note perform) {}

end ConnectionWorker

namespace OpenLoopWorker

/-- One call of an open-loop worker: a request starts when its slot is due, a connect at the
reading of its turn, and a failed one is decided on by the reading after it. -/
def note (journal : Journal) : Call Reply → Journal
  | .now now =>
      -- behind a failed connect this is the reading of its handler
      match journal.failed with
      | some turn =>
          { journal with
            reading := now
            failed := none
            begun := journal.begun ++ [⟨turn, now, .connectFailed⟩] }
      | none => { journal with reading := now }
  | .connect .connected => journal
  | .connect _ => { journal with failed := some journal.reading }
  | .sleepUntil due _ => { journal with due := due }
  | .perform reply =>
      match perform reply with
      | some result =>
          { journal with
            begun := journal.begun ++ [⟨journal.due, journal.due,
              .exchanged result.outcome (between journal.due journal.reading + result.elapsed)⟩] }
      | none => journal
  | .sleepFor | .claim => journal

/-- All calls of an open-loop worker. -/
def journal (labels : List (Call Reply)) : Journal := labels.foldl (note perform) {}

end OpenLoopWorker

variable {perform} {window : RunWindow} {labels : List (Call Reply)} {call : Call Reply}

/-! ## The closed loop -/

namespace ConnectionWorker

variable {series series' : TimeSeries} {w w' : ConnectionWorker} {past out : List Event}

@[simp]
theorem journal_append (labels : List (Call Reply)) (call : Call Reply) :
    journal perform (labels ++ [call]) = note perform (journal perform labels) call := by
  rw [journal, List.foldl_append]
  rfl

/-- The attempt of an event. -/
def Event.begun : Event → Begun
  | connectFailed now => ⟨now, now, .connectFailed⟩
  | exchanged now _ result => ⟨now, now, .exchanged result.outcome result.elapsed⟩

/-- The exchange whose turn is not over. -/
def Pc.pending : Pc → List Begun
  | .stamping now result => [⟨now, now, .exchanged result.outcome result.elapsed⟩]
  | _ => []

/-- The reading a turn began with is the last one. -/
def Pc.Reads (reading : Instant) : Pc → Prop
  | .connecting now | .sending now => reading = now
  | .top | .backoff | .stamping .. | .returned => True

/-- The past of a worker is what its calls say. -/
structure Recorded (perform : Reply → Option Exchange) (w : ConnectionWorker)
    (labels : List (Call Reply)) (past : List Event) : Prop where
  begun : (journal perform labels).begun = past.map Event.begun ++ w.pc.pending
  reads : w.pc.Reads (journal perform labels).reading

/-- A new worker has begun nothing. -/
theorem Recorded.make (perform : Reply → Option Exchange) (timeseries : Bool) :
    (ConnectionWorker.make timeseries).Recorded perform [] [] where
  begun := rfl
  reads := trivial

/-- A call that begins no attempt. -/
theorem Recorded.goto (h : w.Recorded perform labels past)
    (hbegun : (note perform (journal perform labels) call).begun = (journal perform labels).begun)
    (hpending : w'.pc.pending = w.pc.pending)
    (hreads : w'.pc.Reads (note perform (journal perform labels) call).reading) :
    w'.Recorded perform (labels ++ [call]) (past ++ []) := by
  refine ⟨?_, ?_⟩
  · rw [journal_append, hbegun, h.begun, List.append_nil, hpending]
  · rw [journal_append]
    exact hreads

/-- A call that ends an attempt. -/
theorem Recorded.attempt (h : w.Recorded perform labels past) (event : Event)
    (hbegun : (note perform (journal perform labels) call).begun =
      (journal perform labels).begun ++ [event.begun])
    (hpending : w.pc.pending = []) (hnext : w'.pc = .top ∨ w'.pc = .backoff) :
    w'.Recorded perform (labels ++ [call]) (past ++ [event]) := by
  refine ⟨?_, ?_⟩
  · have hnone : w'.pc.pending = [] := by
      rcases hnext with hpc | hpc
      · rw [hpc]
        rfl
      · rw [hpc]
        rfl
    rw [journal_append, hbegun, h.begun, hpending, hnone, List.map_append, List.append_nil,
      List.append_nil]
    rfl
  · rcases hnext with hpc | hpc
    · rw [hpc]
      trivial
    · rw [hpc]
      trivial

/-- An exchange begins its attempt at the last reading. -/
theorem note_perform {reply : Reply} {result : Exchange} (hreply : perform reply = some result)
    (journal : Journal) :
    note perform journal (.perform reply) =
      { journal with
        begun := journal.begun ++
          [⟨journal.reading, journal.reading, .exchanged result.outcome result.elapsed⟩] } := by
  rw [note, hreply]

/-- Every step of a worker is recorded. -/
theorem Recorded.step (h : w.Recorded perform labels past)
    (hstep : ConnectionWorker.step perform window series w call = some (series', w', out)) :
    w'.Recorded perform (labels ++ [call]) (past ++ out) := by
  have hreads := h.reads
  cases step_move hstep with
  | ended now hpc => exact h.goto rfl (by rw [hpc]; rfl) trivial
  | replace now hpc hsocket => exact h.goto rfl (by rw [hpc]; rfl) rfl
  | send now socket hpc => exact h.goto rfl (by rw [hpc]; rfl) rfl
  | connected now hpc =>
    rw [hpc] at hreads
    exact h.goto rfl (by rw [hpc]; rfl) hreads
  | timeoutsFailed now hpc =>
    rw [hpc] at hreads
    obtain rfl : (journal perform labels).reading = now := hreads
    exact h.attempt (.connectFailed _) rfl (by rw [hpc]; rfl) (.inr rfl)
  | refused now hpc =>
    rw [hpc] at hreads
    obtain rfl : (journal perform labels).reading = now := hreads
    exact h.attempt (.connectFailed _) rfl (by rw [hpc]; rfl) (.inr rfl)
  | slept hpc => exact h.goto rfl (by rw [hpc]; rfl) trivial
  | timed now reply socket writer result hpc hsocket hreply hmeasured hwriter htimed =>
    rw [hpc] at hreads
    obtain rfl : (journal perform labels).reading = now := hreads
    -- the attempt has begun, and its event follows with the reading of the series
    refine ⟨?_, trivial⟩
    rw [journal_append, note_perform hreply, List.append_nil]
    show (journal perform labels).begun ++ _ = _
    rw [h.begun, hpc]
    simp [Pc.pending]
  | untimed now reply socket result hpc hsocket hreply huntimed =>
    rw [hpc] at hreads
    obtain rfl : (journal perform labels).reading = now := hreads
    refine h.attempt (.exchanged _ socket result) ?_ (by rw [hpc]; rfl) (.inl rfl)
    rw [note_perform hreply]
    rfl
  | stamped now finished socket writer result hpc hsocket hwriter =>
    refine ⟨?_, trivial⟩
    rw [journal_append, List.map_append]
    show (journal perform labels).begun = _
    rw [h.begun, hpc]
    simp [Pc.pending, Event.begun, finishTurn]

/-- The measured attempts in the past are the attempts that started in the window. -/
theorem filterMap_attempt (window : RunWindow) (past : List Event) :
    past.filterMap (Event.attempt window) = startedIn window (past.map Event.begun) := by
  induction past with
  | nil => rfl
  | cons event past ih =>
    rw [startedIn] at ih ⊢
    rcases event with now | ⟨now, socket, result⟩
    · by_cases hmeasured : window.recordFrom ≤ now
      · simp [Event.attempt, Event.begun, hmeasured, ih]
      · simp [Event.attempt, Event.begun, hmeasured, ih]
    · by_cases hmeasured : window.recordFrom ≤ now
      · simp [Event.attempt, Event.begun, hmeasured, ih]
      · simp [Event.attempt, Event.begun, hmeasured, ih]

end ConnectionWorker

/-! ## The open loop -/

namespace OpenLoopWorker

variable {fl : Rounding} {schedule schedule' : Schedule} {w w' : OpenLoopWorker}
  {past out : List Event} {during : Reply → List Instant}

@[simp]
theorem journal_append (labels : List (Call Reply)) (call : Call Reply) :
    journal perform (labels ++ [call]) = note perform (journal perform labels) call := by
  rw [journal, List.foldl_append]
  rfl

/-- The clock readings of some calls, in order, given those of an exchange. -/
def clockReadings (during : Reply → List Instant) (labels : List (Call Reply)) : List Instant :=
  labels.flatMap (Call.instants during)

@[simp]
theorem clockReadings_append (labels : List (Call Reply)) (call : Call Reply) :
    clockReadings during (labels ++ [call]) =
      clockReadings during labels ++ call.instants during := by
  simp [clockReadings]

/-- The reading an attempt was decided by, and the attempt. -/
def Event.judgement : Event → Option (Instant × Attempt)
  | connectFailed now => some (now, .connectFailed)
  | claimed _ => none
  | exchanged sent => some (sent.slot.due, .exchanged sent.result.outcome sent.fromDue)

/-- The position in the loop agrees with the calls so far. -/
def Pc.Agrees (readings : List Instant) (journal : Journal) : Pc → Prop
  | .connecting => journal.failed = none ∧ journal.reading ∈ readings
  | .refused => ∃ turn ∈ readings, journal.failed = some turn
  | .awake _ slot => journal.failed = none ∧ journal.due = slot.due
  | .sending _ slot now =>
      journal.failed = none ∧ journal.due = slot.due ∧ journal.reading = now
  | .top | .backoff | .ready | .claiming _ | .waiting .. | .returned => journal.failed = none

/-- The past of a worker is what its calls say. -/
structure Recorded (perform : Reply → Option Exchange) (during : Reply → List Instant)
    (w : OpenLoopWorker) (labels : List (Call Reply)) (past : List Event) : Prop where
  judged : ((journal perform labels).begun.map fun b => (b.judged, b.attempt)) =
    past.filterMap Event.judgement
  agrees : w.pc.Agrees (clockReadings during labels) (journal perform labels)
  /-- Under a clock that never goes back no attempt is decided on before it starts. -/
  ordered : (clockReadings during labels).Pairwise (· ≤ ·) →
    ∀ b ∈ (journal perform labels).begun, b.start ≤ b.judged

/-- A new worker has begun nothing. -/
theorem Recorded.start (perform : Reply → Option Exchange) (during : Reply → List Instant) :
    Recorded perform during {} [] [] where
  judged := rfl
  agrees := rfl
  ordered _ := List.forall_mem_nil _

/-- A call that ends no attempt. -/
theorem Recorded.goto (h : w.Recorded perform during labels past)
    (hbegun : (note perform (journal perform labels) call).begun = (journal perform labels).begun)
    (hout : out.filterMap Event.judgement = [])
    (hagrees : w'.pc.Agrees (clockReadings during (labels ++ [call]))
      (note perform (journal perform labels) call)) :
    w'.Recorded perform during (labels ++ [call]) (past ++ out) := by
  refine ⟨?_, ?_, fun hclock => ?_⟩
  · rw [journal_append, hbegun, h.judged, List.filterMap_append, hout, List.append_nil]
  · rw [journal_append]
    exact hagrees
  · rw [clockReadings_append, List.pairwise_append] at hclock
    rw [journal_append, hbegun]
    exact h.ordered hclock.1

/-- A call that ends an attempt. -/
theorem Recorded.attempt (h : w.Recorded perform during labels past) {b : Begun} {event : Event}
    (hbegun : (note perform (journal perform labels) call).begun =
      (journal perform labels).begun ++ [b])
    (hevent : event.judgement = some (b.judged, b.attempt))
    (hordered : (clockReadings during (labels ++ [call])).Pairwise (· ≤ ·) → b.start ≤ b.judged)
    (hfailed : (note perform (journal perform labels) call).failed = none)
    (hnext : w'.pc = .top ∨ w'.pc = .backoff) :
    w'.Recorded perform during (labels ++ [call]) (past ++ [event]) := by
  refine ⟨?_, ?_, fun hclock => ?_⟩
  · rw [journal_append, hbegun, List.map_append, h.judged, List.filterMap_append,
      List.filterMap_cons_some hevent]
    rfl
  · rw [journal_append]
    rcases hnext with hpc | hpc
    · rw [hpc]
      exact hfailed
    · rw [hpc]
      exact hfailed
  · rw [journal_append, hbegun]
    have hbefore := hclock
    rw [clockReadings_append, List.pairwise_append] at hbefore
    intro c hc
    rcases List.mem_append.mp hc with hc | hc
    · exact h.ordered hbefore.1 c hc
    · rw [List.mem_singleton.mp hc]
      exact hordered hclock

/-- A reading that decides nothing only moves the clock. -/
theorem note_now (perform : Reply → Option Exchange) {journal : Journal}
    (hfailed : journal.failed = none) (now : Instant) :
    note perform journal (.now now) = ⟨now, journal.due, none, journal.begun⟩ := by
  rw [note]
  split
  · next turn hturn =>
    rw [hfailed] at hturn
    cases hturn
  · rw [← hfailed]

/-- A clock reading outside the handler of a failed connect ends no attempt. -/
theorem Recorded.reading (h : w.Recorded perform during labels past) (now : Instant)
    (hfailed : (journal perform labels).failed = none)
    (hagrees : w'.pc.Agrees (clockReadings during labels ++ [now])
      ⟨now, (journal perform labels).due, none, (journal perform labels).begun⟩) :
    w'.Recorded perform during (labels ++ [.now now]) (past ++ []) := by
  have hnow := note_now perform hfailed now
  refine h.goto ?_ rfl ?_
  · rw [hnow]
  · rw [hnow, clockReadings_append]
    exact hagrees

/-- A connect that fails leaves its attempt to the next reading. -/
theorem Recorded.undecided (h : w.Recorded perform during labels past)
    (hreading : (journal perform labels).reading ∈ clockReadings during labels)
    (hnote : note perform (journal perform labels) call =
      { journal perform labels with failed := some (journal perform labels).reading })
    (hpc : w'.pc = .refused) :
    w'.Recorded perform during (labels ++ [call]) (past ++ []) := by
  refine h.goto ?_ rfl ?_
  · rw [hnote]
  · rw [hpc, hnote, clockReadings_append]
    exact ⟨_, List.mem_append_left _ hreading, rfl⟩

/-- A request begins its attempt when its slot is due. -/
theorem note_perform {reply : Reply} {result : Exchange} (hreply : perform reply = some result)
    (journal : Journal) :
    note perform journal (.perform reply) =
      { journal with
        begun := journal.begun ++ [⟨journal.due, journal.due,
          .exchanged result.outcome (between journal.due journal.reading + result.elapsed)⟩] } := by
  rw [note, hreply]

/-- Every step of a worker is recorded. -/
theorem Recorded.step (h : w.Recorded perform during labels past)
    (hstep : OpenLoopWorker.step fl perform window schedule w call = some (schedule', w', out)) :
    w'.Recorded perform during (labels ++ [call]) (past ++ out) := by
  have hagrees := h.agrees
  cases step_turn hstep with
  | ended now hpc =>
    rw [hpc] at hagrees
    exact h.reading now hagrees rfl
  | turn now pc hpc hnext =>
    rw [hpc] at hagrees
    refine h.reading now hagrees ?_
    -- with a connect to make, or with a socket
    rcases hnext with rfl | rfl
    · exact ⟨rfl, List.mem_append_right _ List.mem_cons_self⟩
    · rfl
  | connected hpc =>
    rw [hpc] at hagrees
    exact h.goto rfl rfl hagrees.1
  | timeoutsFailed hpc =>
    rw [hpc] at hagrees
    exact h.undecided hagrees.2 rfl rfl
  | refused hpc =>
    rw [hpc] at hagrees
    exact h.undecided hagrees.2 rfl rfl
  | connectFailed now hpc =>
    rw [hpc] at hagrees
    obtain ⟨turn, hturn, hfailed⟩ := hagrees
    have hnote : note perform (journal perform labels) (.now now) =
        ⟨now, (journal perform labels).due, none,
          (journal perform labels).begun ++ [⟨turn, now, .connectFailed⟩]⟩ := by
      rw [note, hfailed]
    refine h.attempt (by rw [hnote]) rfl (fun hclock => ?_) (by rw [hnote]) (.inr rfl)
    -- the handler's reading is a later one than the turn's
    rw [clockReadings_append, List.pairwise_append] at hclock
    exact hclock.2.2 turn hturn now List.mem_cons_self
  | slept hpc =>
    rw [hpc] at hagrees
    exact h.goto rfl rfl hagrees
  | free freeAt hpc =>
    rw [hpc] at hagrees
    exact h.reading freeAt hagrees rfl
  | claimedLate freeAt hpc =>
    rw [hpc] at hagrees
    exact h.goto rfl rfl hagrees
  | claimed freeAt hpc =>
    rw [hpc] at hagrees
    exact h.goto rfl rfl hagrees
  | woke freeAt slot woke hpc =>
    rw [hpc] at hagrees
    exact h.goto rfl rfl ⟨hagrees, rfl⟩
  | sending freeAt slot sending hpc =>
    rw [hpc] at hagrees
    exact h.reading sending hagrees.1 ⟨rfl, hagrees.2, rfl⟩
  | exchanged reply sent hpc hsocket hreply =>
    rw [hpc] at hagrees
    obtain ⟨hfailed, hdue, hreading⟩ := hagrees
    -- a request is decided on by its due time, which is when it started
    have hnote := note_perform hreply (journal perform labels)
    rw [hdue, hreading] at hnote
    exact h.attempt (by rw [hnote]) rfl (fun _ => le_rfl) (by rw [hnote]; exact hfailed)
      (.inl (finishTurn_pc window w sent))

/-- An event is measured if its attempt was decided to be in the window. -/
theorem attempt_eq (window : RunWindow) (event : Event) :
    event.attempt window =
      event.judgement.bind fun j => if window.recordFrom ≤ j.1 then some j.2 else none := by
  rcases event with now | slot | sent
  · rfl
  · rfl
  · rfl

/-- The measured attempts in the past are those decided to be in the window. -/
theorem Recorded.filterMap_attempt (h : w.Recorded perform during labels past)
    (window : RunWindow) :
    past.filterMap (Event.attempt window) = judgedIn window (journal perform labels).begun := by
  -- read what decides each event first, then compare it with the window
  have hattempts : past.filterMap (Event.attempt window) =
      (past.filterMap Event.judgement).filterMap
        fun j => if window.recordFrom ≤ j.1 then some j.2 else none := by
    rw [List.filterMap_filterMap]
    exact List.filterMap_congr fun event _ => attempt_eq window event
  rw [hattempts, ← h.judged, List.filterMap_map, judgedIn, ← List.filterMap_eq_map,
    ← List.filterMap_eq_filter, List.filterMap_filterMap]
  refine List.filterMap_congr fun b _ => ?_
  by_cases hjudged : window.recordFrom ≤ b.judged
  · simp [hjudged]
  · simp [hjudged, Option.guard]

/-- What is measured of a slot is decided by when it was due. -/
theorem filterMap_measured (window : RunWindow) (past : List Event) :
    past.filterMap (Event.measured window) =
      (past.filterMap Event.sent).filter
        fun sent => decide (window.recordFrom ≤ sent.slot.due) := by
  rw [← List.filterMap_eq_filter, List.filterMap_filterMap]
  refine List.filterMap_congr fun event _ => ?_
  rcases event with now | slot | sent
  · rfl
  · rfl
  · by_cases hmeasured : window.recordFrom ≤ sent.slot.due
    · simp [Event.measured, Event.sent, hmeasured]
    · simp [Event.measured, Event.sent, hmeasured, Option.guard]

end OpenLoopWorker

/-! ## Every run -/

section Runs

variable {started : Instant} {threads : ℕ} {schedule : List (ℕ × Call Reply)}

/-- Every worker of a closed-loop run is recorded. -/
theorem ClosedLoop.run_recorded {plan : ClosedLoopPlan} {state : ClosedLoop.State Reply}
    (hrun : (ClosedLoop.spawn Reply plan started threads).run
      (ConnectionWorker.step perform (plan.window started)) schedule = some state) :
    ∀ t ∈ state.threads, t.state.Recorded perform t.labels t.past := by
  refine Interleaving.run_local_invariant
    (I := fun w labels past => ConnectionWorker.Recorded perform w labels past) ?_
    (.make perform plan.timeseries) hrun
  intro series w labels past call series' w' out hrecorded hstep
  exact hrecorded.step hstep

/-- Every worker of an open-loop run is recorded. -/
theorem OpenLoop.run_recorded {fl : Rounding} {plan : OpenLoopPlan} {state : OpenLoop.State Reply}
    (during : Reply → List Instant)
    (hrun : (OpenLoop.spawn Reply plan started threads).run
      (OpenLoopWorker.step fl perform (plan.window started)) schedule = some state) :
    ∀ t ∈ state.threads, t.state.Recorded perform during t.labels t.past := by
  refine Interleaving.run_local_invariant
    (I := fun w labels past => OpenLoopWorker.Recorded perform during w labels past) ?_
    (.start perform during) hrun
  intro schedule w labels past call schedule' w' out hrecorded hstep
  exact hrecorded.step hstep

/-- Between the attempts of a closed-loop worker its tally is the one of those that started in
the window. -/
theorem ClosedLoop.tally_started {plan : ClosedLoopPlan} {state : ClosedLoop.State Reply}
    (hrun : (ClosedLoop.spawn Reply plan started threads).run
      (ConnectionWorker.step perform (plan.window started)) schedule = some state)
    {t : Interleaving.Thread ConnectionWorker (Call Reply) ConnectionWorker.Event}
    (ht : t ∈ state.threads) (hover : t.state.pc.pending = []) :
    t.state.tally = .ofAttempts
      (startedIn (plan.window started) (ConnectionWorker.journal perform t.labels).begun) := by
  have hbegun := (run_recorded hrun t ht).begun
  rw [hover, List.append_nil] at hbegun
  rw [hbegun, ← ConnectionWorker.filterMap_attempt]
  exact (run_worker_invariant hrun t ht).tally

/-- With a series, the samples of the attempts that started in the window are those of its
entries together. -/
theorem ClosedLoop.perSecond_started {plan : ClosedLoopPlan} {state : ClosedLoop.State Reply}
    (fl : Rounding) (resolution : Nanos) (htimeseries : plan.timeseries = true)
    (hrun : (ClosedLoop.spawn Reply plan started threads).run
      (ConnectionWorker.step perform (plan.window started)) schedule = some state)
    (hover : ∀ t ∈ state.threads, t.state.pc.pending = []) :
    Histogram.mergeAll (collect fl plan resolution state).perSecond =
      .recordAll (state.threads.flatMap fun t => (startedIn (plan.window started)
        (ConnectionWorker.journal perform t.labels).begun).filterMap Attempt.sample) := by
  obtain ⟨hstart, htimed, hshared⟩ := run_timed htimeseries hrun
  have haccounted := accounted_of_timed fl resolution hstart htimed hshared
  rw [haccounted.merged]
  have htallies : (state.threads.map (·.state)).map (·.tally.histogram) =
      state.threads.map fun t => Histogram.recordAll ((startedIn (plan.window started)
        (ConnectionWorker.journal perform t.labels).begun).filterMap Attempt.sample) := by
    rw [List.map_map]
    refine List.map_congr_left fun t ht => ?_
    rw [Function.comp_apply, tally_started hrun ht (hover t ht), Tally.histogram_ofAttempts]
  show (Tally.mergeAll ((state.threads.map (·.state)).map (·.tally))).histogram = _
  rw [Tally.histogram_mergeAll, List.map_map, Function.comp_def, htallies,
    Histogram.mergeAll_recordAll]

/-- What an open-loop worker keeps is exactly what started in the window. -/
structure OpenLoopWorker.KeepsStarted (window : RunWindow) (w : OpenLoopWorker)
    (begun : List Begun) (sent : List OpenLoopWorker.Sent) : Prop where
  tally : w.tally = .ofAttempts (startedIn window begun)
  lag : w.lag = .recordAll
    ((sent.filter fun s => decide (window.recordFrom ≤ s.slot.due)).map Sent.late)
  connectionWait : w.connectionWait = .recordAll
    ((sent.filter fun s => decide (window.recordFrom ≤ s.slot.due)).map Sent.waited)
  rigLag : w.rigLag = .recordAll
    ((sent.filter fun s => decide (window.recordFrom ≤ s.slot.due)).map Sent.rig)

/-- An open-loop worker whose clock never goes back keeps exactly what started in the window when
no failed connect of the warm-up was handled after it. -/
theorem OpenLoop.keepsStarted_iff {fl : Rounding} {plan : OpenLoopPlan}
    {state : OpenLoop.State Reply} {during : Reply → List Instant}
    (hrun : (OpenLoop.spawn Reply plan started threads).run
      (OpenLoopWorker.step fl perform (plan.window started)) schedule = some state)
    {t : Interleaving.Thread OpenLoopWorker (Call Reply) OpenLoopWorker.Event}
    (ht : t ∈ state.threads)
    (hclock : (OpenLoopWorker.clockReadings during t.labels).Pairwise (· ≤ ·)) :
    t.state.KeepsStarted (plan.window started) (OpenLoopWorker.journal perform t.labels).begun
        (t.past.filterMap OpenLoopWorker.Event.sent) ↔
      ∀ b ∈ (OpenLoopWorker.journal perform t.labels).begun,
        ¬b.Straddles (plan.window started) := by
  have hrecorded := run_recorded during hrun t ht
  have hinv := run_worker_invariant hrun t ht
  have htally := hinv.tally
  rw [hrecorded.filterMap_attempt] at htally
  rw [← ofAttempts_judged_iff (hrecorded.ordered hclock), ← htally]
  constructor
  · exact fun hkeeps => hkeeps.tally
  · intro hsame
    refine ⟨hsame, ?_, ?_, ?_⟩
    · rw [← OpenLoopWorker.filterMap_measured]
      exact hinv.lag
    · rw [← OpenLoopWorker.filterMap_measured]
      exact hinv.connectionWait
    · rw [← OpenLoopWorker.filterMap_measured]
      exact hinv.rigLag

end Runs

/-- What warm-up means in the two loops. Between attempts a closed-loop worker keeps exactly what
started in the window, and so does the series of its run. An open-loop worker does under a clock
that never goes back exactly when no failed connect of the warm-up was handled after it. -/
theorem warm_up_iff {Reply : Type*} (fl : Rounding) (perform : Reply → Option Exchange)
    (during : Reply → List Instant) (started : Instant) (threads : ℕ) (resolution : Nanos)
    (schedule : List (ℕ × Call Reply)) :
    (∀ (plan : ClosedLoopPlan) (state : ClosedLoop.State Reply),
      (ClosedLoop.spawn Reply plan started threads).run
          (ConnectionWorker.step perform (plan.window started)) schedule = some state →
        (∀ t ∈ state.threads, t.state.pc.pending = [] → t.state.tally = .ofAttempts
          (startedIn (plan.window started) (ConnectionWorker.journal perform t.labels).begun)) ∧
        (plan.timeseries = true → (∀ t ∈ state.threads, t.state.pc.pending = []) →
          Histogram.mergeAll (ClosedLoop.collect fl plan resolution state).perSecond =
            .recordAll (state.threads.flatMap fun t => (startedIn (plan.window started)
              (ConnectionWorker.journal perform t.labels).begun).filterMap Attempt.sample))) ∧
      ∀ (plan : OpenLoopPlan) (state : OpenLoop.State Reply),
        (OpenLoop.spawn Reply plan started threads).run
            (OpenLoopWorker.step fl perform (plan.window started)) schedule = some state →
          ∀ t ∈ state.threads,
            (OpenLoopWorker.clockReadings during t.labels).Pairwise (· ≤ ·) →
              (t.state.KeepsStarted (plan.window started)
                  (OpenLoopWorker.journal perform t.labels).begun
                  (t.past.filterMap OpenLoopWorker.Event.sent) ↔
                ∀ b ∈ (OpenLoopWorker.journal perform t.labels).begun,
                  ¬b.Straddles (plan.window started)) := by
  refine ⟨fun plan state hrun => ⟨fun t ht hover => ?_, fun htimeseries hover => ?_⟩,
    fun plan state hrun t ht hclock => ?_⟩
  · exact ClosedLoop.tally_started hrun ht hover
  · exact ClosedLoop.perSecond_started fl resolution htimeseries hrun hover
  · exact OpenLoop.keepsStarted_iff hrun ht hclock

/-- One worker of each loop: a connect refused in the warm-up, and a request in the window. -/
theorem warm_up_iff_refused_and_served :
    (∃ state : ClosedLoop.State Exchange,
      (ClosedLoop.spawn Exchange { duration := 10, warmup := 5, timeseries := true } 0 1).run
          (ConnectionWorker.step some
            ((ClosedLoopPlan.window { duration := 10, warmup := 5, timeseries := true }) 0))
          [(0, .now 3_000_000), (0, .connect .refused), (0, .sleepFor), (0, .now 6_000_000),
            (0, .connect .connected), (0, .perform ⟨.succeeded, 5, true⟩), (0, .now 6_000_005),
            (0, .now 20_000_000)] = some state ∧
        Histogram.mergeAll (ClosedLoop.collect .exact
            { duration := 10, warmup := 5, timeseries := true } 0 state).perSecond =
          .recordAll (state.threads.flatMap fun t => (startedIn
            ((ClosedLoopPlan.window { duration := 10, warmup := 5, timeseries := true }) 0)
            (ConnectionWorker.journal some t.labels).begun).filterMap Attempt.sample) ∧
        ∀ t ∈ state.threads, t.state.tally = .ofAttempts (startedIn
          ((ClosedLoopPlan.window { duration := 10, warmup := 5, timeseries := true }) 0)
          (ConnectionWorker.journal some t.labels).begun)) ∧
      ∃ state : OpenLoop.State Exchange,
        (OpenLoop.spawn Exchange { duration := 10, warmup := 5 } 0 1).run
            (OpenLoopWorker.step .exact some
              ((OpenLoopPlan.window { duration := 10, warmup := 5 }) 0))
            [(0, .now 3_000_000), (0, .connect .refused), (0, .now 3_000_001), (0, .sleepFor),
              (0, .now 4_000_000), (0, .connect .connected), (0, .now 4_000_001), (0, .claim),
              (0, .sleepUntil 5_000_000 5_000_001), (0, .now 5_000_002),
              (0, .perform ⟨.succeeded, 5, true⟩), (0, .now 20_000_000)] = some state ∧
          ∀ t ∈ state.threads,
            t.state.KeepsStarted ((OpenLoopPlan.window { duration := 10, warmup := 5 }) 0)
                (OpenLoopWorker.journal some t.labels).begun
                (t.past.filterMap OpenLoopWorker.Event.sent) ↔
              ∀ b ∈ (OpenLoopWorker.journal some t.labels).begun,
                ¬b.Straddles ((OpenLoopPlan.window { duration := 10, warmup := 5 }) 0) := by
  constructor
  · refine Interleaving.exists_run_eq (fun state => state.threads.map (·.state.pc)) [.returned]
      (by decide +kernel) fun state hrun hreturned => ?_
    -- a worker that has returned has no exchange pending
    have hover : ∀ t ∈ state.threads, t.state.pc.pending = [] := by
      intro t ht
      have hpc : t.state.pc ∈ state.threads.map (·.state.pc) := List.mem_map_of_mem ht
      rw [hreturned] at hpc
      rw [List.mem_singleton.mp hpc]
      rfl
    obtain ⟨htally, hseries⟩ :=
      (warm_up_iff .exact some (fun _ => []) 0 1 0 _).1 _ state hrun
    exact ⟨hseries rfl hover, fun t ht => htally t ht (hover t ht)⟩
  · refine Interleaving.exists_run_eq (fun state =>
      state.threads.all fun t => decide
        ((OpenLoopWorker.clockReadings (fun _ => []) t.labels).Pairwise (· ≤ ·))) true
      (by decide +kernel) fun state hrun hclock t ht => ?_
    exact (warm_up_iff .exact some (fun _ => []) 0 1 0 _).2 _ state hrun t ht
      (of_decide_eq_true (List.all_eq_true.mp hclock t ht))

/-- A connect that starts 2 ms before the end of the warm-up and is refused 2 ms after it: the
open loop counts it. -/
theorem refused_across_the_boundary :
    ∃ state : OpenLoop.State Exchange,
      (OpenLoop.spawn Exchange { duration := 10, warmup := 5 } 0 1).run
          (OpenLoopWorker.step .exact some
            ((OpenLoopPlan.window { duration := 10, warmup := 5 }) 0))
          [(0, .now 3_000_000), (0, .connect .refused), (0, .now 7_000_000), (0, .sleepFor),
            (0, .now 20_000_000)] = some state ∧
        (OpenLoop.collect .exact { duration := 10, warmup := 5 } 0 state).result.attempted = 1 ∧
        ∀ t ∈ state.threads,
          t.state.pc = .returned ∧
          (OpenLoopWorker.clockReadings (fun _ => []) t.labels).Pairwise (· ≤ ·) ∧
          startedIn ((OpenLoopPlan.window { duration := 10, warmup := 5 }) 0)
            (OpenLoopWorker.journal some t.labels).begun = [] ∧
          ¬t.state.KeepsStarted ((OpenLoopPlan.window { duration := 10, warmup := 5 }) 0)
            (OpenLoopWorker.journal some t.labels).begun
            (t.past.filterMap OpenLoopWorker.Event.sent) := by
  refine Interleaving.exists_run_eq (fun state =>
    ((OpenLoop.collect .exact { duration := 10, warmup := 5 } 0 state).result.attempted,
      state.threads.all fun t => decide (t.state.pc = .returned ∧
        (OpenLoopWorker.clockReadings (fun _ => []) t.labels).Pairwise (· ≤ ·) ∧
        startedIn ((OpenLoopPlan.window { duration := 10, warmup := 5 }) 0)
          (OpenLoopWorker.journal some t.labels).begun = [] ∧ t.state.tally.attempted = 1)))
    (1, true) (by decide +kernel) fun state _ hcomputed => ?_
  obtain ⟨hattempted, hworkers⟩ := Prod.mk.inj hcomputed
  refine ⟨hattempted, fun t ht => ?_⟩
  obtain ⟨hreturned, hclock, hstarted, hcounted⟩ :=
    of_decide_eq_true (List.all_eq_true.mp hworkers t ht)
  refine ⟨hreturned, hclock, hstarted, fun hkeeps => ?_⟩
  -- nothing started in the window, and one attempt was counted
  have htally := congrArg Tally.attempted hkeeps.tally
  rw [hstarted, hcounted] at htally
  exact absurd htally (by decide)

end Dariyanaap

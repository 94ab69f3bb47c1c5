import Dariyanaap.Load.Runs

/-!
# Failed connects

Both loops assign the socket inside a `try` block and then set its timeouts. When the second of
the two throws, the handler books a failed connect and the next turn finds a socket: one whose
timeouts were never set and that `connections_opened` does not count. `connects_clean_iff` says
that this is the only way: a state of a run is `CleanConnects` for all its workers exactly when
no `set_timeouts` has thrown on a connected socket.
-/

namespace Dariyanaap

/-- What a failed connect is meant to leave behind. -/
structure CleanConnects (socket : Option Socket) (failed : Prop) (carriers : List Socket)
    (connectionsOpened sockets : ℕ) : Prop where
  /-- After a failed attempt the worker holds no socket. -/
  dropped : failed → socket = none
  /-- Every request was made on a socket whose timeouts were set. -/
  timed : ∀ s ∈ carriers, s.timeoutsSet = true
  /-- So will the next one be. -/
  inHand : ∀ s, socket = some s → s.timeoutsSet = true
  /-- The sockets that can carry a request are the ones counted. -/
  counted : connectionsOpened = sockets

/-- `set_timeouts` threw on a connected socket. -/
def Call.timeoutsFailed {Reply : Type*} : Call Reply → Bool
  | .connect .timeoutsFailed => true
  | _ => false

/-- How often `set_timeouts` threw on a connected socket. -/
def timeoutFailures {Reply : Type*} (labels : List (Call Reply)) : ℕ :=
  labels.countP Call.timeoutsFailed

section Failures

variable {Reply : Type*} {labels : List (Call Reply)} {call : Call Reply}

@[simp]
theorem timeoutFailures_append (labels : List (Call Reply)) (call : Call Reply) :
    timeoutFailures (labels ++ [call]) =
      timeoutFailures labels + if call.timeoutsFailed then 1 else 0 := by
  rw [timeoutFailures, List.countP_append, List.countP_singleton]
  rfl

theorem timeoutFailures_eq_zero :
    timeoutFailures labels = 0 ↔ Call.connect .timeoutsFailed ∉ labels := by
  rw [timeoutFailures, List.countP_eq_zero]
  constructor
  · intro h hmem
    exact h _ hmem rfl
  · intro h call hmem hfailed
    rcases call with _ | (_ | _ | _) | _ | _ | _ | _
    case connect.timeoutsFailed => exact h hmem
    all_goals cases hfailed

end Failures

/-- What both loops keep about their connects, in terms of the failures so far. -/
structure ConnectInvariant (socket : Option Socket) (failed connecting : Prop)
    (carriers : List Socket) (connectionsOpened sockets failures : ℕ) : Prop where
  /-- A connect is made without a socket only. -/
  bare : connecting → socket = none
  opened : sockets = connectionsOpened + failures
  /-- Without failures the connects are clean. -/
  dropped : failures = 0 → failed → socket = none
  timed : failures = 0 → ∀ s ∈ carriers, s.timeoutsSet = true
  inHand : failures = 0 → ∀ s, socket = some s → s.timeoutsSet = true

namespace ConnectInvariant

variable {socket : Option Socket} {failed connecting failed' connecting' : Prop}
  {carriers : List Socket} {connectionsOpened sockets failures : ℕ} {s : Socket}

/-- A worker that has done nothing. -/
theorem start : ConnectInvariant none failed connecting [] 0 0 0 where
  bare _ := rfl
  opened := rfl
  dropped _ _ := rfl
  timed _ := List.forall_mem_nil _
  inHand := by
    rintro - s ⟨⟩

/-- The connects are clean exactly as long as none has failed half-way. -/
theorem clean_iff
    (h : ConnectInvariant socket failed connecting carriers connectionsOpened sockets failures) :
    CleanConnects socket failed carriers connectionsOpened sockets ↔ failures = 0 := by
  constructor
  · intro hclean
    have hopened := h.opened
    rw [← hclean.counted] at hopened
    exact Nat.left_eq_add.mp hopened
  · intro hzero
    have hopened := h.opened
    rw [hzero, Nat.add_zero] at hopened
    exact ⟨h.dropped hzero, h.timed hzero, h.inHand hzero, hopened.symm⟩

/-- The worker moves on with the socket it has. -/
theorem goto
    (h : ConnectInvariant socket failed connecting carriers connectionsOpened sockets failures)
    (hfailed : failed' → failed ∨ socket = none) (hconnecting : connecting' → socket = none) :
    ConnectInvariant socket failed' connecting' (carriers ++ []) connectionsOpened sockets
      failures := by
  rw [List.append_nil]
  exact
    { bare := hconnecting
      opened := h.opened
      dropped := fun hzero hpc => (hfailed hpc).elim (h.dropped hzero) id
      timed := h.timed
      inHand := h.inHand }

/-- Both calls succeed. -/
theorem connected
    (h : ConnectInvariant socket failed connecting carriers connectionsOpened sockets failures)
    (hfailed : ¬failed') (hconnecting : ¬connecting') :
    ConnectInvariant (some ⟨sockets, true⟩) failed' connecting' (carriers ++ [])
      (connectionsOpened + 1) (sockets + 1) failures where
  bare hpc := absurd hpc hconnecting
  opened := by
    have hopened := h.opened
    omega
  dropped _ hpc := absurd hpc hfailed
  timed := by
    rw [List.append_nil]
    exact h.timed
  inHand := by
    rintro - s ⟨⟩
    rfl

/-- `set_timeouts` throws, with the socket assigned. -/
theorem timeoutsFailed
    (h : ConnectInvariant socket failed connecting carriers connectionsOpened sockets failures)
    (hconnecting : ¬connecting') :
    ConnectInvariant (some ⟨sockets, false⟩) failed' connecting' (carriers ++ [])
      connectionsOpened (sockets + 1) (failures + 1) where
  bare hpc := absurd hpc hconnecting
  opened := by
    have hopened := h.opened
    omega
  dropped := nofun
  timed := nofun
  inHand := nofun

/-- A request on the socket in hand, which is kept or not. -/
theorem carry
    (h : ConnectInvariant (some s) failed connecting carriers connectionsOpened sockets failures)
    (usable : Bool) (hfailed : ¬failed') (hconnecting : ¬connecting') :
    ConnectInvariant (s.keepIf usable) failed' connecting' (carriers ++ [s]) connectionsOpened
      sockets failures where
  bare hpc := absurd hpc hconnecting
  opened := h.opened
  dropped _ hpc := absurd hpc hfailed
  timed hzero := by
    intro t ht
    -- the new carrier is the socket in hand
    rcases List.mem_append.mp ht with ht | ht
    · exact h.timed hzero t ht
    · rw [List.mem_singleton.mp ht]
      exact h.inHand hzero s rfl
  inHand hzero t ht := by
    unfold Socket.keepIf at ht
    split at ht
    · exact h.inHand hzero t ht
    · cases ht

end ConnectInvariant

variable {Reply : Type*} {perform : Reply → Option Exchange} {window : RunWindow}
  {labels : List (Call Reply)} {call : Call Reply}

/-! ## The closed loop -/

namespace ConnectionWorker

/-- The socket a request was made on. -/
def Event.carrier : Event → Option Socket
  | connectFailed _ => none
  | exchanged _ socket _ => some socket

/-- A worker whose failed connects left no socket behind. -/
def Clean (w : ConnectionWorker) (past : List Event) : Prop :=
  CleanConnects w.socket (w.pc = .backoff) (past.filterMap Event.carrier) w.connectionsOpened
    w.sockets

/-- The connects of a worker, its calls and its past. -/
def Connects (w : ConnectionWorker) (labels : List (Call Reply)) (past : List Event) : Prop :=
  ConnectInvariant w.socket (w.pc = .backoff) (∃ now, w.pc = .connecting now)
    (past.filterMap Event.carrier) w.connectionsOpened w.sockets (timeoutFailures labels)

variable {series series' : TimeSeries} {w w' : ConnectionWorker} {past out : List Event}

/-- Every step keeps the account of the connects. -/
theorem Connects.step (hinv : w.Connects labels past)
    (h : ConnectionWorker.step perform window series w call = some (series', w', out)) :
    w'.Connects (labels ++ [call]) (past ++ out) := by
  unfold Connects at hinv ⊢
  rw [timeoutFailures_append, List.filterMap_append]
  cases step_move h with
  | ended now hpc => exact hinv.goto (by simp) (by simp)
  | replace now hpc hsocket => exact hinv.goto (by simp) fun _ => hsocket
  | send now socket hpc => exact hinv.goto (by simp) (by simp)
  | connected now hpc => exact hinv.connected (by simp) (by simp)
  | timeoutsFailed now hpc => exact hinv.timeoutsFailed (by simp [connectFailed])
  | refused now hpc =>
    -- nothing was assigned, and the connect was made without a socket
    exact hinv.goto (fun _ => .inr (hinv.bare ⟨now, hpc⟩)) (by simp [connectFailed])
  | slept hpc => exact hinv.goto (by simp) (by simp)
  -- the exchange is an event once it is stamped
  | timed now reply socket writer result => exact hinv.goto (by simp) (by simp)
  | untimed now reply socket result hpc hsocket =>
    rw [hsocket] at hinv
    exact hinv.carry result.connectionUsable (by simp [finishTurn]) (by simp [finishTurn])
  | stamped now finished socket writer result hpc hsocket =>
    rw [hsocket] at hinv
    exact hinv.carry result.connectionUsable (by simp [finishTurn]) (by simp [finishTurn])

end ConnectionWorker

/-! ## The open loop -/

namespace OpenLoopWorker

/-- The socket a request was made on. -/
def Event.carrier : Event → Option Socket
  | exchanged sent => some sent.socket
  | _ => none

/-- A worker whose failed connects left no socket behind. -/
def Clean (w : OpenLoopWorker) (past : List Event) : Prop :=
  CleanConnects w.socket (w.pc = .refused ∨ w.pc = .backoff) (past.filterMap Event.carrier)
    w.connectionsOpened w.sockets

/-- The connects of a worker, its calls and its past. -/
def Connects (w : OpenLoopWorker) (labels : List (Call Reply)) (past : List Event) : Prop :=
  ConnectInvariant w.socket (w.pc = .refused ∨ w.pc = .backoff) (w.pc = .connecting)
    (past.filterMap Event.carrier) w.connectionsOpened w.sockets (timeoutFailures labels)

variable {fl : Rounding} {schedule schedule' : Schedule} {w w' : OpenLoopWorker}
  {past out : List Event}

/-- A worker comes to a connect without a socket only. -/
theorem socket_of_connecting
    (h : OpenLoopWorker.step fl perform window schedule w call = some (schedule', w', out))
    (hpc : w'.pc = .connecting) : w'.socket = none := by
  cases step_turn h with
  | turn now pc htop =>
    -- the turn that goes on to a connect is the one that found no socket
    by_contra hsome
    simp only [OpenLoopWorker.step, htop, if_neg hsome] at h
    split at h
    · cases h
      cases hpc
    · cases h
      cases hpc
  | exchanged reply sent => cases finishTurn_pc window w sent ▸ hpc
  | _ => cases hpc

/-- Every step keeps the account of the connects. -/
theorem Connects.step (hinv : w.Connects labels past)
    (h : OpenLoopWorker.step fl perform window schedule w call = some (schedule', w', out)) :
    w'.Connects (labels ++ [call]) (past ++ out) := by
  have hbare := socket_of_connecting h
  unfold Connects at hinv ⊢
  rw [timeoutFailures_append, List.filterMap_append]
  cases step_turn h with
  | ended now hpc => exact hinv.goto (by simp) (by simp)
  | turn now pc hpc hnext =>
    refine hinv.goto ?_ hbare
    rcases hnext with rfl | rfl <;> simp
  | connected hpc => exact hinv.connected (by simp) (by simp)
  | timeoutsFailed hpc => exact hinv.timeoutsFailed (by simp)
  | refused hpc => exact hinv.goto (fun _ => .inr (hinv.bare hpc)) (by simp)
  -- the handler pauses with the socket it has, if it has one
  | connectFailed now hpc => exact hinv.goto (fun _ => .inl (.inl hpc)) (by simp)
  | slept hpc => exact hinv.goto (by simp) (by simp)
  | free freeAt hpc => exact hinv.goto (by simp) (by simp)
  | claimedLate freeAt hpc => exact hinv.goto (by simp) (by simp)
  | claimed freeAt hpc => exact hinv.goto (by simp) (by simp)
  | woke freeAt slot woke hpc => exact hinv.goto (by simp) (by simp)
  | sending freeAt slot sending hpc => exact hinv.goto (by simp) (by simp)
  | exchanged reply sent hpc hsocket =>
    rw [hsocket] at hinv
    rw [finishTurn_pc, finishTurn_socket, finishTurn_sockets, finishTurn_connectionsOpened]
    exact hinv.carry sent.result.connectionUsable (by simp) (by simp)

end OpenLoopWorker

/-! ## Both loops -/

section Runs

variable {started : Instant} {threads : ℕ} {schedule : List (ℕ × Call Reply)}

/-- The connects of every closed-loop worker are accounted for, whatever the others do. -/
theorem ClosedLoop.run_connects {plan : ClosedLoopPlan} {state : ClosedLoop.State Reply}
    (hrun : (ClosedLoop.spawn Reply plan started threads).run
      (ConnectionWorker.step perform (plan.window started)) schedule = some state) :
    ∀ t ∈ state.threads, t.state.Connects t.labels t.past := by
  have hstart : (ConnectionWorker.make plan.timeseries).Connects ([] : List (Call Reply)) [] :=
    ConnectInvariant.start
  refine Interleaving.run_local_invariant (I := ConnectionWorker.Connects) ?_ hstart hrun
  intro series w labels past call series' w' out hinv hstep
  exact hinv.step hstep

/-- So are those of every open-loop worker. -/
theorem OpenLoop.run_connects {fl : Rounding} {plan : OpenLoopPlan}
    {state : OpenLoop.State Reply}
    (hrun : (OpenLoop.spawn Reply plan started threads).run
      (OpenLoopWorker.step fl perform (plan.window started)) schedule = some state) :
    ∀ t ∈ state.threads, t.state.Connects t.labels t.past := by
  have hstart : ({} : OpenLoopWorker).Connects ([] : List (Call Reply)) [] :=
    ConnectInvariant.start
  refine Interleaving.run_local_invariant (I := OpenLoopWorker.Connects) ?_ hstart hrun
  intro slots w labels past call slots' w' out hinv hstep
  exact hinv.step hstep

end Runs

/-- In every state of every run of either loop, the failed connects of all workers have left no
socket behind, every request was made on a socket with its timeouts set, and the connections
counted are the sockets there are, exactly when no `set_timeouts` has thrown on a connected
socket. -/
theorem connects_clean_iff (fl : Rounding) (perform : Reply → Option Exchange) (started : Instant)
    (threads : ℕ) (schedule : List (ℕ × Call Reply)) :
    (∀ (plan : ClosedLoopPlan) (state : ClosedLoop.State Reply),
      (ClosedLoop.spawn Reply plan started threads).run
          (ConnectionWorker.step perform (plan.window started)) schedule = some state →
        ((∀ t ∈ state.threads, t.state.Clean t.past) ↔
          ∀ t ∈ state.threads, Call.connect .timeoutsFailed ∉ t.labels)) ∧
      ∀ (plan : OpenLoopPlan) (state : OpenLoop.State Reply),
        (OpenLoop.spawn Reply plan started threads).run
            (OpenLoopWorker.step fl perform (plan.window started)) schedule = some state →
          ((∀ t ∈ state.threads, t.state.Clean t.past) ↔
            ∀ t ∈ state.threads, Call.connect .timeoutsFailed ∉ t.labels) := by
  refine ⟨fun plan state hrun => ?_, fun plan state hrun => ?_⟩
  · have hconnects := ClosedLoop.run_connects hrun
    refine forall₂_congr fun t ht => ?_
    rw [← timeoutFailures_eq_zero]
    exact (hconnects t ht).clean_iff
  · have hconnects := OpenLoop.run_connects hrun
    refine forall₂_congr fun t ht => ?_
    rw [← timeoutFailures_eq_zero]
    exact (hconnects t ht).clean_iff

/-- A refused connect, then a served request, in either loop: the connects are clean. -/
theorem connects_clean_iff_refused :
    (∃ state : ClosedLoop.State Exchange,
      (ClosedLoop.spawn Exchange { duration := 10 } 0 1).run
          (ConnectionWorker.step some ((ClosedLoopPlan.window { duration := 10 }) 0))
          [(0, .now 0), (0, .connect .refused), (0, .sleepFor), (0, .now 1),
            (0, .connect .connected), (0, .perform ⟨.succeeded, 5, true⟩)] = some state ∧
        ((∀ t ∈ state.threads, t.state.Clean t.past) ↔
          ∀ t ∈ state.threads, Call.connect .timeoutsFailed ∉ t.labels)) ∧
      ∃ state : OpenLoop.State Exchange,
        (OpenLoop.spawn Exchange { duration := 10 } 0 1).run
            (OpenLoopWorker.step .exact some ((OpenLoopPlan.window { duration := 10 }) 0))
            [(0, .now 0), (0, .connect .refused), (0, .now 1), (0, .sleepFor), (0, .now 2),
              (0, .connect .connected)] = some state ∧
          ((∀ t ∈ state.threads, t.state.Clean t.past) ↔
            ∀ t ∈ state.threads, Call.connect .timeoutsFailed ∉ t.labels) := by
  constructor
  · refine Interleaving.exists_run_eq (fun _ => ()) () (by decide +kernel) fun state hrun _ => ?_
    exact (connects_clean_iff .exact some 0 1 _).1 { duration := 10 } state hrun
  · refine Interleaving.exists_run_eq (fun _ => ()) () (by decide +kernel) fun state hrun _ => ?_
    exact (connects_clean_iff .exact some 0 1 _).2 { duration := 10 } state hrun

/-- `set_timeouts` throws once: the attempt is booked as a failed connect, and after the pause
the worker sends a request on the socket without timeouts, which is not counted as opened. -/
theorem timeouts_failed_keeps_socket :
    (∃ state : ClosedLoop.State Exchange,
      (ClosedLoop.spawn Exchange { duration := 10 } 0 1).run
          (ConnectionWorker.step some ((ClosedLoopPlan.window { duration := 10 }) 0))
          [(0, .now 0), (0, .connect .timeoutsFailed), (0, .sleepFor), (0, .now 1),
            (0, .perform ⟨.succeeded, 5, true⟩)] = some state ∧
        ∃ t, state.threads = [t] ∧ t.state.tally.errors.connect = 1 ∧
          t.state.connectionsOpened = 0 ∧
          t.past.filterMap ConnectionWorker.Event.carrier = [⟨0, false⟩] ∧
          ¬t.state.Clean t.past) ∧
      ∃ state : OpenLoop.State Exchange,
        (OpenLoop.spawn Exchange { duration := 10 } 0 1).run
            (OpenLoopWorker.step .exact some ((OpenLoopPlan.window { duration := 10 }) 0))
            [(0, .now 0), (0, .connect .timeoutsFailed), (0, .now 0), (0, .sleepFor), (0, .now 1),
              (0, .now 1), (0, .claim), (0, .sleepUntil 0 1), (0, .now 1),
              (0, .perform ⟨.succeeded, 5, true⟩)] = some state ∧
          ∃ t, state.threads = [t] ∧ t.state.tally.errors.connect = 1 ∧
            t.state.connectionsOpened = 0 ∧
            t.past.filterMap OpenLoopWorker.Event.carrier = [⟨0, false⟩] ∧
            ¬t.state.Clean t.past := by
  constructor
  · refine Interleaving.exists_run_eq (fun state => state.threads.map fun t =>
      (t.state.tally.errors.connect, t.state.connectionsOpened,
        t.past.filterMap ConnectionWorker.Event.carrier)) [(1, 0, [⟨0, false⟩])]
      (by decide +kernel) fun state _ hcomputed => ?_
    obtain ⟨t, hthreads, ht⟩ := List.map_eq_singleton_iff.mp hcomputed
    simp only [Prod.mk.injEq] at ht
    obtain ⟨hconnect, hopened, hcarriers⟩ := ht
    refine ⟨t, hthreads, hconnect, hopened, hcarriers, fun hclean => ?_⟩
    have htimed := hclean.timed ⟨0, false⟩ (by simp [hcarriers])
    cases htimed
  · refine Interleaving.exists_run_eq (fun state => state.threads.map fun t =>
      (t.state.tally.errors.connect, t.state.connectionsOpened,
        t.past.filterMap OpenLoopWorker.Event.carrier)) [(1, 0, [⟨0, false⟩])]
      (by decide +kernel) fun state _ hcomputed => ?_
    obtain ⟨t, hthreads, ht⟩ := List.map_eq_singleton_iff.mp hcomputed
    simp only [Prod.mk.injEq] at ht
    obtain ⟨hconnect, hopened, hcarriers⟩ := ht
    refine ⟨t, hthreads, hconnect, hopened, hcarriers, fun hclean => ?_⟩
    have htimed := hclean.timed ⟨0, false⟩ (by simp [hcarriers])
    cases htimed

end Dariyanaap

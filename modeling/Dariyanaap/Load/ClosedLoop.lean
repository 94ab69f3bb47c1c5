import Dariyanaap.Load.Worker

/-!
# Closed-loop runs

`run_closed_loop` (`load/closed_loop.cpp`): start the workers, let them take turns on a shared
per-second series until they return, and merge what each of them kept. A run is a run of the
interleaving; `collect` is the merge loop at its end.
-/

namespace Dariyanaap

/-- `ClosedLoopPlan`, as far as the loop reads it. -/
structure ClosedLoopPlan where
  connections : ℕ := 1
  duration : Millis := 10_000
  warmup : Millis := 0
  timeseries : Bool := false

/-- `record_from` and `deadline`. -/
def ClosedLoopPlan.window (plan : ClosedLoopPlan) (started : Instant) : RunWindow where
  recordFrom := started + plan.warmup.toNanos
  deadline := started + plan.warmup.toNanos + plan.duration.toNanos

/-- One closed-loop run. -/
structure ClosedLoopRun where
  result : RunResult
  histogram : Histogram
  connectionsRequested : ℕ
  connectionsStarted : ℕ
  connectionsOpened : ℕ
  clockResolution : Nanos
  perSecond : List Histogram

/-- `ConnectionWorker::finish`. -/
def ConnectionWorker.finish (series : TimeSeries) (w : ConnectionWorker) :
    TimeSeries × ConnectionWorker :=
  match w.writer with
  | some writer =>
      let (series, writer) := writer.flush series
      (series, { w with writer := some writer })
  | none => (series, w)

namespace ClosedLoop

/-- The state of a run: the shared series and the workers. -/
abbrev State (Reply : Type*) : Type _ :=
  Interleaving.Config TimeSeries ConnectionWorker (Call Reply) ConnectionWorker.Event

/-- A run with `threads` workers started, none of which has moved. -/
def spawn (Reply : Type*) (plan : ClosedLoopPlan) (started : Instant) (threads : ℕ) :
    State Reply :=
  .init { start := (plan.window started).recordFrom } (.make plan.timeseries) threads

/-- The merge loop after the join. -/
def collect {Reply : Type*} (fl : Rounding) (plan : ClosedLoopPlan) (resolution : Nanos)
    (state : State Reply) : ClosedLoopRun :=
  let workers := state.threads.map (·.state)
  let series := workers.foldl (fun series w => (w.finish series).1) state.shared
  let merged := Tally.mergeAll (workers.map (·.tally))
  { result := merged.result fl plan.duration.toNanos
    histogram := merged.histogram
    connectionsRequested := plan.connections
    connectionsStarted := state.threads.length
    connectionsOpened := (workers.map (·.connectionsOpened)).sum
    clockResolution := resolution
    perSecond := series.seconds }

variable {Reply : Type*} {perform : Reply → Option Exchange} {plan : ClosedLoopPlan}
  {started : Instant} {threads : ℕ} {schedule : List (ℕ × Call Reply)} {state : State Reply}

/-- Every worker of every run keeps its invariant, whatever the others do. -/
theorem run_worker_invariant
    (hrun : (spawn Reply plan started threads).run
      (ConnectionWorker.step perform (plan.window started)) schedule = some state) :
    ∀ t ∈ state.threads,
      ConnectionWorker.Invariant perform (plan.window started) t.state t.past := by
  refine Interleaving.run_local_invariant
    (I := fun w _ past => ConnectionWorker.Invariant perform (plan.window started) w past)
    ?_ (.make plan.timeseries) hrun
  intro series w labels past call series' w' out hinv hstep
  exact ConnectionWorker.worker_invariant hinv hstep

/-- The measured attempts of all workers. -/
def attempts (window : RunWindow) (state : State Reply) : List Attempt :=
  state.threads.flatMap fun t => t.past.filterMap (ConnectionWorker.Event.attempt window)

/-- The merged tally counts the attempts of all workers. -/
theorem counts_attempts
    (hrun : (spawn Reply plan started threads).run
      (ConnectionWorker.step perform (plan.window started)) schedule = some state) :
    (Tally.mergeAll ((state.threads.map (·.state)).map (·.tally))).Counts
      (attempts (plan.window started) state) := by
  rw [List.map_map]
  exact Tally.counts_mergeAll fun t ht => (run_worker_invariant hrun t ht).tally

/-- The merged report accounts for the attempts of all workers. -/
theorem collect_accounted
    (hrun : (spawn Reply plan started threads).run
      (ConnectionWorker.step perform (plan.window started)) schedule = some state)
    (fl : Rounding) (resolution : Nanos) :
    Accounted (collect fl plan resolution state).result (collect fl plan resolution state).histogram
      ((attempts (plan.window started) state).countP (Attempt.ended .succeeded)) :=
  (counts_attempts hrun).accounted fl _

end ClosedLoop

end Dariyanaap

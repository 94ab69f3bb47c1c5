import Dariyanaap.Load.ClosedLoop
import Dariyanaap.Stats.Csv

/-!
# The per-second view

A closed-loop run with a per-second series records every timed request twice: in its worker's
histogram and, by way of a writer, in the series all workers share. The reference is neither:
`timings` reads the samples of a worker off the calls it made, each with the clock reading that
followed its exchange.

Every worker has handed over some of its samples and its writer `Keeps` the rest (`Timed`), the
series `Holds` what all workers have handed over (`run_timed`), and the flushes after the join
hand over the rest. So the two views describe one population (`perSecond_accounted`).

What the series does not hold is the length of the run: it grows when a sample is absorbed, and
only then. `every_second_iff` says when `timeseries.csv` still has a row for every second of the
window.
-/

namespace Dariyanaap

open TimeSeries

/-! ## The samples of a worker -/

/-- What the calls of a worker say about its timed requests. -/
structure Timings where
  /-- The reading its turn began with. -/
  turn : Instant := 0
  /-- The latency of an exchange whose end has not been read off the clock yet. -/
  awaiting : Option Nanos := none
  samples : List Sample := []

section Timings

variable {Reply : Type*} (perform : Reply → Option Exchange) (window : RunWindow)

/-- One call. A measured exchange with a timed outcome finished at the next clock reading. -/
def Timings.note (timings : Timings) : Call Reply → Timings
  | .now now =>
      -- the reading that `record` is given, or the one that begins a turn
      match timings.awaiting with
      | some latency =>
          { timings with awaiting := none, samples := timings.samples ++ [⟨now, latency⟩] }
      | none => { timings with turn := now }
  | .perform reply =>
      match perform reply with
      | some result =>
          if window.recordFrom ≤ timings.turn ∧ result.outcome.timed = true then
            { timings with awaiting := some result.elapsed }
          else timings
      | none => timings
  | .connect _ | .sleepFor | .sleepUntil .. | .claim => timings

/-- All calls of a worker. -/
def timings (labels : List (Call Reply)) : Timings :=
  labels.foldl (Timings.note perform window) {}

/-- The samples of all workers of a closed-loop run. -/
def ClosedLoop.samples (state : ClosedLoop.State Reply) : List Sample :=
  state.threads.flatMap fun t => (timings perform window t.labels).samples

end Timings

/-- The samples a worker's writer has passed on, given how many it holds back. -/
def handedOver (samples : List Sample) (w : ConnectionWorker) : List Sample :=
  samples.take (samples.length - (w.writer.map fun writer => writer.pending.count).getD 0)

namespace ConnectionWorker

variable {Reply : Type*} {perform : Reply → Option Exchange} {window : RunWindow}
  {labels : List (Call Reply)} {call : Call Reply} {start : Instant}
  {series series' : TimeSeries} {w w' : ConnectionWorker} {out : List Event}

/-- The position in the loop agrees with the calls so far. -/
def Pc.Agrees (window : RunWindow) (t : Timings) : Pc → Prop
  | .connecting now | .sending now => t.awaiting = none ∧ t.turn = now
  | .stamping now result =>
      t.awaiting = some result.elapsed ∧ window.recordFrom ≤ now ∧ result.outcome.timed = true
  | .top | .backoff | .returned => t.awaiting = none

/-- A worker, its writer and its samples. -/
structure Timed (perform : Reply → Option Exchange) (window : RunWindow) (start : Instant)
    (w : ConnectionWorker) (labels : List (Call Reply)) : Prop where
  agrees : w.pc.Agrees window (timings perform window labels)
  histogram : w.tally.histogram =
    .recordAll ((timings perform window labels).samples.map Sample.latency)
  /-- What was not handed over is with the writer. -/
  writer : ∃ writer given kept, w.writer = some writer ∧
    (timings perform window labels).samples = given ++ kept ∧ writer.Keeps start kept

@[simp]
theorem timings_append (labels : List (Call Reply)) (call : Call Reply) :
    timings perform window (labels ++ [call]) =
      (timings perform window labels).note perform window call := by
  rw [timings, List.foldl_append]
  rfl

/-- The writer's count says how much was handed over. -/
theorem handedOver_eq {writer : Writer} {given kept : List Sample}
    (hwriter : w.writer = some writer)
    (hkeeps : writer.Keeps start kept) : handedOver (given ++ kept) w = given := by
  rw [handedOver, hwriter, Option.map_some, Option.getD_some, hkeeps.count_pending,
    List.length_append, Nat.add_sub_cancel, List.take_left]

/-- A step keeps a worker timed, and the series takes in what the step hands over. -/
def Passes (perform : Reply → Option Exchange) (window : RunWindow) (start : Instant)
    (series : TimeSeries) (w : ConnectionWorker) (labels : List (Call Reply)) (call : Call Reply)
    (series' : TimeSeries) (w' : ConnectionWorker) : Prop :=
  series'.start = start ∧ w'.Timed perform window start (labels ++ [call]) ∧
    ∃ extra, handedOver (timings perform window (labels ++ [call])).samples w' =
        handedOver (timings perform window labels).samples w ++ extra ∧
      ∀ xs, series.Holds xs → series'.Holds (xs ++ extra)

/-- A call after which there is no new sample. -/
theorem Timed.quiet (h : w.Timed perform window start labels) (hstart : series.start = start)
    (hwriter : w'.writer = w.writer)
    (hhistogram : w'.tally.histogram = w.tally.histogram)
    (hsamples : (timings perform window (labels ++ [call])).samples =
      (timings perform window labels).samples)
    (hagrees : w'.pc.Agrees window (timings perform window (labels ++ [call]))) :
    Passes perform window start series w labels call series w' := by
  refine ⟨hstart, ⟨hagrees, ?_, ?_⟩, [], ?_, fun xs hholds => by rwa [List.append_nil]⟩
  · rw [hhistogram, hsamples]
    exact h.histogram
  · rw [hwriter, hsamples]
    exact h.writer
  · rw [hsamples, List.append_nil, handedOver, handedOver, hwriter]

/-- A clock reading that ends an exchange adds its sample. -/
theorem Timed.sample (h : w.Timed perform window start labels) {writer : Writer}
    (hwriter : w.writer = some writer) (finished : Instant) {latency : Nanos}
    (hawaiting : (timings perform window labels).awaiting = some latency)
    (hwriter' : w'.writer = some (writer.record series finished latency).2)
    (hhistogram : w'.tally.histogram = w.tally.histogram.record latency)
    (hpc : w'.pc = .top) (hstart : series.start = start) :
    Passes perform window start series w labels (.now finished)
      (writer.record series finished latency).1 w' := by
  obtain ⟨writer', given, kept, hsome, hsamples, hkeeps⟩ := h.writer
  obtain rfl := Option.some.inj (hwriter.symm.trans hsome)
  have hnote : timings perform window (labels ++ [.now finished]) =
      { timings perform window labels with
        awaiting := none
        samples := (timings perform window labels).samples ++ [⟨finished, latency⟩] } := by
    rw [timings_append, Timings.note, hawaiting]
  obtain ⟨handed, kept', hsplit, hrecord⟩ := hkeeps.record ⟨finished, latency⟩
  obtain ⟨hkeeps', hstart', hholds⟩ := hrecord series hstart
  -- the new sample stays with the writer, what was kept may go to the series
  have hall : (timings perform window (labels ++ [.now finished])).samples =
      (given ++ handed) ++ kept' := by
    rw [hnote]
    dsimp only
    rw [hsamples, List.append_assoc, ← hsplit, List.append_assoc]
  refine ⟨hstart', ⟨?_, ?_, ?_⟩, handed, ?_, hholds⟩
  · rw [hnote, hpc]
    rfl
  · rw [hnote, hhistogram, h.histogram]
    simp
  · exact ⟨_, given ++ handed, kept', hwriter', hall, hkeeps'⟩
  · rw [hall, handedOver_eq hwriter' hkeeps', hsamples, handedOver_eq hwriter hkeeps]

/-- Only timed outcomes reach the histogram. -/
theorem histogram_exchanged (t : Tally) (latency : Nanos) (outcome : Outcome) :
    (t.exchanged latency outcome).histogram =
      if outcome.timed then t.histogram.record latency else t.histogram := by
  cases outcome <;> rfl

/-- A clock reading that ends no exchange begins a turn. -/
theorem timings_now (hawaiting : (timings perform window labels).awaiting = none) (now : Instant) :
    timings perform window (labels ++ [.now now]) =
      ⟨now, none, (timings perform window labels).samples⟩ := by
  rw [timings_append, ← hawaiting, Timings.note, hawaiting]

/-- A clock reading that begins a turn, or ends the last one. -/
theorem Timed.turn (h : w.Timed perform window start labels) (hstart : series.start = start)
    (now : Instant) (hawaiting : (timings perform window labels).awaiting = none)
    (hwriter : w'.writer = w.writer) (htally : w'.tally = w.tally)
    (hagrees : w'.pc.Agrees window ⟨now, none, (timings perform window labels).samples⟩) :
    Passes perform window start series w labels (.now now) series w' := by
  have htimings := timings_now hawaiting now
  refine h.quiet hstart hwriter ?_ ?_ ?_
  · rw [htally]
  · rw [htimings]
  · rw [htimings]
    exact hagrees

/-- A call that has no bearing on the samples. -/
theorem Timed.same (h : w.Timed perform window start labels) (hstart : series.start = start)
    (hwriter : w'.writer = w.writer)
    (hhistogram : w'.tally.histogram = w.tally.histogram)
    (hnote : (timings perform window labels).note perform window call =
      timings perform window labels)
    (hagrees : w'.pc.Agrees window (timings perform window labels)) :
    Passes perform window start series w labels call series w' := by
  refine h.quiet hstart hwriter hhistogram ?_ ?_
  · rw [timings_append, hnote]
  · rw [timings_append, hnote]
    exact hagrees

/-- A failed connect has no latency. -/
theorem histogram_connectFailed (window : RunWindow) (w : ConnectionWorker) (now : Instant) :
    (connectFailed window w now).tally.histogram = w.tally.histogram := by
  unfold connectFailed
  split <;> rfl

/-- An exchange has one if it was measured and its outcome is timed. -/
theorem histogram_finishTurn (window : RunWindow) (w : ConnectionWorker) (now : Instant)
    (socket : Socket) (result : Exchange) :
    (finishTurn window w now socket result).tally.histogram =
      if window.recordFrom ≤ now ∧ result.outcome.timed = true then
        w.tally.histogram.record result.elapsed
      else w.tally.histogram := by
  show (if window.recordFrom ≤ now then w.tally.exchanged result.elapsed result.outcome
    else w.tally).histogram = _
  by_cases hmeasured : window.recordFrom ≤ now
  · rw [if_pos hmeasured, histogram_exchanged]
    simp only [hmeasured, true_and]
  · rw [if_neg hmeasured, if_neg fun hboth => hmeasured hboth.1]

/-- Every step of a worker keeps it timed. -/
theorem Timed.step (h : w.Timed perform window start labels) (hstart : series.start = start)
    (hstep : ConnectionWorker.step perform window series w call = some (series', w', out)) :
    Passes perform window start series w labels call series' w' := by
  have hagrees := h.agrees
  cases step_move hstep with
  | ended now hpc =>
    rw [hpc] at hagrees
    exact h.turn hstart now hagrees rfl rfl rfl
  | replace now hpc hsocket =>
    rw [hpc] at hagrees
    exact h.turn hstart now hagrees rfl rfl ⟨rfl, rfl⟩
  | send now socket hpc =>
    rw [hpc] at hagrees
    exact h.turn hstart now hagrees rfl rfl ⟨rfl, rfl⟩
  | connected now hpc =>
    rw [hpc] at hagrees
    exact h.same hstart rfl rfl rfl hagrees
  | timeoutsFailed now hpc =>
    rw [hpc] at hagrees
    exact h.same hstart rfl (histogram_connectFailed window w now) rfl hagrees.1
  | refused now hpc =>
    rw [hpc] at hagrees
    exact h.same hstart rfl (histogram_connectFailed window w now) rfl hagrees.1
  | slept hpc =>
    rw [hpc] at hagrees
    exact h.same hstart rfl rfl rfl hagrees
  | timed now reply socket writer result hpc hsocket hreply hmeasured hwriter htimed =>
    rw [hpc] at hagrees
    -- the latency is known, its second is not
    have htimings : timings perform window (labels ++ [.perform reply]) =
        { timings perform window labels with awaiting := some result.elapsed } := by
      rw [timings_append, Timings.note, hreply]
      dsimp only
      rw [hagrees.2, if_pos ⟨hmeasured, htimed⟩]
    refine h.quiet hstart rfl rfl (by rw [htimings]) ?_
    rw [htimings]
    exact ⟨rfl, hmeasured, htimed⟩
  | untimed now reply socket result hpc hsocket hreply huntimed =>
    rw [hpc] at hagrees
    -- the worker has a writer, so it is the measuring or the outcome that is missing
    obtain ⟨writer, -, -, hwriter, -⟩ := h.writer
    have hneither : ¬(window.recordFrom ≤ now ∧ result.outcome.timed = true) := fun hboth =>
      huntimed ⟨hboth.1, by rw [hwriter]; rfl, hboth.2⟩
    refine h.same hstart rfl ?_ ?_ hagrees.1
    · show (finishTurn window w now socket result).tally.histogram = _
      rw [histogram_finishTurn, if_neg hneither]
    · rw [Timings.note, hreply]
      dsimp only
      rw [hagrees.2, if_neg hneither]
  | stamped now finished socket writer result hpc hsocket hwriter =>
    rw [hpc] at hagrees
    obtain ⟨hlatency, hboth⟩ := hagrees
    refine h.sample hwriter finished hlatency rfl ?_ rfl hstart
    show (finishTurn window w now socket result).tally.histogram = _
    rw [histogram_finishTurn, if_pos hboth]

end ConnectionWorker

/-! ## The run -/

/-- The per-second view and the run-wide view of some samples. -/
structure PerSecondAccounted (start : Instant) (samples : List Sample) (perSecond : List Histogram)
    (histogram : Histogram) : Prop where
  /-- Every entry is the histogram of exactly the samples of its second. -/
  entry : ∀ s < perSecond.length, perSecond[s]? = some (.recordAll
    ((samples.filter fun x => decide (InSecond start s x.finished)).map Sample.latency))
  /-- No sample lies past the last entry, -/
  within : ∀ x ∈ samples, ∃ s < perSecond.length, InSecond start s x.finished
  /-- and there is one in it. -/
  last : perSecond ≠ [] → ∃ x ∈ samples, InSecond start (perSecond.length - 1) x.finished
  /-- The entries together are the run-wide histogram. -/
  merged : Histogram.mergeAll perSecond = histogram
  whole : histogram = .recordAll (samples.map Sample.latency)

namespace ClosedLoop

variable {Reply : Type*} {perform : Reply → Option Exchange} {plan : ClosedLoopPlan}
  {started : Instant} {threads : ℕ} {schedule : List (ℕ × Call Reply)} {state : State Reply}

/-- In every state of a run with a series, each worker is timed and the series holds what all
workers have handed over. -/
theorem run_timed (htimeseries : plan.timeseries = true)
    (hrun : (spawn Reply plan started threads).run
      (ConnectionWorker.step perform (plan.window started)) schedule = some state) :
    state.shared.start = (plan.window started).recordFrom ∧
      (∀ t ∈ state.threads, t.state.Timed perform (plan.window started)
        (plan.window started).recordFrom t.labels) ∧
      state.shared.Holds (state.threads.flatMap fun t =>
        handedOver (timings perform (plan.window started) t.labels).samples t.state) := by
  -- the ledger of a worker is what it has handed over
  refine Interleaving.run_account
    (I := fun w labels _ => w.Timed perform (plan.window started) (plan.window started).recordFrom
      labels)
    (J := fun series => series.start = (plan.window started).recordFrom) (R := Holds)
    (fun w labels _ => handedOver (timings perform (plan.window started) labels).samples w)
    (fun series xs ys hholds hperm => hholds.perm hperm) ?_ rfl ?_ List.take_nil (Holds.empty _)
    hrun
  · intro series w labels past call series' w' out hstart htimed hstep
    exact htimed.step hstart hstep
  · exact
      { agrees := rfl
        histogram := rfl
        writer := ⟨{}, [], [], by rw [ConnectionWorker.make, htimeseries]; rfl, rfl, rfl,
          List.forall_mem_nil _⟩ }

/-- What a worker's writer holds back. -/
def heldBack (samples : List Sample) (w : ConnectionWorker) : List Sample :=
  samples.drop (samples.length - (w.writer.map fun writer => writer.pending.count).getD 0)

/-- Flushing a timed worker hands over what its writer holds back. -/
theorem holds_finish {window : RunWindow} {start : Instant} {series : TimeSeries}
    {w : ConnectionWorker} {labels : List (Call Reply)} {xs : List Sample}
    (htimed : w.Timed perform window start labels) (hstart : series.start = start)
    (hholds : series.Holds xs) :
    (w.finish series).1.start = start ∧
      (w.finish series).1.Holds (xs ++ heldBack (timings perform window labels).samples w) := by
  obtain ⟨writer, given, kept, hwriter, hsamples, hkeeps⟩ := htimed.writer
  have hheld : heldBack (given ++ kept) w = kept := by
    rw [heldBack, hwriter, Option.map_some, Option.getD_some, hkeeps.count_pending,
      List.length_append, Nat.add_sub_cancel, List.drop_left]
  have hfinish : (w.finish series).1 = (writer.flush series).1 := by
    rw [ConnectionWorker.finish, hwriter]
  subst hstart
  rw [hfinish, hsamples, hheld]
  exact ⟨hkeeps.flush.1, hkeeps.holds_flush hholds⟩

/-- The flushes after the join hand over what all writers hold back. -/
theorem holds_foldl_finish {window : RunWindow} {start : Instant} {series : TimeSeries}
    {xs : List Sample}
    {workers : List (Interleaving.Thread ConnectionWorker (Call Reply) ConnectionWorker.Event)}
    (htimed : ∀ t ∈ workers, t.state.Timed perform window start t.labels)
    (hstart : series.start = start) (hholds : series.Holds xs) :
    ((workers.map (·.state)).foldl (fun series w => (w.finish series).1) series).start = start ∧
      ((workers.map (·.state)).foldl (fun series w => (w.finish series).1) series).Holds
        (xs ++ workers.flatMap fun t => heldBack (timings perform window t.labels).samples t.state)
        := by
  induction workers generalizing series xs with
  | nil =>
    rw [List.flatMap_nil, List.append_nil]
    exact ⟨hstart, hholds⟩
  | cons t workers ih =>
    obtain ⟨hstart', hholds'⟩ := holds_finish (htimed t List.mem_cons_self) hstart hholds
    rw [List.flatMap_cons, ← List.append_assoc]
    exact ih (fun u hu => htimed u (List.mem_cons_of_mem _ hu)) hstart' hholds'

/-- When every worker is timed and the series holds what was handed over, the report that is
collected after the flushes accounts for all samples. -/
theorem accounted_of_timed (fl : Rounding) (resolution : Nanos)
    (hstart : state.shared.start = (plan.window started).recordFrom)
    (htimed : ∀ t ∈ state.threads, t.state.Timed perform (plan.window started)
      (plan.window started).recordFrom t.labels)
    (hshared : state.shared.Holds (state.threads.flatMap fun t =>
      handedOver (timings perform (plan.window started) t.labels).samples t.state)) :
    PerSecondAccounted (plan.window started).recordFrom
      (samples perform (plan.window started) state) (collect fl plan resolution state).perSecond
      (collect fl plan resolution state).histogram := by
  obtain ⟨hstart', hseries⟩ := holds_foldl_finish htimed hstart hshared
  -- what was handed over and what was held back are all samples
  have hsplit : ((state.threads.flatMap fun t =>
        handedOver (timings perform (plan.window started) t.labels).samples t.state) ++
      state.threads.flatMap fun t =>
        heldBack (timings perform (plan.window started) t.labels).samples t.state).Perm
      (samples perform (plan.window started) state) := by
    refine (List.flatMap_append_perm _ _ _).trans (.of_eq ?_)
    refine List.flatMap_congr fun t _ => ?_
    rw [handedOver, heldBack, List.take_append_drop]
  have hholds := hseries.perm hsplit
  -- the merged histograms of the workers are one histogram of all samples
  have hhistogram : (collect fl plan resolution state).histogram =
      .recordAll ((samples perform (plan.window started) state).map Sample.latency) := by
    have htallies : (state.threads.map (·.state)).map (·.tally.histogram) =
        state.threads.map fun t => Histogram.recordAll
          ((timings perform (plan.window started) t.labels).samples.map Sample.latency) := by
      rw [List.map_map]
      exact List.map_congr_left fun t ht => (htimed t ht).histogram
    show (Tally.mergeAll ((state.threads.map (·.state)).map (·.tally))).histogram = _
    rw [Tally.histogram_mergeAll, List.map_map, Function.comp_def, htallies,
      Histogram.mergeAll_recordAll, samples, List.map_flatMap]
  refine ⟨fun s hs => ?_, fun x hx => ?_, fun hne => ?_, ?_, hhistogram⟩
  · simp only [inSecond_iff]
    rw [← hstart']
    exact hholds.entry s hs
  · refine ⟨_, hholds.within x hx, inSecond_iff.mpr ?_⟩
    rw [hstart']
  · obtain ⟨x, hx, hlast⟩ := hholds.last hne
    rw [hstart'] at hlast
    exact ⟨x, hx, inSecond_iff.mpr (Nat.eq_sub_of_add_eq hlast)⟩
  · rw [hhistogram]
    exact hholds.mergeAll_seconds

/-- The two views of every closed-loop run with a per-second series describe the samples of its
workers, however they took turns and whatever the clock said. -/
theorem perSecond_accounted (fl : Rounding) (perform : Reply → Option Exchange) (started : Instant)
    (threads : ℕ) (resolution : Nanos) (schedule : List (ℕ × Call Reply)) (plan : ClosedLoopPlan)
    (htimeseries : plan.timeseries = true) (state : State Reply)
    (hrun : (spawn Reply plan started threads).run
      (ConnectionWorker.step perform (plan.window started)) schedule = some state) :
    PerSecondAccounted (plan.window started).recordFrom
      (samples perform (plan.window started) state) (collect fl plan resolution state).perSecond
      (collect fl plan resolution state).histogram := by
  obtain ⟨hstart, htimed, hshared⟩ := run_timed htimeseries hrun
  exact accounted_of_timed fl resolution hstart htimed hshared

/-- Two workers, one of whose readings go back across a second. -/
theorem perSecond_accounted_two_workers :
    ∃ state : State Exchange,
      (spawn Exchange { duration := 3000, timeseries := true } 0 2).run
          (ConnectionWorker.step some
            ((ClosedLoopPlan.window { duration := 3000, timeseries := true }) 0))
          [(0, .now 0), (1, .now 0), (0, .connect .connected), (1, .connect .connected),
            (0, .perform ⟨.succeeded, 5, true⟩), (1, .perform ⟨.rejected, 7, true⟩),
            (0, .now 2_100_000_000), (1, .now 400_000_000), (0, .now 1_000_000_000),
            (0, .perform ⟨.timedOut, 9, false⟩), (0, .now 999_999_999),
            (0, .now 3_000_000_000), (1, .now 3_000_000_000)] = some state ∧
        (collect .exact { duration := 3000, timeseries := true } 0 state).perSecond.map
          (·.count) = [2, 0, 1] ∧
        PerSecondAccounted 0
          (samples some ((ClosedLoopPlan.window { duration := 3000, timeseries := true }) 0) state)
          (collect .exact { duration := 3000, timeseries := true } 0 state).perSecond
          (collect .exact { duration := 3000, timeseries := true } 0 state).histogram := by
  refine Interleaving.exists_run_eq (fun state =>
    (collect .exact { duration := 3000, timeseries := true } 0 state).perSecond.map (·.count))
    [2, 0, 1] (by decide +kernel) fun state hrun hcounts => ⟨hcounts, ?_⟩
  exact perSecond_accounted .exact some 0 2 0 _ { duration := 3000, timeseries := true } rfl state
    hrun

end ClosedLoop

/-! ## The rows of the file -/

section Rows

variable {start : Instant} {samples : List Sample} {perSecond : List Histogram}
  {histogram : Histogram}

/-- `timeseries.csv` has a row for every second of a window of this length, whole or not, and
the row of a second without samples is a row of zeros. -/
def EverySecond (fl : Rounding) (duration : Nanos) (start : Instant) (samples : List Sample)
    (perSecond : List Histogram) : Prop :=
  ∀ s : ℕ, (s : ℤ) * 1_000_000_000 < duration →
    ∃ rows fields, Delimited.readTable (Csv.writeTimeseries fl perSecond) = some rows ∧
      rows[s]? = some fields ∧
      ((∀ x ∈ samples, ¬InSecond start s x.finished) → fields = [(s : ℤ), 0, 0, 0, 0, 0])

/-- A second that has a row has an entry in the series. -/
theorem EverySecond.lt_length {fl : Rounding} {duration : Nanos}
    (h : EverySecond fl duration start samples perSecond) {s : ℕ}
    (hs : (s : ℤ) * 1_000_000_000 < duration) : s < perSecond.length := by
  obtain ⟨rows, fields, hrows, hfields, -⟩ := h s hs
  rw [Csv.readTable_writeTimeseries] at hrows
  obtain rfl := Option.some.inj hrows
  rw [Csv.getElem?_secondRows] at hfields
  obtain ⟨entry, hentry, -⟩ := Option.map_eq_some_iff.mp hfields
  exact (List.getElem?_eq_some_iff.mp hentry).1

/-- The rows are as many as the entries of the series. -/
theorem PerSecondAccounted.everySecond_iff
    (h : PerSecondAccounted start samples perSecond histogram) (fl : Rounding) (duration : Nanos) :
    EverySecond fl duration start samples perSecond ↔
      ∀ s : ℕ, (s : ℤ) * 1_000_000_000 < duration → s < perSecond.length := by
  constructor
  · exact fun hrows s hs => hrows.lt_length hs
  · intro hcovers s hs
    have hentry := h.entry s (hcovers s hs)
    refine ⟨_, _, Csv.readTable_writeTimeseries fl perSecond,
      by rw [Csv.getElem?_secondRows, hentry]; rfl, fun hsilent => ?_⟩
    -- nothing was timed in this second
    have hnone : (samples.filter fun x => decide (InSecond start s x.finished)) = [] := by
      rw [List.filter_eq_nil_iff]
      intro x hx
      simpa using hsilent x hx
    rw [hnone, Nat.zero_add]
    rfl

/-- The last entry of the series is the one of the last sample. -/
theorem PerSecondAccounted.covers_iff
    (h : PerSecondAccounted start samples perSecond histogram) (duration : Nanos) :
    (∀ s : ℕ, (s : ℤ) * 1_000_000_000 < duration → s < perSecond.length) ↔
      duration ≤ 0 ∨ ∃ x ∈ samples, ∃ s : ℕ, InSecond start s x.finished ∧
        duration ≤ (s + 1) * 1_000_000_000 := by
  constructor
  · intro hcovers
    by_cases hempty : duration ≤ 0
    · exact .inl hempty
    have hfirst : 0 < perSecond.length := hcovers 0 (by lia)
    -- the last entry has a sample, and the window ends in its second or before
    obtain ⟨x, hx, hin⟩ := h.last (List.ne_nil_of_length_pos hfirst)
    refine .inr ⟨x, hx, _, hin, ?_⟩
    by_contra hlong
    exact lt_irrefl _ (hcovers perSecond.length (by lia))
  · rintro (hempty | ⟨x, hx, s, hin, hlong⟩) s' hs'
    · lia
    · -- the sample has an entry, and so has every second before it
      obtain ⟨s'', hlt, hin'⟩ := h.within x hx
      have hsame : s = s'' := (inSecond_iff.mp hin).symm.trans (inSecond_iff.mp hin')
      lia

end Rows

namespace ClosedLoop

variable {Reply : Type*}

/-- Every second of the window has its row exactly when the window is empty or some timed request
finished in its last second or later. -/
theorem every_second_iff (fl : Rounding) (perform : Reply → Option Exchange) (started : Instant)
    (threads : ℕ) (resolution : Nanos) (schedule : List (ℕ × Call Reply)) (plan : ClosedLoopPlan)
    (htimeseries : plan.timeseries = true) (state : State Reply)
    (hrun : (spawn Reply plan started threads).run
      (ConnectionWorker.step perform (plan.window started)) schedule = some state) :
    EverySecond fl plan.duration.toNanos (plan.window started).recordFrom
        (samples perform (plan.window started) state) (collect fl plan resolution state).perSecond ↔
      plan.duration.toNanos ≤ 0 ∨ ∃ x ∈ samples perform (plan.window started) state, ∃ s : ℕ,
        InSecond (plan.window started).recordFrom s x.finished ∧
          plan.duration.toNanos ≤ (s + 1) * 1_000_000_000 := by
  obtain ⟨hstart, htimed, hshared⟩ := run_timed htimeseries hrun
  have haccounted := accounted_of_timed fl resolution hstart htimed hshared
  rw [haccounted.everySecond_iff, haccounted.covers_iff]

/-- A target that answers in the first and in the last of three seconds: the silent second
between them has its row. -/
theorem every_second_iff_gap :
    ∃ state : State Exchange,
      (spawn Exchange { duration := 3000, timeseries := true } 0 1).run
          (ConnectionWorker.step some
            ((ClosedLoopPlan.window { duration := 3000, timeseries := true }) 0))
          [(0, .now 0), (0, .connect .connected), (0, .perform ⟨.succeeded, 5, true⟩),
            (0, .now 400_000_000), (0, .now 400_000_001), (0, .perform ⟨.succeeded, 5, true⟩),
            (0, .now 2_400_000_000), (0, .now 3_000_000_000)] = some state ∧
        (EverySecond .exact 3_000_000_000 0
          (samples some ((ClosedLoopPlan.window { duration := 3000, timeseries := true }) 0) state)
          (collect .exact { duration := 3000, timeseries := true } 0 state).perSecond ↔
            (3_000_000_000 : ℤ) ≤ 0 ∨ ∃ x ∈ samples some
              ((ClosedLoopPlan.window { duration := 3000, timeseries := true }) 0) state, ∃ s : ℕ,
                InSecond 0 s x.finished ∧ 3_000_000_000 ≤ ((s : ℤ) + 1) * 1_000_000_000) := by
  refine Interleaving.exists_run_eq (fun _ => ()) () (by decide +kernel) fun state hrun _ => ?_
  exact every_second_iff .exact some 0 1 0 _ { duration := 3000, timeseries := true } rfl state hrun

/-- A target that answers once and then refuses every connect until the run is over: three
seconds, and one row. -/
theorem outage_has_no_rows :
    ∃ state : State Exchange,
      (spawn Exchange { duration := 3000, timeseries := true } 0 1).run
          (ConnectionWorker.step some
            ((ClosedLoopPlan.window { duration := 3000, timeseries := true }) 0))
          [(0, .now 0), (0, .connect .connected), (0, .perform ⟨.succeeded, 5, true⟩),
            (0, .now 400_000_000), (0, .now 400_000_001), (0, .perform ⟨.readFailed, 0, false⟩),
            (0, .now 900_000_000), (0, .connect .refused), (0, .sleepFor),
            (0, .now 1_500_000_000), (0, .connect .refused), (0, .sleepFor),
            (0, .now 2_500_000_000), (0, .connect .refused), (0, .sleepFor),
            (0, .now 3_000_000_000)] = some state ∧
        (∀ t ∈ state.threads, t.state.pc = .returned) ∧
        (collect .exact { duration := 3000, timeseries := true } 0 state).perSecond.map
          (·.count) = [1] ∧
        ¬EverySecond .exact 3_000_000_000 0
          (samples some ((ClosedLoopPlan.window { duration := 3000, timeseries := true }) 0) state)
          (collect .exact { duration := 3000, timeseries := true } 0 state).perSecond := by
  refine Interleaving.exists_run_eq (fun state => (state.threads.map (·.state.pc),
    (collect .exact { duration := 3000, timeseries := true } 0 state).perSecond.map (·.count)))
    ([.returned], [1]) (by decide +kernel) fun state _ hcomputed => ?_
  obtain ⟨hreturned, hseries⟩ := Prod.mk.inj hcomputed
  refine ⟨fun t ht => ?_, hseries, fun hrows => ?_⟩
  · have hpc : t.state.pc ∈ state.threads.map (·.state.pc) := List.mem_map_of_mem ht
    rw [hreturned] at hpc
    exact List.mem_singleton.mp hpc
  · -- second one has no entry
    have hlt := hrows.lt_length (s := 1) (by decide)
    have hlength := congrArg List.length hseries
    rw [List.length_map] at hlength
    rw [hlength] at hlt
    exact lt_irrefl _ hlt

end ClosedLoop

end Dariyanaap

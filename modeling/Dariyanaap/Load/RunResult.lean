import Dariyanaap.Load.Exchange
import Dariyanaap.Stats.Summary

/-!
# Accounting for requests

`ErrorCounts` and `RunResult` (`load/run_result.hpp`), and the part of a worker that feeds
them. Both loops keep the same three members, a histogram, the error counters and the number
of attempts, update them in the same way and merge them field by field after the join; here
they are one record, the `Tally`.

The specification of a tally is the list of attempts it was told about: `Counts t attempts`
says every counter is the count of its kind of attempt. Booking an attempt and merging keep
it, and `Counts.accounted` reads the accounting identity off it.
-/

namespace Dariyanaap

/-- The six ways a request can fail, counted apart. -/
structure ErrorCounts where
  connect : ℕ := 0
  write : ℕ := 0
  read : ℕ := 0
  timeout : ℕ := 0
  protocol : ℕ := 0
  rejected : ℕ := 0
  deriving DecidableEq

namespace ErrorCounts

/-- `ErrorCounts::total`. -/
def total (errors : ErrorCounts) : ℕ :=
  errors.connect + errors.write + errors.read + errors.timeout + errors.protocol +
    errors.rejected

/-- `ErrorCounts::merge`. -/
def merge (errors other : ErrorCounts) : ErrorCounts where
  connect := errors.connect + other.connect
  write := errors.write + other.write
  read := errors.read + other.read
  timeout := errors.timeout + other.timeout
  protocol := errors.protocol + other.protocol
  rejected := errors.rejected + other.rejected

end ErrorCounts

/-- Everything one run produced. -/
structure RunResult where
  attempted : ℕ := 0
  errors : ErrorCounts := {}
  latency : Option Summary := none
  duration : Nanos := 0

namespace RunResult

/-- Requests that reached the histogram. -/
def timed (result : RunResult) : ℕ :=
  match result.latency with
  | some summary => summary.samples
  | none => 0

/-- Failures with no reply to time. -/
def untimed (result : RunResult) : ℕ :=
  result.errors.connect + result.errors.write + result.errors.read + result.errors.protocol

/-- `RunResult::consistent`: does the accounting add up? -/
def consistent (result : RunResult) : Bool :=
  result.attempted == result.timed + result.untimed

end RunResult

/-- What the accounting of a run promises: nothing that was attempted is missing from its
report, and its histogram holds the successes, the rejections and the timeouts. -/
structure Accounted (result : RunResult) (histogram : Histogram) (successes : ℕ) : Prop where
  consistent : result.consistent = true
  timed : result.timed = histogram.count
  attempted : result.attempted = histogram.count + result.errors.connect + result.errors.write +
    result.errors.read + result.errors.protocol
  samples : histogram.count = successes + result.errors.rejected + result.errors.timeout

/-! ## What a worker keeps -/

/-- The accounting members of a worker, and of a run once merged. -/
structure Tally where
  histogram : Histogram := .empty
  errors : ErrorCounts := {}
  attempted : ℕ := 0

namespace Tally

/-- An attempt that ended at the connect. -/
def connectFailed (t : Tally) : Tally :=
  { t with
    attempted := t.attempted + 1
    errors := { t.errors with connect := t.errors.connect + 1 } }

/-- The `switch` of both loops over the outcome of an exchange. -/
def classify (t : Tally) (latency : Nanos) : Outcome → Tally
  | .succeeded => { t with histogram := t.histogram.record latency }
  | .rejected =>
      { t with
        errors := { t.errors with rejected := t.errors.rejected + 1 }
        histogram := t.histogram.record latency }
  | .timedOut =>
      { t with
        errors := { t.errors with timeout := t.errors.timeout + 1 }
        histogram := t.histogram.record latency }
  | .protocolError => { t with errors := { t.errors with protocol := t.errors.protocol + 1 } }
  | .readFailed => { t with errors := { t.errors with read := t.errors.read + 1 } }
  | .writeFailed => { t with errors := { t.errors with write := t.errors.write + 1 } }

/-- An attempt that got as far as an exchange. -/
def exchanged (t : Tally) (latency : Nanos) (outcome : Outcome) : Tally :=
  classify { t with attempted := t.attempted + 1 } latency outcome

/-- The three merges of both runs. -/
def merge (t other : Tally) : Tally where
  histogram := t.histogram.merge other.histogram
  errors := t.errors.merge other.errors
  attempted := t.attempted + other.attempted

/-- What a run reports about its merged tally. -/
def result (fl : Rounding) (t : Tally) (duration : Nanos) : RunResult where
  attempted := t.attempted
  errors := t.errors
  latency := Summary.of fl t.histogram duration
  duration := duration

end Tally

/-! ## The attempts behind a tally -/

/-- One attempt to complete a request, as the accounting sees it. -/
inductive Attempt where
  | connectFailed
  | exchanged (outcome : Outcome) (latency : Nanos)
  deriving DecidableEq

namespace Attempt

/-- No connection was had. -/
@[simp]
def refused : Attempt → Bool
  | .connectFailed => true
  | .exchanged .. => false

/-- The exchange ended in `outcome`. -/
@[simp]
def ended (outcome : Outcome) : Attempt → Bool
  | .connectFailed => false
  | .exchanged outcome' _ => outcome' == outcome

/-- The latency the attempt puts in the histogram, if it does. -/
def sample : Attempt → Option Nanos
  | .connectFailed => none
  | .exchanged outcome latency => if outcome.timed then some latency else none

/-- Every attempt is timed, or is one of the four failures with nothing to time. -/
theorem length_eq (attempts : List Attempt) :
    attempts.length = (attempts.filterMap sample).length +
      (attempts.countP refused + attempts.countP (ended .writeFailed) +
        attempts.countP (ended .readFailed) + attempts.countP (ended .protocolError)) := by
  induction attempts with
  | nil => rfl
  | cons attempt attempts ih =>
    rcases attempt with _ | ⟨outcome, latency⟩
    · simp only [List.length_cons, List.filterMap_cons, List.countP_cons, sample, refused, ended,
        ih, if_true, if_false, Bool.false_eq_true]
      omega
    -- each outcome is counted on exactly one side
    · cases outcome <;> simp [sample, Outcome.timed, ih] <;> omega

/-- The timed attempts are the successes, the rejections and the timeouts. -/
theorem length_samples (attempts : List Attempt) :
    (attempts.filterMap sample).length =
      attempts.countP (ended .succeeded) + attempts.countP (ended .rejected) +
        attempts.countP (ended .timedOut) := by
  induction attempts with
  | nil => rfl
  | cons attempt attempts ih =>
    rcases attempt with _ | ⟨outcome, latency⟩
    · simpa [List.filterMap_cons, List.countP_cons, sample] using ih
    · cases outcome <;> simp [sample, Outcome.timed, ih] <;> omega

end Attempt

namespace Tally

/-- Book one attempt. -/
def book (t : Tally) : Attempt → Tally
  | .connectFailed => t.connectFailed
  | .exchanged outcome latency => t.exchanged latency outcome

/-- The tally of a worker that made these attempts. -/
def ofAttempts (attempts : List Attempt) : Tally := attempts.foldl book {}

@[simp]
theorem ofAttempts_append_singleton (attempts : List Attempt) (attempt : Attempt) :
    ofAttempts (attempts ++ [attempt]) = (ofAttempts attempts).book attempt := by
  simp [ofAttempts]

/-- Every counter is the count of its kind of attempt. -/
structure Counts (t : Tally) (attempts : List Attempt) : Prop where
  attempted : t.attempted = attempts.length
  connect : t.errors.connect = attempts.countP Attempt.refused
  write : t.errors.write = attempts.countP (Attempt.ended .writeFailed)
  read : t.errors.read = attempts.countP (Attempt.ended .readFailed)
  timeout : t.errors.timeout = attempts.countP (Attempt.ended .timedOut)
  protocol : t.errors.protocol = attempts.countP (Attempt.ended .protocolError)
  rejected : t.errors.rejected = attempts.countP (Attempt.ended .rejected)
  samples : t.histogram.count = (attempts.filterMap Attempt.sample).length

variable {t other : Tally} {attempts attempts' : List Attempt}

/-- A tally that was told nothing counts nothing. -/
theorem Counts.nil : Counts {} [] := ⟨rfl, rfl, rfl, rfl, rfl, rfl, rfl, rfl⟩

/-- What one attempt does to a tally: it moves the counter of its kind, and the histogram if it
has a sample. -/
theorem book_moves (t : Tally) (attempt : Attempt) :
    (t.book attempt).attempted = t.attempted + 1 ∧
      (t.book attempt).errors =
        { connect := t.errors.connect + if attempt.refused then 1 else 0
          write := t.errors.write + if attempt.ended .writeFailed then 1 else 0
          read := t.errors.read + if attempt.ended .readFailed then 1 else 0
          timeout := t.errors.timeout + if attempt.ended .timedOut then 1 else 0
          protocol := t.errors.protocol + if attempt.ended .protocolError then 1 else 0
          rejected := t.errors.rejected + if attempt.ended .rejected then 1 else 0 } ∧
      (t.book attempt).histogram.count = t.histogram.count + attempt.sample.toList.length := by
  rcases attempt with _ | ⟨outcome, latency⟩
  · exact ⟨rfl, rfl, rfl⟩
  -- the six cases of `classify`, three of which record the latency
  · cases outcome with
    | succeeded | rejected | timedOut => exact ⟨rfl, rfl, t.histogram.count_record latency⟩
    | protocolError | readFailed | writeFailed => exact ⟨rfl, rfl, rfl⟩

/-- Booking an attempt counts that attempt. -/
theorem Counts.book (h : t.Counts attempts) (attempt : Attempt) :
    (t.book attempt).Counts (attempts ++ [attempt]) := by
  obtain ⟨hattempted, herrors, hcount⟩ := t.book_moves attempt
  have hmoved : ∀ p : Attempt → Bool, (attempts ++ [attempt]).countP p =
      attempts.countP p + if p attempt then 1 else 0 := by
    intro p
    rw [List.countP_append, List.countP_singleton]
  have hsampled : (attempts ++ [attempt]).filterMap Attempt.sample =
      attempts.filterMap Attempt.sample ++ attempt.sample.toList := by
    rw [List.filterMap_append]
    cases hsample : attempt.sample <;> simp [hsample]
  exact
    { attempted := by rw [hattempted, h.attempted, List.length_append, List.length_singleton]
      connect := by rw [herrors, hmoved, ← h.connect]
      write := by rw [herrors, hmoved, ← h.write]
      read := by rw [herrors, hmoved, ← h.read]
      timeout := by rw [herrors, hmoved, ← h.timeout]
      protocol := by rw [herrors, hmoved, ← h.protocol]
      rejected := by rw [herrors, hmoved, ← h.rejected]
      samples := by rw [hcount, hsampled, List.length_append, ← h.samples] }

/-- Merging counts the attempts of both. -/
theorem Counts.merge (h : t.Counts attempts) (h' : other.Counts attempts') :
    (t.merge other).Counts (attempts ++ attempts') where
  attempted := by simp [Tally.merge, h.attempted, h'.attempted]
  connect := by simp [Tally.merge, ErrorCounts.merge, h.connect, h'.connect]
  write := by simp [Tally.merge, ErrorCounts.merge, h.write, h'.write]
  read := by simp [Tally.merge, ErrorCounts.merge, h.read, h'.read]
  timeout := by simp [Tally.merge, ErrorCounts.merge, h.timeout, h'.timeout]
  protocol := by simp [Tally.merge, ErrorCounts.merge, h.protocol, h'.protocol]
  rejected := by simp [Tally.merge, ErrorCounts.merge, h.rejected, h'.rejected]
  samples := by simp [Tally.merge, Histogram.merge, h.samples, h'.samples]

/-- A worker's tally counts its attempts. -/
theorem counts_ofAttempts (attempts : List Attempt) : (ofAttempts attempts).Counts attempts := by
  induction attempts using List.reverseRecOn with
  | nil => exact .nil
  | append_singleton attempts attempt ih =>
    rw [ofAttempts_append_singleton]
    exact ih.book attempt

/-- A worker's histogram is the one of the samples of its attempts. -/
theorem histogram_ofAttempts (attempts : List Attempt) :
    (ofAttempts attempts).histogram = .recordAll (attempts.filterMap Attempt.sample) := by
  induction attempts using List.reverseRecOn with
  | nil => rfl
  | append_singleton attempts attempt ih =>
    rw [ofAttempts_append_singleton, List.filterMap_append, Histogram.recordAll,
      List.foldl_append, ← Histogram.recordAll, ← ih]
    rcases attempt with _ | ⟨outcome, latency⟩
    · rfl
    · cases outcome <;> rfl

/-! ## Merging the workers of a run -/

/-- The tallies of all workers, merged one after the other. -/
def mergeAll (tallies : List Tally) : Tally := tallies.foldl merge {}

theorem mergeAll_append_singleton (tallies : List Tally) (t : Tally) :
    mergeAll (tallies ++ [t]) = (mergeAll tallies).merge t := by
  simp [mergeAll]

/-- The merged histogram is the merge of the histograms. -/
theorem histogram_mergeAll (tallies : List Tally) :
    (mergeAll tallies).histogram = .mergeAll (tallies.map (·.histogram)) := by
  induction tallies using List.reverseRecOn with
  | nil => rfl
  | append_singleton tallies t ih =>
    rw [mergeAll_append_singleton, List.map_append, List.map_singleton,
      Histogram.mergeAll_append_singleton, merge, ih]

/-- Merging all workers counts the attempts of all of them. -/
theorem Counts.mergeAll {α : Type*} {workers : List α} {tally : α → Tally}
    {made : α → List Attempt} (h : ∀ w ∈ workers, (tally w).Counts (made w)) :
    (Tally.mergeAll (workers.map tally)).Counts (workers.flatMap made) := by
  induction workers using List.reverseRecOn with
  | nil => exact .nil
  | append_singleton workers w ih =>
    rw [List.map_append, List.map_singleton, mergeAll_append_singleton, List.flatMap_append,
      List.flatMap_singleton]
    have hw := h w (by simp)
    exact (ih fun v hv => h v (by simp [hv])).merge hw

/-- So merging the tallies of workers counts what all of them attempted. -/
theorem counts_mergeAll {α : Type*} {workers : List α} {tally : α → Tally}
    {made : α → List Attempt} (h : ∀ w ∈ workers, tally w = .ofAttempts (made w)) :
    (Tally.mergeAll (workers.map tally)).Counts (workers.flatMap made) := by
  refine Counts.mergeAll fun w hw => ?_
  rw [h w hw]
  exact counts_ofAttempts _

/-- What the report times is what the histogram holds, the absent summary included. -/
theorem timed_result (fl : Rounding) (t : Tally) (duration : Nanos) :
    (t.result fl duration).timed = t.histogram.count := by
  rw [RunResult.timed, result, Summary.of]
  by_cases hne : t.histogram.count = 0
  -- no samples: the summary is absent, and is read as zero
  · rw [if_pos hne, hne]
  · obtain ⟨p50, h50⟩ := Histogram.exists_percentile fl hne (fl 50)
    obtain ⟨p90, h90⟩ := Histogram.exists_percentile fl hne (fl 90)
    obtain ⟨p99, h99⟩ := Histogram.exists_percentile fl hne (fl 99)
    obtain ⟨p999, h999⟩ := Histogram.exists_percentile fl hne (fl (999 / 10))
    rw [if_neg hne, h50, h90, h99, h999]
    rfl

/-- A tally that counts its attempts reports them all. -/
theorem Counts.accounted (h : t.Counts attempts) (fl : Rounding) (duration : Nanos) :
    Accounted (t.result fl duration) t.histogram (attempts.countP (Attempt.ended .succeeded)) := by
  have hsum : t.attempted = t.histogram.count + (t.errors.connect + t.errors.write +
      t.errors.read + t.errors.protocol) := by
    rw [h.attempted, h.samples, h.connect, h.write, h.read, h.protocol]
    exact Attempt.length_eq attempts
  constructor
  · rw [RunResult.consistent, timed_result, beq_iff_eq]
    exact hsum
  · exact timed_result fl t duration
  · change t.attempted = _ + t.errors.connect + t.errors.write + t.errors.read + t.errors.protocol
    omega
  · change _ = _ + t.errors.rejected + t.errors.timeout
    rw [h.samples, h.rejected, h.timeout]
    exact Attempt.length_samples attempts

end Tally

end Dariyanaap

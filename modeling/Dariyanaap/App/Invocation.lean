import Dariyanaap.App.Flags
import Dariyanaap.Core.Endpoint
import Dariyanaap.Load.ClosedLoop
import Dariyanaap.Load.Http
import Dariyanaap.Load.OpenLoop

/-!
# Invocations

`main` of the load generator (`apps/dariyanaap.cpp`) up to the run: it reads the flags, refuses
what it refuses and calls one of the two loops with a plan. A number is cast to a signed one and
becomes a duration, which the loops convert to nanoseconds; only the number of connections and
the duration are checked.

`accepted_real_iff` says which of the invocations that are accepted describe a run at all.
-/

namespace Dariyanaap

/-- `WorkerConfig`. -/
structure WorkerConfig where
  connectTimeout : Millis := 1000
  readTimeout : Millis := 1000
  writeTimeout : Millis := 1000
  reconnectDelay : Millis := 100
  readBufferBytes : ℕ := 16 * 1024

namespace Cli

/-- What `main` has read before it chooses a loop. -/
structure Configured where
  flags : Flags
  target : Endpoint
  plan : ClosedLoopPlan
  worker : WorkerConfig
  protocol : Protocol

/-- The call of `run_closed_loop` or of `run_open_loop`. -/
inductive Run where
  | closedLoop (configured : Configured)
  | openLoop (configured : Configured) (plan : OpenLoopPlan)

/-- What `main` does. -/
inductive Invocation where
  | help
  | run (run : Run)

/-- The text of a `UsageError`, that of a rate still unprinted. -/
inductive Refusal where
  | usage (e : UsageError)
  | rate (e : RateError)
  deriving DecidableEq

/-- The flags `main` knows. -/
def known : List Text :=
  ["target".toList, "connections".toList, "duration".toList, "warmup".toList, "protocol".toList,
    "payload".toList, "path".toList, "read-timeout".toList, "connect-timeout".toList,
    "csv-dir".toList, "rate".toList, "timeseries".toList]

/-- `Millis(static_cast<int64_t>(number))`. -/
@[irreducible]
def asMillis (number : ℕ) : Millis := (number : ℤ).bmod (2 ^ 64)

/-- The protocol by its name. -/
def makeProtocol (flags : Flags) (target : Endpoint) : Except UsageError Protocol :=
  let name := flags.text "protocol".toList "raw".toList
  if name = "raw".toList then do
    let payload ← flags.number "payload".toList 64
    RawEcho.make payload
  else if name = "http".toList then
    Http11Get.make target.host (flags.text "path".toList "/".toList)
  else throw ⟨"--protocol must be raw or http, got \"".toList ++ name ++ "\"".toList⟩

/-- The numbers `main` reads for its plan. -/
structure Numbers where
  connections : ℕ
  duration : ℕ
  warmup : ℕ
  readTimeout : ℕ
  connectTimeout : ℕ
  timeseries : ℕ

/-- The numbers, with their defaults. -/
def readNumbers (flags : Flags) : Except UsageError Numbers := do
  let connections ← flags.number "connections".toList 1
  let duration ← flags.number "duration".toList 10_000
  let warmup ← flags.number "warmup".toList 0
  let readTimeout ← flags.number "read-timeout".toList 1000
  let connectTimeout ← flags.number "connect-timeout".toList 1000
  let timeseries ← flags.number "timeseries".toList 0
  return ⟨connections, duration, warmup, readTimeout, connectTimeout, timeseries⟩

/-- The plan of some numbers. -/
def Numbers.plan (numbers : Numbers) : ClosedLoopPlan where
  connections := numbers.connections
  duration := asMillis numbers.duration
  warmup := asMillis numbers.warmup
  timeseries := numbers.timeseries != 0

/-- The configuration of its workers. -/
def Numbers.worker (numbers : Numbers) : WorkerConfig where
  connectTimeout := asMillis numbers.connectTimeout
  readTimeout := asMillis numbers.readTimeout
  writeTimeout := asMillis numbers.readTimeout

/-- The first part of `main`: everything but the rate. -/
def configure (args : List Text) : Except UsageError Configured := do
  let flags ← Flags.parse args known
  if ¬flags.has "target".toList then throw ⟨"--target is required".toList⟩
  let target ← (Endpoint.parse (flags.text "target".toList [])).mapError (·.toUsageError)
  let numbers ← readNumbers flags
  -- the other numbers are taken as they are
  if numbers.plan.connections = 0 then throw ⟨"--connections must be at least 1".toList⟩
  if numbers.plan.duration ≤ 0 then throw ⟨"--duration must be at least 1ms".toList⟩
  let protocol ← makeProtocol flags target
  return ⟨flags, target, numbers.plan, numbers.worker, protocol⟩

/-- The choice of the loop. -/
def choose (fl : Rounding) (configured : Configured) : Except Refusal Run :=
  if ¬configured.flags.has "rate".toList then .ok (.closedLoop configured)
  else
    match configured.flags.real fl "rate".toList 1000 with
    | .error e => .error (.usage e)
    | .ok offered =>
        -- the rate checks itself
        match Rate.perSecond offered with
        | .error e => .error (.rate e)
        | .ok rate =>
            .ok (.openLoop configured
              { rate := rate
                connections := configured.plan.connections
                duration := configured.plan.duration
                warmup := configured.plan.warmup })

/-- `main`, of the arguments after the program's name. -/
def main (fl : Rounding) (args : List Text) : Except Refusal Invocation :=
  if Flags.wantsHelp args then .ok .help
  else
    match configure args with
    | .error e => .error (.usage e)
    | .ok configured => (choose fl configured).map .run

/-! ## Real runs -/

namespace Run

/-- What was read, whichever loop is called. -/
def configured : Run → Configured
  | closedLoop configured => configured
  | openLoop configured _ => configured

/-- The two durations of the plan that is passed on. -/
def warmup : Run → Millis
  | closedLoop configured => configured.plan.warmup
  | openLoop _ plan => plan.warmup

def duration : Run → Millis
  | closedLoop configured => configured.plan.duration
  | openLoop _ plan => plan.duration

/-- The window the loop computes. -/
def window (started : Instant) : Run → RunWindow
  | closedLoop configured => configured.plan.window started
  | openLoop _ plan => plan.window started

end Run

/-- The warm-up of the run, if there is one. -/
def Invocation.warmup : Invocation → Option Millis
  | help => none
  | run r => some r.warmup

/-- An invocation with a warm-up runs. -/
theorem exists_run {x : Except Refusal Invocation} (warmup : Millis)
    (h : x.toOption.bind Invocation.warmup = some warmup) :
    ∃ run : Run, x = .ok (.run run) ∧ run.warmup = warmup := by
  rcases x with e | (_ | run)
  · cases h
  · cases h
  · exact ⟨run, rfl, Option.some.inj h⟩

/-- A value of an `int64_t`. -/
def Fits (value : ℤ) : Prop := -2 ^ 63 ≤ value ∧ value < 2 ^ 63

/-- A window that lies in the future of a start and is computed within 64 bits. -/
structure Computed (started : Instant) (run : Run) : Prop where
  warmup : Fits run.warmup.toNanos
  recordFrom : Fits (run.window started).recordFrom
  duration : Fits run.duration.toNanos
  deadline : Fits (run.window started).deadline
  begins : started ≤ (run.window started).recordFrom
  ends : (run.window started).recordFrom < (run.window started).deadline

/-- A run that can take place. -/
structure Run.Real (run : Run) : Prop where
  warmup : 0 ≤ run.warmup
  duration : 0 < run.duration
  readTimeout : 0 < run.configured.worker.readTimeout
  writeTimeout : 0 < run.configured.worker.writeTimeout
  connectTimeout : 0 < run.configured.worker.connectTimeout
  computed : ∀ started, 0 ≤ started → started ≤ 2 ^ 62 → Computed started run

/-- Windows of less than 2^62 ns together, and timeouts that a signed number of milliseconds can
be. -/
structure Numbers.Modest (numbers : Numbers) : Prop where
  window : (numbers.warmup + numbers.duration) * 1_000_000 < 2 ^ 62
  readTimeout : 0 < numbers.readTimeout ∧ numbers.readTimeout < 2 ^ 63
  connectTimeout : 0 < numbers.connectTimeout ∧ numbers.connectTimeout < 2 ^ 63

/-- A computation that goes on has not thrown before. -/
theorem bind_ok {ε α β : Type} {m : Except ε α} {next : α → Except ε β} {b : β}
    (h : (m >>= next) = .ok b) : ∃ a, m = .ok a ∧ next a = .ok b := by
  rcases m with e | a
  · cases h
  · exact ⟨a, rfl, h⟩

theorem refuse_ok {ε β : Type} {p : Prop} [Decidable p] {e : ε} {next : Unit → Except ε β} {b : β}
    (h : (if p then throw e >>= next else next ()) = .ok b) : ¬p ∧ next () = .ok b := by
  by_cases hp : p
  · rw [if_pos hp] at h
    cases h
  · rw [if_neg hp] at h
    exact ⟨hp, h⟩

/-- What the first part of `main` has read and checked when it goes on. -/
theorem configure_ok {args : List Text} {configured : Configured}
    (h : configure args = .ok configured) :
    ∃ numbers, Flags.parse args known = .ok configured.flags ∧
      readNumbers configured.flags = .ok numbers ∧ configured.plan = numbers.plan ∧
      configured.worker = numbers.worker ∧ 0 < numbers.plan.duration := by
  unfold configure at h
  obtain ⟨flags, hflags, h⟩ := bind_ok h
  obtain ⟨-, h⟩ := refuse_ok h
  obtain ⟨target, -, h⟩ := bind_ok h
  obtain ⟨numbers, hnumbers, h⟩ := bind_ok h
  obtain ⟨-, h⟩ := refuse_ok h
  obtain ⟨hduration, h⟩ := refuse_ok h
  obtain ⟨protocol, -, h⟩ := bind_ok h
  obtain rfl := Except.ok.inj h
  exact ⟨numbers, hflags, hnumbers, rfl, rfl, not_le.mp hduration⟩

/-- Numbers of 64 bits. -/
structure Numbers.Bounded (numbers : Numbers) : Prop where
  duration : numbers.duration ≤ uint64Max
  warmup : numbers.warmup ≤ uint64Max
  readTimeout : numbers.readTimeout ≤ uint64Max
  connectTimeout : numbers.connectTimeout ≤ uint64Max

/-- Every number that is read fits 64 bits. -/
theorem bounded_of_readNumbers {flags : Flags} {numbers : Numbers}
    (h : readNumbers flags = .ok numbers) : numbers.Bounded := by
  unfold readNumbers at h
  obtain ⟨connections, -, h⟩ := bind_ok h
  obtain ⟨duration, hduration, h⟩ := bind_ok h
  obtain ⟨warmup, hwarmup, h⟩ := bind_ok h
  obtain ⟨readTimeout, hread, h⟩ := bind_ok h
  obtain ⟨connectTimeout, hconnect, h⟩ := bind_ok h
  obtain ⟨timeseries, -, h⟩ := bind_ok h
  obtain rfl := Except.ok.inj h
  -- so does every default
  have hfits : ∀ fallback ≤ 10_000, fallback ≤ uint64Max := fun fallback hle =>
    hle.trans (by norm_num [uint64Max])
  exact
    { duration := Flags.number_le (hfits _ (by norm_num)) hduration
      warmup := Flags.number_le (hfits _ (by norm_num)) hwarmup
      readTimeout := Flags.number_le (hfits _ (by norm_num)) hread
      connectTimeout := Flags.number_le (hfits _ (by norm_num)) hconnect }

/-- The loop that is chosen gets the durations that were read. -/
theorem choose_ok {fl : Rounding} {configured : Configured} {run : Run}
    (h : choose fl configured = .ok run) :
    run.configured = configured ∧ run.warmup = configured.plan.warmup ∧
      run.duration = configured.plan.duration := by
  unfold choose at h
  split at h
  · cases h
    exact ⟨rfl, rfl, rfl⟩
  · split at h
    · cases h
    · split at h
      · cases h
      · cases h
        exact ⟨rfl, rfl, rfl⟩

/-- A run is what the loop was chosen for. -/
theorem main_run {fl : Rounding} {args : List Text} {run : Run}
    (h : main fl args = .ok (.run run)) : ∃ configured, configure args = .ok configured ∧
      choose fl configured = .ok run := by
  unfold main at h
  split at h
  · cases h
  · split at h
    · cases h
    · next configured hconfigured =>
      refine ⟨configured, hconfigured, ?_⟩
      rcases hchoose : choose fl configured with e | chosen
      · rw [hchoose] at h
        cases h
      · rw [hchoose] at h
        cases h
        rfl

/-- Both loops compute their window in the same way. -/
theorem Run.window_eq (run : Run) (started : Instant) :
    run.window started = ⟨started + run.warmup.toNanos,
      started + run.warmup.toNanos + run.duration.toNanos⟩ := by
  rcases run with configured | ⟨configured, plan⟩
  · rfl
  · rfl

/-- A number below 2^63 is that many milliseconds. -/
theorem asMillis_of_lt {number : ℕ} (hsmall : number < 2 ^ 63) : asMillis number = number := by
  unfold asMillis
  apply Int.bmod_eq_of_le
  · norm_num
  · norm_num
    omega

/-- A larger one comes out negative. -/
theorem asMillis_neg {number : ℕ} (hnumber : number ≤ uint64Max) (hlarge : 2 ^ 63 ≤ number) :
    asMillis number < 0 := by
  have hmax : uint64Max = 18_446_744_073_709_551_615 := by norm_num [uint64Max]
  have hwrapped : ((number : ℤ) - (2 ^ 64 : ℕ)).bmod (2 ^ 64) = (number : ℤ) - (2 ^ 64 : ℕ) := by
    apply Int.bmod_eq_of_le
    · norm_num
      omega
    · norm_num
      omega
  have hvalue : asMillis number = (number : ℤ) - (2 ^ 64 : ℕ) := by
    unfold asMillis
    rw [← hwrapped, Int.sub_bmod_right]
  rw [hvalue]
  push_cast
  lia

theorem asMillis_nonneg_iff {number : ℕ} (hnumber : number ≤ uint64Max) :
    0 ≤ asMillis number ↔ number < 2 ^ 63 := by
  constructor
  · intro hnonneg
    by_contra hlarge
    exact (asMillis_neg hnumber (not_lt.mp hlarge)).not_ge hnonneg
  · intro hsmall
    rw [asMillis_of_lt hsmall]
    exact Int.natCast_nonneg number

theorem asMillis_pos_iff {number : ℕ} (hnumber : number ≤ uint64Max) :
    0 < asMillis number ↔ 0 < number ∧ number < 2 ^ 63 := by
  constructor
  · intro hpos
    have hsmall := (asMillis_nonneg_iff hnumber).mp hpos.le
    rw [asMillis_of_lt hsmall] at hpos
    exact ⟨Int.natCast_pos.mp hpos, hsmall⟩
  · rintro ⟨hpos, hsmall⟩
    rw [asMillis_of_lt hsmall]
    exact Int.natCast_pos.mpr hpos

section Real

variable {run : Run} {numbers : Numbers}

/-- A run that can take place was asked for with modest numbers. -/
theorem Run.Real.modest (h : run.Real) (hwarmup : run.warmup = asMillis numbers.warmup)
    (hduration : run.duration = asMillis numbers.duration)
    (hworker : run.configured.worker = numbers.worker) (hbounded : numbers.Bounded) :
    numbers.Modest := by
  have hread := h.readTimeout
  have hconnect := h.connectTimeout
  rw [hworker] at hread hconnect
  refine ⟨?_, (asMillis_pos_iff hbounded.readTimeout).mp hread,
    (asMillis_pos_iff hbounded.connectTimeout).mp hconnect⟩
  -- the latest start leaves 2^62 ns for both parts of the window
  have hwarmup_nonneg := h.warmup
  have hduration_pos := h.duration
  rw [hwarmup] at hwarmup_nonneg
  rw [hduration] at hduration_pos
  have hdeadline := (h.computed (2 ^ 62) (by norm_num) le_rfl).deadline.2
  rw [Run.window_eq, hwarmup, hduration,
    asMillis_of_lt ((asMillis_nonneg_iff hbounded.warmup).mp hwarmup_nonneg),
    asMillis_of_lt ((asMillis_pos_iff hbounded.duration).mp hduration_pos).2] at hdeadline
  simp only [Millis.toNanos] at hdeadline
  omega

/-- Modest numbers make a run that can take place, once the duration is checked. -/
theorem Numbers.Modest.real (h : numbers.Modest) (hwarmup : run.warmup = asMillis numbers.warmup)
    (hduration : run.duration = asMillis numbers.duration)
    (hworker : run.configured.worker = numbers.worker) (hpositive : 0 < run.duration)
    (hbounded : numbers.Bounded) : run.Real := by
  have hwindow := h.window
  have hread := (asMillis_pos_iff hbounded.readTimeout).mpr h.readTimeout
  have hconnect := (asMillis_pos_iff hbounded.connectTimeout).mpr h.connectTimeout
  rw [asMillis_of_lt (by omega)] at hwarmup hduration
  rw [hduration] at hpositive
  constructor
  · rw [hwarmup]
    exact Int.natCast_nonneg _
  · rw [hduration]
    exact hpositive
  · rw [hworker]
    exact hread
  · rw [hworker]
    exact hread
  · rw [hworker]
    exact hconnect
  · intro started hstart hlatest
    -- every sum of the window stays below 2^63 ns
    have hcomputed := Run.window_eq run started
    rw [hwarmup, hduration] at hcomputed
    constructor
    · rw [hwarmup, Fits, Millis.toNanos]
      omega
    · rw [hcomputed, Fits, Millis.toNanos]
      lia
    · rw [hduration, Fits, Millis.toNanos]
      omega
    · rw [hcomputed, Fits, Millis.toNanos, Millis.toNanos]
      lia
    · rw [hcomputed, Millis.toNanos]
      lia
    · rw [hcomputed, Millis.toNanos, Millis.toNanos]
      lia

end Real

/-- An invocation that is accepted describes a run that can take place exactly when the window
it asks for and its timeouts are modest. -/
theorem accepted_real_iff (fl : Rounding) (args : List Text) (run : Run)
    (haccepted : main fl args = .ok (.run run)) :
    run.Real ↔ ∃ flags numbers, Flags.parse args known = .ok flags ∧
      readNumbers flags = .ok numbers ∧ numbers.Modest := by
  obtain ⟨configured, hconfigured, hchoose⟩ := main_run haccepted
  obtain ⟨numbers, hflags, hnumbers, hplan, hworker, hpositive⟩ := configure_ok hconfigured
  obtain ⟨rfl, hwarmup, hduration⟩ := choose_ok hchoose
  rw [hplan] at hwarmup hduration
  have hbounded := bounded_of_readNumbers hnumbers
  constructor
  · intro hreal
    exact ⟨_, numbers, hflags, hnumbers, hreal.modest hwarmup hduration hworker hbounded⟩
  · rintro ⟨flags, numbers', hflags', hnumbers', hmodest⟩
    -- the flags and the numbers of an invocation are what was read
    obtain rfl := Except.ok.inj (hflags.symm.trans hflags')
    obtain rfl := Except.ok.inj (hnumbers.symm.trans hnumbers')
    exact hmodest.real hwarmup hduration hworker (hduration ▸ hpositive) hbounded

/-- Half a second of warm-up before ten seconds. -/
theorem accepted_real_iff_warmup :
    ∃ run, main .exact ["--target".toList, "127.0.0.1:9000".toList, "--warmup".toList,
        "500".toList] = .ok (.run run) ∧ run.warmup = 500 ∧
      (run.Real ↔ ∃ flags numbers, Flags.parse ["--target".toList, "127.0.0.1:9000".toList,
          "--warmup".toList, "500".toList] known = .ok flags ∧
        readNumbers flags = .ok numbers ∧ numbers.Modest) := by
  obtain ⟨run, hrun, hwarmup⟩ := exists_run 500 (x := main .exact ["--target".toList,
    "127.0.0.1:9000".toList, "--warmup".toList, "500".toList]) (by decide +kernel)
  exact ⟨run, hrun, hwarmup, accepted_real_iff .exact _ run hrun⟩

/-- A warm-up of 2^64 - 1 ms is accepted and is one of minus one. -/
theorem negative_warmup_accepted :
    ∃ run, main .exact ["--target".toList, "127.0.0.1:9000".toList, "--warmup".toList,
        "18446744073709551615".toList] = .ok (.run run) ∧ run.warmup = -1 ∧ ¬run.Real := by
  obtain ⟨run, hrun, hwarmup⟩ := exists_run (-1) (x := main .exact ["--target".toList,
    "127.0.0.1:9000".toList, "--warmup".toList, "18446744073709551615".toList])
    (by decide +kernel)
  refine ⟨run, hrun, hwarmup, fun hreal => ?_⟩
  have hnonneg := hreal.warmup
  rw [hwarmup] at hnonneg
  exact absurd hnonneg (by decide)

end Cli

end Dariyanaap

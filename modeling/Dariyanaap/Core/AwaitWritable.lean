import Dariyanaap.Core.Text
import Dariyanaap.Core.Units
import Dariyanaap.Library.Delimited

/-!
# Waiting for a connect

`await_writable` (`core/socket.cpp`) polls a socket until its connect resolves or the deadline
passes. The deadline is in nanoseconds and `poll` counts milliseconds in an `int`: the time left
is truncated to one and narrowed to the other, on each turn of the loop. So the wait is the one
that was asked for when the time left is a whole number of milliseconds that fits, and otherwise
`poll` can end it early (`timedOut_true`).

The environment of the call is a list of turns, with a clock that does not go back and a `poll`
that keeps its contract (`Run`).
-/

namespace Dariyanaap

open Delimited

namespace AwaitWritable

/-- How the call ends, with the texts of `TimedOut` and `IoError`. -/
inductive Outcome where
  | writable
  | timedOut (what : Text)
  | ioError (what : Text)
  deriving DecidableEq

/-- What `poll` returns. -/
inductive Poll where
  /-- A positive number. -/
  | ready
  /-- Zero. -/
  | expired
  /-- `-1`, and `errno` is `EINTR`. -/
  | interrupted
  /-- `-1`, and `errno` is another error. -/
  | failed (strerror : Text)
  deriving DecidableEq

/-- One turn of the loop: what the clock read, what `poll` returned and when. -/
structure Turn where
  now : Instant
  poll : Poll
  back : Instant
  deriving DecidableEq

/-- A call in progress. -/
structure Wait where
  deadline : Instant
  /-- When the last call of the environment returned. -/
  clock : Instant
  /-- The arguments `poll` was called with. -/
  asked : List ℤ
  /-- How the call ended, and when. -/
  ended : Option (Outcome × Instant)
  deriving DecidableEq

/-- `static_cast<int>(chrono::duration_cast<Millis>(left).count())`. -/
def pollArgument (left : Nanos) : ℤ := (left.tdiv 1_000_000).bmod (2 ^ 32)

/-- The entry of the call. The conversion of the timeout to nanoseconds is a product of 64
bits. -/
def enter (timeout : Millis) (entered : Instant) : Wait where
  deadline := entered + timeout.toNanos.bmod (2 ^ 64)
  clock := entered
  asked := []
  ended := none

/-- `TimedOut`, which is thrown in two places. -/
def timedOut (address : Text) (timeout : Millis) : Outcome :=
  .timedOut ("connect to ".toList ++ address ++ " timed out after ".toList ++ signed timeout ++
    "ms".toList)

/-- The body of the loop. -/
def Wait.turn (address : Text) (timeout : Millis) (w : Wait) (t : Turn) : Wait :=
  let left := w.deadline - t.now
  if left ≤ 0 then
    { w with
      clock := t.now
      ended := some (timedOut address timeout, t.now) }
  else
    { w with
      clock := t.back
      asked := w.asked ++ [pollArgument left]
      ended :=
        match t.poll with
        | .ready => some (.writable, t.back)
        | .expired => some (timedOut address timeout, t.back)
        | .interrupted => none
        | .failed strerror =>
            some (.ioError ("poll while connecting to ".toList ++ address ++ ": ".toList ++
              strerror), t.back) }

/-! ## The environment -/

/-- A clock that does not go back, and the contract of `poll`: it returns zero only after its
argument. -/
structure Permitted (w : Wait) (t : Turn) : Prop where
  now : w.clock ≤ t.now
  back : t.now ≤ t.back
  expired : t.poll = .expired → 0 ≤ pollArgument (w.deadline - t.now) →
    t.now + Millis.toNanos (pollArgument (w.deadline - t.now)) ≤ t.back

/-- The turns of a call entered at a given time, and where they lead. -/
inductive Run (address : Text) (timeout : Millis) (entered : Instant) : List Turn → Wait → Prop
  | enter : Run address timeout entered [] (enter timeout entered)
  | turn {turns : List Turn} {w : Wait} {t : Turn} :
      Run address timeout entered turns w → w.ended = none → Permitted w t →
        Run address timeout entered (turns ++ [t]) (w.turn address timeout t)

/-- A timeout is reported when it has expired, and `poll` is never asked for more. -/
structure Honest (timeout : Millis) (entered : Instant) (w : Wait) : Prop where
  asked : ∀ argument ∈ w.asked, 0 ≤ argument ∧ argument ≤ timeout
  timedOut : ∀ what finish, w.ended = some (.timedOut what, finish) →
    entered + timeout.toNanos ≤ finish

/-- The time left is used up, or it is one that `poll` can be asked for: a whole number of
milliseconds that fits an `int`, of a timeout that fits 64 bits. -/
def Askable (timeout : Millis) (left : Nanos) : Prop :=
  left ≤ 0 ∨ timeout.toNanos < 2 ^ 63 ∧ 1_000_000 ∣ left ∧ left < Millis.toNanos (2 ^ 31)

instance (timeout : Millis) (left : Nanos) : Decidable (Askable timeout left) := by
  unfold Askable
  infer_instance

instance (w : Wait) (t : Turn) : Decidable (Permitted w t) :=
  decidable_of_iff (w.clock ≤ t.now ∧ t.now ≤ t.back ∧
      (t.poll = .expired → 0 ≤ pollArgument (w.deadline - t.now) →
        t.now + Millis.toNanos (pollArgument (w.deadline - t.now)) ≤ t.back))
    ⟨fun h => ⟨h.1, h.2.1, h.2.2⟩, fun h => ⟨h.now, h.back, h.expired⟩⟩

/-! ## Truncation and narrowing -/

section Arithmetic

variable {timeout : Millis} {left value : ℤ}

/-- Narrowing takes nothing below zero up. -/
theorem bmod_le_self (modulus : ℕ) (h : 0 ≤ value) : value.bmod modulus ≤ value := by
  obtain ⟨n, rfl⟩ := Int.eq_ofNat_of_zero_le h
  have hmod : (n : ℤ) % modulus ≤ n := by exact_mod_cast Nat.mod_le n modulus
  rw [Int.bmod_def]
  split
  · exact hmod
  · lia

theorem stored_le (h : 0 ≤ timeout) : timeout.toNanos.bmod (2 ^ 64) ≤ timeout.toNanos :=
  bmod_le_self _ (by unfold Millis.toNanos; lia)

/-- A timeout is stored as what it is exactly when its nanoseconds fit. -/
theorem stored_eq_iff (h : 0 ≤ timeout) :
    timeout.toNanos.bmod (2 ^ 64) = timeout.toNanos ↔ timeout.toNanos < 2 ^ 63 := by
  have hnn : 0 ≤ timeout.toNanos := by unfold Millis.toNanos; lia
  constructor
  · intro heq
    rw [← heq]
    exact Int.bmod_lt (by decide)
  · intro hlt
    exact Int.bmod_eq_of_le (by lia) (by lia)

/-- `poll` is never asked for more than the time left. -/
theorem pollArgument_le (h : 0 < left) : Millis.toNanos (pollArgument left) ≤ left := by
  have hle : pollArgument left ≤ left / 1_000_000 := by
    rw [pollArgument, Int.tdiv_eq_ediv_of_nonneg h.le]
    exact bmod_le_self _ (by lia)
  unfold Millis.toNanos
  lia

/-- And for less, unless that is a whole number of milliseconds that fits. -/
theorem pollArgument_eq_iff (h : 0 < left) :
    Millis.toNanos (pollArgument left) = left ↔
      1_000_000 ∣ left ∧ left < Millis.toNanos (2 ^ 31) := by
  rw [pollArgument, Int.tdiv_eq_ediv_of_nonneg h.le]
  have hle : (left / 1_000_000).bmod (2 ^ 32) ≤ left / 1_000_000 := bmod_le_self _ (by lia)
  have hlt : (left / 1_000_000).bmod (2 ^ 32) < 2 ^ 31 := Int.bmod_lt (by decide)
  unfold Millis.toNanos
  constructor
  · intro heq
    lia
  · rintro ⟨hdvd, hfits⟩
    have hexact : (left / 1_000_000).bmod (2 ^ 32) = left / 1_000_000 :=
      Int.bmod_eq_of_le (by lia) (by lia)
    rw [hexact]
    exact Int.ediv_mul_cancel hdvd

end Arithmetic

/-! ## Every run of the loop -/

section Runs

variable {address : Text} {timeout : Millis} {entered now : Instant} {turns : List Turn} {w : Wait}
  {t : Turn}

/-- The deadline does not change, and the clock does not go back. -/
theorem run_deadline (hrun : Run address timeout entered turns w) :
    w.deadline = entered + timeout.toNanos.bmod (2 ^ 64) ∧ entered ≤ w.clock := by
  induction hrun with
  | enter => exact ⟨rfl, le_rfl⟩
  | turn _ _ hpermitted ih =>
    obtain ⟨hdeadline, hclock⟩ := ih
    have hnow := hclock.trans hpermitted.now
    rw [Wait.turn]
    split
    · exact ⟨hdeadline, hnow⟩
    · exact ⟨hdeadline, hnow.trans hpermitted.back⟩

/-- The time left of the timeout itself. -/
def remaining (timeout : Millis) (entered now : Instant) : Nanos :=
  entered + timeout.toNanos - now

/-- The time left that the loop computes is never too long. -/
theorem left_le (hpos : 0 ≤ timeout) (hrun : Run address timeout entered turns w) (now : Instant) :
    w.deadline - now ≤ remaining timeout entered now := by
  have := stored_le hpos
  rw [(run_deadline hrun).1, remaining]
  lia

/-- And it is the time left when the timeout fits. -/
theorem left_eq_iff (hpos : 0 ≤ timeout) (hrun : Run address timeout entered turns w)
    (now : Instant) :
    w.deadline - now = remaining timeout entered now ↔ timeout.toNanos < 2 ^ 63 := by
  rw [← stored_eq_iff hpos, (run_deadline hrun).1, remaining]
  lia

/-- Before the deadline only a poll that expired reports a timeout. -/
theorem expired_of_timedOut {what : Text} {finish : Instant} (hleft : ¬w.deadline - t.now ≤ 0)
    (hended : (w.turn address timeout t).ended = some (.timedOut what, finish)) :
    t.poll = .expired ∧ t.back = finish := by
  rw [Wait.turn, if_neg hleft] at hended
  cases hpoll : t.poll with
  | expired =>
    simp only [hpoll] at hended
    exact ⟨rfl, (Prod.mk.inj (Option.some.inj hended)).2⟩
  | ready | interrupted | failed =>
    simp only [hpoll] at hended
    cases hended

/-- A turn with a time left that `poll` can be asked for keeps the promise. -/
theorem honest_turn (hpos : 0 ≤ timeout) (hrun : Run address timeout entered turns w)
    (hpermitted : Permitted w t)
    (haskable : Askable timeout (remaining timeout entered t.now))
    (hhonest : Honest timeout entered w) :
    Honest timeout entered (w.turn address timeout t) := by
  have hle := left_le hpos hrun t.now
  by_cases hover : w.deadline - t.now ≤ 0
  · -- the deadline has passed, and so has the timeout
    have hexpired : remaining timeout entered t.now ≤ 0 := by
      rcases haskable with hexpired | ⟨hfits, -⟩
      · exact hexpired
      · exact ((left_eq_iff hpos hrun t.now).mpr hfits).symm.trans_le hover
    rw [Wait.turn, if_pos hover]
    refine ⟨hhonest.asked, fun what finish hfinish => ?_⟩
    obtain ⟨-, rfl⟩ := Prod.mk.inj (Option.some.inj hfinish)
    exact sub_nonpos.mp hexpired
  · -- `poll` is asked for exactly the time left
    obtain ⟨hfits, hwhole⟩ := haskable.resolve_left (by lia)
    have hsame := (left_eq_iff hpos hrun t.now).mpr hfits
    rw [← hsame] at hwhole
    have hargument := (pollArgument_eq_iff (by lia)).mpr hwhole
    have hclock := (run_deadline hrun).2.trans hpermitted.now
    have hremaining : remaining timeout entered t.now = entered + timeout.toNanos - t.now := rfl
    unfold Millis.toNanos at hargument hremaining
    refine ⟨fun argument hmem => ?_, fun what finish hfinish => ?_⟩
    · rw [Wait.turn, if_neg hover] at hmem
      rcases List.mem_append.mp hmem with hmem | hmem
      · exact hhonest.asked argument hmem
      · rw [List.mem_singleton.mp hmem]
        constructor <;> lia
    · obtain ⟨hpoll, rfl⟩ := expired_of_timedOut hover hfinish
      have hback := hpermitted.expired hpoll (by lia)
      unfold Millis.toNanos at hback ⊢
      lia

/-- A turn with another time left can break it. -/
theorem exists_dishonest_turn (hpos : 0 ≤ timeout) (hrun : Run address timeout entered turns w)
    (hclock : w.clock ≤ now) (haskable : ¬Askable timeout (remaining timeout entered now)) :
    ∃ t : Turn, t.now = now ∧ Permitted w t ∧
      ¬Honest timeout entered (w.turn address timeout t) := by
  obtain ⟨hleft, hwhole⟩ := not_or.mp haskable
  have hremaining : remaining timeout entered now = entered + timeout.toNanos - now := rfl
  have hle := left_le hpos hrun now
  by_cases hover : w.deadline - now ≤ 0
  · -- the stored deadline has passed, the timeout has not
    refine ⟨⟨now, .ready, now⟩, rfl, ⟨hclock, le_rfl, by simp⟩, fun hhonest => ?_⟩
    rw [Wait.turn, if_pos hover] at hhonest
    have := hhonest.timedOut _ _ rfl
    lia
  · by_cases hnegative : pollArgument (w.deadline - now) < 0
    · refine ⟨⟨now, .ready, now⟩, rfl, ⟨hclock, le_rfl, by simp⟩, fun hhonest => ?_⟩
      rw [Wait.turn, if_neg hover] at hhonest
      have := (hhonest.asked _ (List.mem_append_right _ (List.mem_singleton_self _))).1
      exact absurd hnegative (not_lt.mpr this)
    · -- `poll` is asked for less than the time left, and may expire then
      have hargument := pollArgument_le (not_le.mp hover)
      have hshort : Millis.toNanos (pollArgument (w.deadline - now)) <
          remaining timeout entered now := by
        refine lt_of_le_of_ne (hargument.trans hle) fun heq => hwhole ?_
        have hsame : w.deadline - now = remaining timeout entered now := by lia
        refine ⟨(left_eq_iff hpos hrun now).mp hsame, ?_⟩
        rw [← hsame] at heq ⊢
        exact (pollArgument_eq_iff (not_le.mp hover)).mp heq
      refine ⟨⟨now, .expired, now + Millis.toNanos (pollArgument (w.deadline - now))⟩, rfl,
        ⟨hclock, ?_, fun _ _ => le_rfl⟩, fun hhonest => ?_⟩
      · unfold Millis.toNanos
        lia
      · rw [Wait.turn, if_neg hover] at hhonest
        have := hhonest.timedOut _ _ rfl
        lia

/-- In every run whose turns find a time left that `poll` can be asked for, a timeout is reported
only once it has expired and `poll` is asked for no more than it. A run that reaches a turn with
another time left can go on to break that. -/
theorem timedOut_true (address : Text) (timeout : Millis) (hpos : 1 ≤ timeout)
    (entered : Instant) :
    (∀ turns w, Run address timeout entered turns w →
        (∀ t ∈ turns, Askable timeout (remaining timeout entered t.now)) →
        Honest timeout entered w) ∧
      ∀ turns w now, Run address timeout entered turns w → w.ended = none → w.clock ≤ now →
        ¬Askable timeout (remaining timeout entered now) →
        ∃ t : Turn, t.now = now ∧
          Run address timeout entered (turns ++ [t]) (w.turn address timeout t) ∧
          ¬Honest timeout entered (w.turn address timeout t) := by
  have hnn : 0 ≤ timeout := by lia
  constructor
  · intro turns w hrun haskable
    induction hrun with
    | enter =>
      constructor
      · exact fun argument hmem => absurd hmem List.not_mem_nil
      · intro what finish hfinish
        cases hfinish
    | turn hrun _ hpermitted ih =>
      rw [List.forall_mem_append, List.forall_mem_singleton] at haskable
      exact honest_turn hnn hrun hpermitted haskable.2 (ih haskable.1)
  · intro turns w now hrun hended hclock haskable
    obtain ⟨t, hnow, hpermitted, hdishonest⟩ := exists_dishonest_turn hnn hrun hclock haskable
    exact ⟨t, hnow, hrun.turn hended hpermitted, hdishonest⟩

/-- A wait of five milliseconds with a signal after two of them, and no time lost between the
readings of the clock and the polls. -/
theorem timedOut_true_signal :
    ∃ w, Run "[::1]:8080".toList 5 0
        [⟨0, .interrupted, 2_000_000⟩, ⟨2_000_000, .expired, 5_000_000⟩] w ∧
      w.asked = [5, 3] ∧
      w.ended =
        some (.timedOut "connect to [::1]:8080 timed out after 5ms".toList, 5_000_000) ∧
      Honest 5 0 w := by
  have henter : Run "[::1]:8080".toList 5 0 [] (enter 5 0) := .enter
  have hsignal := henter.turn (t := ⟨0, .interrupted, 2_000_000⟩) rfl (by decide)
  have hrun := hsignal.turn (t := ⟨2_000_000, .expired, 5_000_000⟩) (by decide) (by decide)
  exact ⟨_, hrun, by decide, by decide +kernel,
    (timedOut_true _ 5 (by decide) 0).1 _ _ hrun (by decide)⟩

/-- A wait of one millisecond that reads the clock again one nanosecond after its entry: `poll` is
asked for no time at all, and the call has timed out. -/
theorem timedOut_early :
    ∃ w, Run "[::1]:8080".toList 1 0 [⟨1, .expired, 1⟩] w ∧
      w.asked = [0] ∧
      w.ended = some (.timedOut "connect to [::1]:8080 timed out after 1ms".toList, 1) ∧
      ¬Honest 1 0 w := by
  have henter : Run "[::1]:8080".toList 1 0 [] (enter 1 0) := .enter
  have hrun := henter.turn (t := ⟨1, .expired, 1⟩) rfl (by decide)
  refine ⟨_, hrun, by decide, by decide +kernel, fun hhonest => ?_⟩
  exact absurd (hhonest.timedOut _ _ rfl) (by decide)

end Runs

end AwaitWritable

end Dariyanaap

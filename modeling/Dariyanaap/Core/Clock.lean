import Dariyanaap.Core.Text
import Dariyanaap.Core.Units
import Mathlib.Data.Int.ConditionallyCompleteOrder
import Mathlib.Order.Monotone.Basic

/-!
# The resolution of the clock

`MonotonicClock::measured_resolution` (`core/clock.cpp`): the smallest step the clock was seen to
make in five attempts, each of which reads the clock until it reads something else. The clock is
what its readings are, one after the other.

What is reported is a step between two successive readings, and no less than the smallest step the
clock ever makes (`measuredResolution_spec`).
-/

namespace Dariyanaap

namespace MonotonicClock

/-- `Nanos::max()`. -/
def nanosMax : Nanos := 2 ^ 63 - 1

/-- How often the inner loop may read the clock: once for each of the spins `0 .. 100'000'000`. -/
def kSpins : ℕ := 100_000_001

/-- The inner loop, with how often it may still read the clock, and how often the clock was read:
the first reading that is not `a`. -/
def spin (clock : ℕ → Instant) (a : Instant) : (left : ℕ) → (read : ℕ) → Option (Instant × ℕ)
  | 0, _ => none
  | left + 1, read =>
      if clock read = a then spin clock a left (read + 1) else some (clock read, read + 1)

/-- The attempts, or the text of the `Error` that is thrown. -/
def attempts (clock : ℕ → Instant) :
    (left : ℕ) → (best : Nanos) → (read : ℕ) → Except Text (Nanos × ℕ)
  | 0, best, read => .ok (best, read)
  | left + 1, best, read =>
      match spin clock (clock read) kSpins (read + 1) with
      | none => .error "steady_clock did not advance over 1e8 reads".toList
      | some (b, read') => attempts clock left (min best (between (clock read) b)) read'

/-- `measured_resolution`, and how often it read the clock. The first reading is discarded. -/
def measuredResolution (clock : ℕ → Instant) : Except Text (Nanos × ℕ) :=
  attempts clock 5 nanosMax 1

/-! ## The steps that were seen -/

/-- An attempt that begins with one reading and ends with another, the first that differs. -/
structure Observed (clock : ℕ → Instant) (first last : ℕ) : Prop where
  lt : first < last
  le : last ≤ first + kSpins
  still (n : ℕ) (hfirst : first ≤ n) (hlast : n < last) : clock n = clock first
  moved : clock last ≠ clock first

/-- There is one such reading. -/
theorem Observed.last_eq {clock : ℕ → Instant} {first last last' : ℕ}
    (h : Observed clock first last) (h' : Observed clock first last') : last = last' := by
  rcases Nat.lt_trichotomy last last' with hlt | heq | hlt
  · exact absurd (h'.still last h.lt.le hlt) h.moved
  · exact heq
  · exact absurd (h.still last' h'.lt.le hlt) h'.moved

/-- The steps seen by attempts that follow each other. -/
inductive Attempts (clock : ℕ → Instant) : (read : ℕ) → List Nanos → (read' : ℕ) → Prop
  | nil (read : ℕ) : Attempts clock read [] read
  | cons {first last read : ℕ} {steps : List Nanos} (h : Observed clock first last)
      (hlater : Attempts clock (last + 1) steps read) :
      Attempts clock first ((clock last - clock first) :: steps) read

/-- The clock stands still, for as long as an attempt goes on. -/
def StandsStill (clock : ℕ → Instant) (first : ℕ) : Prop :=
  ∀ n, first ≤ n → n ≤ first + kSpins → clock n = clock first

section Spins

variable {clock : ℕ → Instant} {a b : Instant} {left read read' : ℕ}

/-- Readings that are the same, and one before them. -/
theorem still_cons {stop : ℕ} (hread : clock read = a)
    (hlater : ∀ n, read + 1 ≤ n → n < stop → clock n = a) :
    ∀ n, read ≤ n → n < stop → clock n = a := by
  intro n hn hlt
  rcases Nat.eq_or_lt_of_le hn with rfl | hn'
  · exact hread
  · exact hlater n hn' hlt

/-- The inner loop ends with the first reading that differs. -/
theorem spin_eq_some_iff :
    spin clock a left read = some (b, read') ↔
      ∃ last, read' = last + 1 ∧ b = clock last ∧ read ≤ last ∧ last < read + left ∧
        (∀ n, read ≤ n → n < last → clock n = a) ∧ clock last ≠ a := by
  induction left generalizing read with
  | zero =>
    refine ⟨nofun, ?_⟩
    rintro ⟨last, -, -, hle, hlt, -⟩
    omega
  | succ left ih =>
    rw [spin]
    by_cases hread : clock read = a
    · rw [if_pos hread, ih]
      constructor
      · rintro ⟨last, rfl, rfl, hle, hlt, hstill, hmoved⟩
        exact ⟨last, rfl, rfl, by omega, by omega, still_cons hread hstill, hmoved⟩
      · rintro ⟨last, rfl, rfl, hle, hlt, hstill, hmoved⟩
        have hne : read ≠ last := by
          rintro rfl
          exact hmoved hread
        exact ⟨last, rfl, rfl, by omega, by omega, fun n hn => hstill n (by omega), hmoved⟩
    · rw [if_neg hread]
      constructor
      · intro h
        obtain ⟨rfl, rfl⟩ := Prod.mk.inj (Option.some.inj h)
        exact ⟨read, rfl, rfl, le_rfl, by omega, fun n hn hlast => by omega, hread⟩
      · rintro ⟨last, rfl, rfl, hle, hlt, hstill, -⟩
        -- the reading that differs is the first one
        rcases Nat.eq_or_lt_of_le hle with rfl | hlater
        · rfl
        · exact absurd (hstill read le_rfl hlater) hread

/-- It gives up when none does. -/
theorem spin_eq_none_iff :
    spin clock a left read = none ↔ ∀ n, read ≤ n → n < read + left → clock n = a := by
  induction left generalizing read with
  | zero => exact ⟨fun _ n _ _ => by omega, fun _ => rfl⟩
  | succ left ih =>
    rw [spin]
    by_cases hread : clock read = a
    · rw [if_pos hread, ih]
      constructor
      · exact fun h => still_cons hread fun n hn hlt => h n hn (by omega)
      · exact fun h n hn hlt => h n (by omega) (by omega)
    · rw [if_neg hread]
      exact ⟨nofun, fun h => absurd (h read le_rfl (by omega)) hread⟩

/-- An attempt that ends has seen a step. -/
theorem spin_eq_some_iff_observed :
    spin clock (clock read) kSpins (read + 1) = some (b, read') ↔
      ∃ last, Observed clock read last ∧ b = clock last ∧ read' = last + 1 := by
  rw [spin_eq_some_iff]
  constructor
  · rintro ⟨last, rfl, rfl, hle, hlt, hstill, hmoved⟩
    exact ⟨last, ⟨by omega, by omega, still_cons rfl hstill, hmoved⟩, rfl, rfl⟩
  · rintro ⟨last, h, rfl, rfl⟩
    have hlt := h.lt
    have hle := h.le
    exact ⟨last, rfl, rfl, by omega, by omega, fun n hn => h.still n (by omega), h.moved⟩

/-- The attempts return the smallest of the steps they have seen. -/
theorem attempts_eq_ok_iff {best r : Nanos} :
    attempts clock left best read = .ok (r, read') ↔
      ∃ steps, steps.length = left ∧ Attempts clock read steps read' ∧
        r = steps.foldl min best := by
  induction left generalizing best read with
  | zero =>
    rw [attempts]
    constructor
    · intro h
      obtain ⟨rfl, rfl⟩ := Prod.mk.inj (Except.ok.inj h)
      exact ⟨[], rfl, .nil _, rfl⟩
    · rintro ⟨steps, hlength, hattempts, rfl⟩
      obtain rfl := List.length_eq_zero_iff.mp hlength
      cases hattempts
      rfl
  | succ left ih =>
    rw [attempts]
    cases hspin : spin clock (clock read) kSpins (read + 1) with
    | none =>
      refine ⟨nofun, ?_⟩
      rintro ⟨steps, hlength, hattempts, -⟩
      cases hattempts with
      | nil => cases hlength
      | cons h hlater =>
        -- an attempt that has seen a step does not give up
        rw [spin_eq_some_iff_observed.mpr ⟨_, h, rfl, rfl⟩] at hspin
        cases hspin
    | some x =>
      obtain ⟨last, hobserved, hb, hread⟩ := spin_eq_some_iff_observed.mp hspin
      dsimp only
      rw [ih, hb, hread, between]
      constructor
      · rintro ⟨steps, hlength, hlater, hr⟩
        exact ⟨_ :: steps, congrArg Nat.succ hlength, .cons hobserved hlater, hr⟩
      · rintro ⟨steps, hlength, hattempts, hr⟩
        cases hattempts with
        | nil => cases hlength
        | cons h hlater =>
          obtain rfl := h.last_eq hobserved
          exact ⟨_, Nat.succ.inj hlength, hlater, hr⟩

/-- They throw when the clock stands still in one of them. -/
theorem attempts_eq_error_iff {best : Nanos} {what : Text} :
    attempts clock left best read = .error what ↔
      what = "steady_clock did not advance over 1e8 reads".toList ∧
        ∃ steps first, steps.length < left ∧ Attempts clock read steps first ∧
          StandsStill clock first := by
  induction left generalizing best read with
  | zero =>
    rw [attempts]
    exact ⟨nofun, fun ⟨_, _, _, hlt, _⟩ => absurd hlt (Nat.not_lt_zero _)⟩
  | succ left ih =>
    rw [attempts]
    cases hspin : spin clock (clock read) kSpins (read + 1) with
    | none =>
      have hstill : StandsStill clock read := fun n hn hle =>
        still_cons rfl (spin_eq_none_iff.mp hspin) n hn (by omega)
      constructor
      · rintro h
        cases h
        exact ⟨rfl, [], read, Nat.zero_lt_succ _, .nil read, hstill⟩
      · rintro ⟨rfl, -⟩
        rfl
    | some x =>
      obtain ⟨last, hobserved, hb, hread⟩ := spin_eq_some_iff_observed.mp hspin
      dsimp only
      rw [ih, hread]
      refine and_congr_right fun _ => ⟨?_, ?_⟩
      · rintro ⟨steps, first, hlength, hlater, hstill⟩
        exact ⟨_ :: steps, first, Nat.succ_lt_succ hlength, .cons hobserved hlater, hstill⟩
      · rintro ⟨steps, first, hlength, hattempts, hstill⟩
        cases hattempts with
        | nil => exact absurd (hstill last hobserved.lt.le hobserved.le) hobserved.moved
        | cons h hlater =>
          obtain rfl := h.last_eq hobserved
          exact ⟨_, first, Nat.lt_of_succ_lt_succ hlength, hlater, hstill⟩

end Spins

/-! ## What a step is -/

section Steps

variable {clock : ℕ → Instant} {first last read read' : ℕ} {steps : List Nanos}

/-- A step is one between two successive readings. -/
theorem Observed.step_eq (h : Observed clock first last) :
    clock last - clock first = clock last - clock (last - 1) := by
  have hlt := h.lt
  rw [h.still (last - 1) (by omega) (by omega)]

/-- The steps that were seen, and the readings they were between. -/
theorem Attempts.exists_of_mem (h : Attempts clock read steps read') {step : Nanos}
    (hstep : step ∈ steps) : ∃ n, clock (n + 1) ≠ clock n ∧ step = clock (n + 1) - clock n := by
  induction h with
  | nil => cases hstep
  | @cons first last read steps h hlater ih =>
    rcases List.mem_cons.mp hstep with rfl | hmem
    · have hlt := h.lt
      have hbefore := h.still (last - 1) (by omega) (by omega)
      refine ⟨last - 1, ?_, ?_⟩
      · rw [Nat.sub_add_cancel (by omega), hbefore]
        exact h.moved
      · rw [Nat.sub_add_cancel (by omega)]
        exact h.step_eq
    · exact ih hmem

/-- The smallest step, once there is one and none exceeds what the comparison began with. -/
theorem eq_foldl_min_iff {best r : Nanos} (hne : steps ≠ []) (hle : ∀ s ∈ steps, s ≤ best) :
    r = steps.foldl min best ↔ r ∈ steps ∧ ∀ s ∈ steps, r ≤ s := by
  have hmin : r = steps.foldl min best ↔ (best :: steps).min? = some r := by
    rw [List.min?_cons', Option.some_inj, eq_comm]
  rw [hmin, List.min?_eq_some_iff, List.forall_mem_cons, List.mem_cons]
  constructor
  · rintro ⟨rfl | hmem, -, hleast⟩
    · -- a step that is as large as the first comparison
      obtain ⟨s, hs⟩ := List.exists_mem_of_ne_nil steps hne
      rw [le_antisymm (hleast s hs) (hle s hs)]
      exact ⟨hs, fun t ht => (hle s hs).trans (hleast t ht)⟩
    · exact ⟨hmem, hleast⟩
  · rintro ⟨hmem, hleast⟩
    exact ⟨.inr hmem, hle r hmem, hleast⟩

end Steps

/-- On a clock that never goes back: what is reported is the smallest of the five steps that were
seen, each of them between two successive readings, so it is positive and no less than any bound on
the clock's steps. It throws if and only if the clock stands still for `kSpins` readings behind the
first one of an attempt. -/
theorem measuredResolution_spec (clock : ℕ → Instant) (hclock : Monotone clock)
    (hfits : ∀ n, 0 ≤ clock n ∧ clock n < 2 ^ 63) :
    (∀ r read, measuredResolution clock = .ok (r, read) ↔
      ∃ steps, steps.length = 5 ∧ Attempts clock 1 steps read ∧ r ∈ steps ∧ ∀ s ∈ steps, r ≤ s) ∧
    (∀ what, measuredResolution clock = .error what ↔
      what = "steady_clock did not advance over 1e8 reads".toList ∧
        ∃ steps first, steps.length < 5 ∧ Attempts clock 1 steps first ∧
          StandsStill clock first) ∧
    ∀ r read, measuredResolution clock = .ok (r, read) →
      0 < r ∧ (∃ n, r = clock (n + 1) - clock n) ∧
        ∀ tick, (∀ n, clock (n + 1) ≠ clock n → tick ≤ clock (n + 1) - clock n) → tick ≤ r := by
  have hok : ∀ r read, measuredResolution clock = .ok (r, read) ↔
      ∃ steps, steps.length = 5 ∧ Attempts clock 1 steps read ∧ r ∈ steps ∧
        ∀ s ∈ steps, r ≤ s := by
    intro r read
    rw [measuredResolution, attempts_eq_ok_iff]
    refine exists_congr fun steps => and_congr_right fun hlength => and_congr_right fun h => ?_
    refine eq_foldl_min_iff (List.ne_nil_of_length_eq_add_one hlength) fun s hs => ?_
    -- a step between readings of 64 bits
    obtain ⟨n, -, rfl⟩ := h.exists_of_mem hs
    have hlow := (hfits n).1
    have hhigh := (hfits (n + 1)).2
    exact (sub_le_self _ hlow).trans (Int.le_sub_one_of_lt hhigh)
  refine ⟨hok, fun what => attempts_eq_error_iff, fun r read h => ?_⟩
  obtain ⟨steps, -, hattempts, hmem, -⟩ := (hok r read).mp h
  obtain ⟨n, hmoved, rfl⟩ := hattempts.exists_of_mem hmem
  have hpos := lt_of_le_of_ne (hclock (Nat.le_succ n)) hmoved.symm
  exact ⟨sub_pos.mpr hpos, ⟨n, rfl⟩, fun tick htick => htick n hmoved⟩

/-- A clock with a tick of 42 ns that is read three times in each, a hundred times. -/
def ticking (n : ℕ) : Instant := (42 * min (n / 3) 100 : ℕ)

/-- Its ticks are seen one reading after the attempt began, or two. -/
theorem observed_ticking (tick : ℕ) (htick : tick < 100) :
    Observed ticking (3 * tick + 1) (3 * (tick + 1)) := by
  refine ⟨by omega, by simp only [kSpins]; omega, fun n hfirst hlast => ?_, ?_⟩
  · have hn : n / 3 = (3 * tick + 1) / 3 := by omega
    rw [ticking, ticking, hn]
  · have hfirst : (3 * tick + 1) / 3 = tick := by omega
    have hlast : 3 * (tick + 1) / 3 = tick + 1 := by omega
    rw [ticking, ticking, hfirst, hlast, Ne, Nat.cast_inj]
    omega

theorem measuredResolution_spec_ticking : measuredResolution ticking = .ok (42, 16) := by
  refine ((measuredResolution_spec ticking ?_ ?_).1 42 16).mpr
    ⟨[42, 42, 42, 42, 42], rfl, ?_, by decide, by decide⟩
  · intro n m hle
    have hdiv := Nat.div_le_div_right (c := 3) hle
    exact Int.ofNat_le.mpr (by omega)
  · intro n
    have hlt : 42 * min (n / 3) 100 < 2 ^ 63 := by omega
    exact ⟨Int.natCast_nonneg _, Int.ofNat_lt.mpr hlt⟩
  · exact .cons (observed_ticking 0 (by decide)) <|
      .cons (observed_ticking 1 (by decide)) <|
        .cons (observed_ticking 2 (by decide)) <|
          .cons (observed_ticking 3 (by decide)) <|
            .cons (observed_ticking 4 (by decide)) <| .nil 16

end MonotonicClock

end Dariyanaap

import Dariyanaap.Core.Text
import Dariyanaap.Core.Units
import Mathlib.Data.Finset.Basic
import Mathlib.RingTheory.Coprime.Lemmas
import Mathlib.Tactic.Ring

/-!
# Fault knobs

The fault library (`fault/knobs.hpp`, `fault/knobs.cpp`): the process-wide knobs, the setters
that change them and the three checks a target calls. A setter is a computation over the knobs
that may throw, and what it stored before throwing stays stored.

Every setter does the same three things: it refuses some arguments, makes its stores one after
the other, and runs `refresh_gate`. `Setter.call_eq` says so for all of them at once, which is
what the interleaving of setters and the fast path of the checks are reasoned with.
-/

namespace Dariyanaap

namespace Fault

/-- The knobs, with their values at start-up. -/
structure Knobs where
  /-- `g_any`, the one gate. -/
  any : Bool := false
  latencyNs : ℤ := 0
  jitterNs : ℤ := 0
  dropPpm : ℤ := 0
  hanging : Bool := false
  identity : Text := []
  /-- Pairs of names in a fixed order. -/
  partitions : Finset (Text × Text) := ∅
  anyPartition : Bool := false
  deriving DecidableEq

/-- A computation over the knobs that may throw a `UsageError`. -/
abbrev Effect (α : Type) : Type := ExceptT UsageError (StateM Knobs) α

/-- What a sum or product of `int64_t` leaves in 64 bits. -/
def wrapped (value : ℤ) : ℤ := value.bmod (2 ^ 64)

/-- `Nanos(duration).count()`, whose product wraps. -/
def storedNanos (duration : Millis) : ℤ := wrapped duration.toNanos

/-- The stored latency is zero for a multiple of `2 ^ 58` milliseconds, and for no other. -/
theorem storedNanos_eq_zero_iff {duration : Millis} :
    storedNanos duration = 0 ↔ (2 ^ 58 : ℤ) ∣ duration := by
  have hfactors : duration * 1_000_000 = duration * 15_625 * 2 ^ 6 := by ring
  have hcoprime : IsCoprime (2 ^ 58 : ℤ) 15_625 :=
    Int.isCoprime_iff_gcd_eq_one.mpr (by decide +kernel)
  calc storedNanos duration = 0
    _ ↔ (2 ^ 58 * 2 ^ 6 : ℤ) ∣ duration * 15_625 * 2 ^ 6 := by
        rw [storedNanos, wrapped, ← Int.dvd_iff_bmod_eq_zero, Millis.toNanos, hfactors]
        norm_num
    _ ↔ (2 ^ 58 : ℤ) ∣ duration * 15_625 := mul_dvd_mul_iff_right (by norm_num)
    _ ↔ (2 ^ 58 : ℤ) ∣ duration :=
        ⟨hcoprime.dvd_of_dvd_mul_right, fun h => h.mul_right 15_625⟩

/-- `ordered`: the two names in a fixed order. -/
def ordered (a b : Text) : Text × Text := if b < a then (b, a) else (a, b)

/-! ## Stores -/

/-- A store into a knob. Those of the partition set are made under its mutex, with the flag
that says whether there is any. -/
inductive Store where
  | latency (ns : ℤ)
  | jitter (ns : ℤ)
  | drop (ppm : ℤ)
  | hanging (on : Bool)
  | cut (pair : Text × Text)
  | mend (pair : Text × Text)
  | mendAll
  deriving DecidableEq

/-- The knobs after a store. -/
def Store.apply (k : Knobs) : Store → Knobs
  | latency ns => { k with latencyNs := ns }
  | jitter ns => { k with jitterNs := ns }
  | drop ppm => { k with dropPpm := ppm }
  | hanging on => { k with hanging := on }
  | cut pair => { k with partitions := insert pair k.partitions, anyPartition := true }
  | mend pair =>
      { k with
        partitions := k.partitions.erase pair
        anyPartition := decide (k.partitions.erase pair ≠ ∅) }
  | mendAll => { k with partitions := ∅, anyPartition := false }

/-- Every store leaves the flag of the partition set right. -/
theorem Store.anyPartition_apply {k : Knobs} (s : Store)
    (h : k.anyPartition = true ↔ k.partitions ≠ ∅) :
    (s.apply k).anyPartition = true ↔ (s.apply k).partitions ≠ ∅ := by
  cases s with
  | latency ns => exact h
  | jitter ns => exact h
  | drop ppm => exact h
  | hanging on => exact h
  | cut pair => simp [Store.apply]
  | mend pair => simp [Store.apply]
  | mendAll => simp [Store.apply]

/-- And so does a sequence of stores. -/
theorem Store.anyPartition_foldl {k : Knobs} (stores : List Store)
    (h : k.anyPartition = true ↔ k.partitions ≠ ∅) :
    (stores.foldl Store.apply k).anyPartition = true ↔
      (stores.foldl Store.apply k).partitions ≠ ∅ := by
  induction stores generalizing k with
  | nil => exact h
  | cons s stores ih => exact ih (s.anyPartition_apply h)

namespace Knobs

/-- What `refresh_gate` computes: the knobs the gate stands for. -/
def enabled (k : Knobs) : Bool :=
  decide (k.latencyNs ≠ 0) || decide (k.dropPpm ≠ 0) || k.hanging || k.anyPartition

/-- The knobs after `refresh_gate`. -/
def refreshed (k : Knobs) : Knobs := { k with any := k.enabled }

end Knobs

/-- Make a store. -/
def store (s : Store) : Effect Unit := modify fun k => s.apply k

/-- `refresh_gate`. -/
def refreshGate : Effect Unit := modify Knobs.refreshed

/-! ## Setters -/

/-- `set_latency`. -/
def setLatency (mean jitter : Millis) : Effect Unit := do
  if mean < 0 ∨ jitter < 0 then
    throw ⟨"injected latency and jitter must not be negative".toList⟩
  -- a jitter past the mean would draw negative delays
  if mean < jitter then
    throw ⟨"injected jitter must not exceed the mean".toList⟩
  store (.latency (storedNanos mean))
  store (.jitter (storedNanos jitter))
  refreshGate

/-- The drop probability in parts per million. The conversion truncates, and a probability is
not negative. -/
def dropPpm (fl : Rounding) (probability : ℚ) : ℤ := ⌊fl (fl (probability * 1_000_000) + 1 / 2)⌋

/-- The probability a `double` is, if it is one. -/
def asFraction : Double → Option ℚ
  | .finite p => if 0 ≤ p ∧ p ≤ 1 then some p else none
  | .infinite _ | .nan => none

/-- `set_drop_probability`. -/
def setDropProbability (fl : Rounding) (probability : Double) : Effect Unit := do
  match asFraction probability with
  | none => throw ⟨"drop probability must be between 0 and 1".toList⟩
  | some p =>
      store (.drop (dropPpm fl p))
      refreshGate

/-- `set_hang_forever`. -/
def setHangForever (hanging : Bool) : Effect Unit := do
  store (.hanging hanging)
  refreshGate

/-- `set_identity`. It is not a fault, so the gate is left alone. -/
def setIdentity (name : Text) : Effect Unit := modify fun k => { k with identity := name }

/-- `partition`. -/
def partition (a b : Text) : Effect Unit := do
  if a = [] ∨ b = [] then throw ⟨"a partition needs two node names".toList⟩
  if a = b then throw ⟨"cannot partition a node from itself".toList⟩
  store (.cut (ordered a b))
  refreshGate

/-- `heal`. -/
def heal (a b : Text) : Effect Unit := do
  store (.mend (ordered a b))
  refreshGate

/-- `clear`. The identity is not a fault and survives. -/
def clear : Effect Unit := do
  store (.latency 0)
  store (.jitter 0)
  store (.drop 0)
  store (.hanging false)
  store .mendAll
  refreshGate

/-- A call of a setter that moves the gate. -/
inductive Setter where
  | setLatency (mean jitter : Millis)
  | setDropProbability (probability : Double)
  | setHangForever (hanging : Bool)
  | partition (a b : Text)
  | heal (a b : Text)
  | clear
  deriving DecidableEq

namespace Setter

/-- The function a setter calls. -/
def call (fl : Rounding) : Setter → Effect Unit
  | setLatency mean jitter => Fault.setLatency mean jitter
  | setDropProbability probability => Fault.setDropProbability fl probability
  | setHangForever hanging => Fault.setHangForever hanging
  | partition a b => Fault.partition a b
  | heal a b => Fault.heal a b
  | clear => Fault.clear

/-- Why the arguments of a setter are refused, if they are. -/
def refusal : Setter → Option UsageError
  | setLatency mean jitter =>
      if mean < 0 ∨ jitter < 0 then
        some ⟨"injected latency and jitter must not be negative".toList⟩
      else if mean < jitter then some ⟨"injected jitter must not exceed the mean".toList⟩
      else none
  | setDropProbability probability =>
      if (asFraction probability).isSome then none
      else some ⟨"drop probability must be between 0 and 1".toList⟩
  | partition a b =>
      if a = [] ∨ b = [] then some ⟨"a partition needs two node names".toList⟩
      else if a = b then some ⟨"cannot partition a node from itself".toList⟩
      else none
  | setHangForever _ | heal _ _ | clear => none

/-- The latencies that are accepted. -/
theorem refusal_setLatency {mean jitter : Millis} :
    refusal (setLatency mean jitter) = none ↔ 0 ≤ jitter ∧ jitter ≤ mean := by
  dsimp only [refusal]
  split_ifs with hneg hbig
  · exact iff_of_false nofun (by lia)
  · exact iff_of_false nofun (by lia)
  · exact iff_of_true rfl (by lia)

/-- The stores of a setter whose arguments are accepted, in order. -/
def stores (fl : Rounding) : Setter → List Store
  | setLatency mean jitter => [.latency (storedNanos mean), .jitter (storedNanos jitter)]
  | setDropProbability probability =>
      ((asFraction probability).map fun p => Store.drop (dropPpm fl p)).toList
  | setHangForever hanging => [.hanging hanging]
  | partition a b => [.cut (ordered a b)]
  | heal a b => [.mend (ordered a b)]
  | clear => [.latency 0, .jitter 0, .drop 0, .hanging false, .mendAll]

/-- Every setter refuses, or makes its stores and refreshes the gate. -/
theorem call_eq (fl : Rounding) (s : Setter) (k : Knobs) :
    (s.call fl).run.run k =
      match s.refusal with
      | some e => (.error e, k)
      | none => (.ok (), ((s.stores fl).foldl Store.apply k).refreshed) := by
  cases s with
  | setLatency mean jitter =>
    -- the two guards, in the order they throw
    simp only [call, Fault.setLatency, refusal]
    by_cases hneg : mean < 0 ∨ jitter < 0
    · rw [if_pos hneg, if_pos hneg]
      rfl
    · rw [if_neg hneg, if_neg hneg]
      by_cases hbig : mean < jitter
      · simp only [if_pos hbig]
        rfl
      · simp only [if_neg hbig]
        rfl
  | setDropProbability probability =>
    simp only [call, Fault.setDropProbability, refusal, stores]
    cases asFraction probability with
    | none => rfl
    | some p => rfl
  | setHangForever hanging => rfl
  | partition a b =>
    -- two guards again
    simp only [call, Fault.partition, refusal]
    by_cases hempty : a = [] ∨ b = []
    · rw [if_pos hempty, if_pos hempty]
      rfl
    · rw [if_neg hempty, if_neg hempty]
      by_cases hself : a = b
      · simp only [if_pos hself]
        rfl
      · simp only [if_neg hself]
        rfl
  | heal a b => rfl
  | clear => rfl

end Setter

/-! ## Checks -/

/-- What `before_response` does to the caller. -/
structure Pause where
  /-- How long it sleeps, zero if it does not. -/
  delay : Nanos := 0
  /-- Whether it then waits for the end of a hang. -/
  hangs : Bool := false
  deriving DecidableEq

namespace Knobs

/-- `before_response` without its early return. `draw j` is the draw from `-j .. j`. -/
def beforeResponseUngated (k : Knobs) (draw : ℤ → ℤ) : Pause where
  delay :=
    if 0 < k.latencyNs then
      -- a wait that is not positive is no sleep
      max 0 (if 0 < k.jitterNs then wrapped (k.latencyNs + draw k.jitterNs) else k.latencyNs)
    else 0
  hangs := k.hanging

/-- `before_response`. -/
def beforeResponse (k : Knobs) (draw : ℤ → ℤ) : Pause :=
  if k.any = false then {} else k.beforeResponseUngated draw

/-- `should_drop` without its early return. `draw` is the draw from `0 .. 999999`. -/
def shouldDropUngated (k : Knobs) (draw : ℤ) : Bool :=
  if k.dropPpm ≤ 0 then false else decide (draw < k.dropPpm)

/-- `should_drop`. -/
def shouldDrop (k : Knobs) (draw : ℤ) : Bool :=
  if k.any = false then false else k.shouldDropUngated draw

/-- `blocked` without its early return. -/
def blockedUngated (k : Knobs) (peer : Text) : Bool :=
  if k.identity = [] then false else decide (ordered k.identity peer ∈ k.partitions)

/-- `blocked`. -/
def blocked (k : Knobs) (peer : Text) : Bool :=
  if k.any = false ∨ k.anyPartition = false then false else k.blockedUngated peer

end Knobs

end Fault

end Dariyanaap

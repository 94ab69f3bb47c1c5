import Dariyanaap.Fault.Drop
import Dariyanaap.Fault.Latency
import Dariyanaap.Fault.Partitions
import Mathlib.Data.Sym.Sym2

/-!
# What the knobs stand for

The knobs keep a fraction as parts per million, a duration as a number of 64 bits and a cut as
two names in a fixed order. `Faults` is what they stand for: a fraction, two durations, and a set
of pairs that have no order. An instruction has one meaning for them, `Instruction.meaning`,
which no function of the fault library has a part in.

`Sound` holds of the knobs after every run of completed calls, and makes the gate say whether
there is any fault (`Sound.any_iff`).
-/

namespace Dariyanaap

namespace Fault

open Rounding (binary64)

/-! ## Faults -/

/-- The faults of a node, and its name. -/
@[ext]
structure Faults where
  latency : Nanos
  jitter : Nanos
  /-- The fraction of the responses that is dropped. -/
  drop : ℚ
  hanging : Bool
  identity : Text
  cuts : Set (Sym2 Text)

/-- There is a fault. A jitter alone delays nothing. -/
def Faults.On (f : Faults) : Prop :=
  f.latency ≠ 0 ∨ f.drop ≠ 0 ∨ f.hanging = true ∨ f.cuts.Nonempty

/-- What the knobs stand for. -/
def Knobs.faults (k : Knobs) : Faults where
  latency := k.latencyNs
  jitter := k.jitterNs
  drop := k.dropPpm / 1_000_000
  hanging := k.hanging
  identity := k.identity
  cuts := (fun pair => s(pair.1, pair.2)) '' (k.partitions : Set (Text × Text))

/-- An instruction to the fault library. -/
inductive Instruction where
  | latency (mean jitter : Millis)
  | drop (fraction : ℚ)
  | hang (on : Bool)
  | identity (name : Text)
  | partition (a b : Text)
  | heal (a b : Text)
  | clear
  | status

/-- What an instruction makes of the faults. -/
def Instruction.meaning (f : Faults) : Instruction → Faults
  | latency mean jitter => { f with latency := mean * 1_000_000, jitter := jitter * 1_000_000 }
  | drop fraction => { f with drop := fraction }
  | hang on => { f with hanging := on }
  | identity name => { f with identity := name }
  | partition a b => { f with cuts := insert s(a, b) f.cuts }
  | heal a b => { f with cuts := f.cuts \ {s(a, b)} }
  | clear =>
      { latency := 0, jitter := 0, drop := 0, hanging := false, identity := f.identity, cuts := ∅ }
  | status => f

/-- The faults after the instructions of a list. -/
def performed (f : Faults) (instructions : List Instruction) : Faults :=
  instructions.foldl Instruction.meaning f

@[simp]
theorem performed_append (f : Faults) (first later : List Instruction) :
    performed f (first ++ later) = performed (performed f first) later := List.foldl_append

/-! ## Sound knobs -/

/-- The flags are right, a cut has its names in the order of `ordered`, and a latency is a number
of 64 bits. -/
structure Sound (k : Knobs) : Prop extends Gated k where
  ordered (pair : Text × Text) (h : pair ∈ k.partitions) : Fault.ordered pair.1 pair.2 = pair
  latency_lt : k.latencyNs < 2 ^ 63

/-- The names are those of the pair, in one order or the other. -/
theorem sym2_ordered (a b : Text) : s((ordered a b).1, (ordered a b).2) = s(a, b) := by
  rw [ordered]
  split
  · exact Sym2.eq_swap
  · rfl

/-- Two pairs without an order are the same when `ordered` makes the same of them. -/
theorem ordered_eq_iff_sym2 {x y a b : Text} : ordered x y = ordered a b ↔ s(x, y) = s(a, b) := by
  rw [ordered_eq_iff, SamePair, Sym2.eq_iff]

theorem ordered_ordered (a b : Text) : ordered (ordered a b).1 (ordered a b).2 = ordered a b :=
  ordered_eq_iff_sym2.mpr (sym2_ordered a b)

section Sound

variable {k : Knobs}

/-- A completed request leaves sound knobs. -/
theorem Sound.request (h : Sound k) (fl : Rounding) (r : Request) : Sound (r.apply fl k) := by
  have hgated := h.toGated.request fl r
  cases r with
  | identity name => exact ⟨hgated, h.ordered, h.latency_lt⟩
  | nothing => exact h
  | setter s =>
    rw [Request.apply, Setter.call_eq] at hgated ⊢
    cases hrefusal : s.refusal with
    | some e => exact h
    | none =>
      rw [hrefusal] at hgated
      cases s with
      | setLatency mean jitter => exact ⟨hgated, h.ordered, wrapped_lt _⟩
      | setDropProbability probability =>
        refine ⟨hgated, ?_, ?_⟩
        · simp only [Setter.stores]
          cases asFraction probability <;> exact h.ordered
        · simp only [Setter.stores]
          cases asFraction probability <;> exact h.latency_lt
      | setHangForever hanging => exact ⟨hgated, h.ordered, h.latency_lt⟩
      | partition a b =>
        refine ⟨hgated, fun pair hpair => ?_, h.latency_lt⟩
        rcases Finset.mem_insert.mp hpair with rfl | hpair
        · exact ordered_ordered a b
        · exact h.ordered pair hpair
      | heal a b =>
        exact ⟨hgated, fun pair hpair => h.ordered pair (Finset.mem_of_mem_erase hpair),
          h.latency_lt⟩
      | clear =>
        exact ⟨hgated, fun pair hpair => absurd hpair (Finset.notMem_empty pair),
          (by decide : (0 : ℤ) < 2 ^ 63)⟩

/-- The knobs are sound after every run of completed calls. -/
theorem sound_reached (fl : Rounding) (calls : List Call) : Sound (reached fl calls) := by
  refine reached_induction ⟨⟨rfl, by simp⟩, nofun, by decide⟩ fun c _ k h => ?_
  rw [c.apply_eq]
  exact h.request fl _

/-- The gate of sound knobs says whether there is a fault. -/
theorem Sound.any_iff (h : Sound k) : k.any = true ↔ k.faults.On := by
  have hdrop : k.faults.drop ≠ 0 ↔ k.dropPpm ≠ 0 := by simp [Knobs.faults]
  have hcuts : k.faults.cuts.Nonempty ↔ k.partitions ≠ ∅ := by
    rw [Knobs.faults, Set.image_nonempty, Finset.coe_nonempty, Finset.nonempty_iff_ne_empty]
  rw [h.any, Faults.On, hdrop, hcuts, ← h.anyPartition]
  simp [Knobs.enabled, Knobs.faults, or_assoc]

/-! ## What the setters do to the faults -/

variable {fl : Rounding} {m j : Millis} {q : ℚ} {a b : Text}

/-- A latency whose nanoseconds fit in 64 bits is the one that was asked for. -/
theorem faults_setLatency (hpos : 0 ≤ j) (hle : j ≤ m) (hfits : m * 1_000_000 < 2 ^ 63)
    (k : Knobs) : ((Request.setter (.setLatency m j)).apply fl k).faults =
      (Instruction.latency m j).meaning k.faults := by
  have hjitter : j.toNanos < 2 ^ 63 := by
    unfold Millis.toNanos
    lia
  rw [Request.apply_setter (Setter.refusal_setLatency.mpr ⟨hpos, hle⟩)]
  exact Faults.ext (storedNanos_eq (hpos.trans hle) hfits) (storedNanos_eq hpos hjitter) rfl rfl
    rfl rfl

/-- A fraction is a whole number of parts per million, as far as the knobs go. -/
def WholeParts (q : ℚ) : Prop := ∃ n : ℤ, q * 1_000_000 = n

theorem wholeParts_faults (k : Knobs) : WholeParts k.faults.drop :=
  ⟨k.dropPpm, div_mul_cancel₀ _ (by norm_num)⟩

/-- Such a fraction is the one that was asked for, if its nearest `double` is accepted. -/
theorem faults_setDropProbability
    (h : Setter.refusal (.setDropProbability (.finite (binary64 q))) = none)
    (hparts : WholeParts q) (k : Knobs) : (0 ≤ q ∧ q ≤ 1) ∧
      ((Request.setter (.setDropProbability (.finite (binary64 q)))).apply binary64 k).faults =
        (Instruction.drop q).meaning k.faults := by
  obtain ⟨n, hn⟩ := hparts
  have hp : 0 ≤ binary64 q ∧ binary64 q ≤ 1 := by
    by_contra hout
    simp [Setter.refusal, asFraction, hout] at h
  have hfraction : asFraction (.finite (binary64 q)) = some (binary64 q) := if_pos hp
  refine ⟨probability_of_parts hp.1 hp.2 hn, ?_⟩
  rw [Request.apply_setter h, Setter.stores, hfraction]
  refine Faults.ext rfl rfl ?_ rfl rfl rfl
  show (dropPpm binary64 (binary64 q) : ℚ) / 1_000_000 = q
  rw [dropPpm_binary64_eq hp.1 hp.2 hn, ← hn, mul_div_cancel_right₀ _ (by norm_num)]

/-- A cut is a cut of the pair without an order, -/
theorem faults_partition (h : Setter.refusal (.partition a b) = none) (k : Knobs) :
    ((Request.setter (.partition a b)).apply fl k).faults =
      (Instruction.partition a b).meaning k.faults := by
  have hcuts : (fun pair : Text × Text => s(pair.1, pair.2)) ''
      (insert (ordered a b) k.partitions : Finset (Text × Text)) =
        insert s(a, b) k.faults.cuts := by
    rw [Finset.coe_insert, Set.image_insert_eq, sym2_ordered]
    rfl
  rw [Request.apply_setter h]
  exact Faults.ext rfl rfl rfl rfl rfl hcuts

/-- and mending one leaves the others. -/
theorem Sound.faults_heal (h : Sound k) (fl : Rounding) (a b : Text) :
    ((Request.setter (.heal a b)).apply fl k).faults =
      (Instruction.heal a b).meaning k.faults := by
  refine Faults.ext rfl rfl rfl rfl rfl (Set.ext fun pair => ?_)
  constructor
  · rintro ⟨cut, hcut, rfl⟩
    obtain ⟨hne, hmem⟩ := Finset.mem_erase.mp hcut
    refine ⟨⟨cut, hmem, rfl⟩, fun hsame => hne ?_⟩
    rw [← h.ordered cut hmem]
    exact ordered_eq_iff_sym2.mpr hsame
  · rintro ⟨⟨cut, hmem, rfl⟩, hother⟩
    refine ⟨cut, Finset.mem_erase.mpr ⟨?_, hmem⟩, rfl⟩
    rintro rfl
    exact hother (sym2_ordered a b)

/-- `clear` leaves no fault, and the name. -/
theorem faults_clear (fl : Rounding) (k : Knobs) :
    ((Request.setter .clear).apply fl k).faults = Instruction.clear.meaning k.faults := by
  refine Faults.ext rfl rfl ?_ rfl rfl ?_
  · exact (congrArg (· / (1_000_000 : ℚ)) Int.cast_zero).trans (zero_div _)
  · exact (congrArg _ Finset.coe_empty).trans (Set.image_empty _)

end Sound

end Fault

end Dariyanaap

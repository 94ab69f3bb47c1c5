import Dariyanaap.Fault.Command

/-!
# The fast path of the checks

Every check returns early when `g_any` is down, and `blocked` also when `g_any_partition` is.
Here the knobs are those that completed calls leave, one after the other from start-up, and the
question is whether the two flags say what the knobs say.

`Gated` is the invariant every completed call keeps: each flag equals what `refresh_gate` and
the partition setters compute it from. It makes the checks agree with their ungated versions in
every reachable state. It does not mention the jitter, which no flag is computed from: a jitter
without a latency leaves `g_any` down. The setters refuse one, except that a mean that is a
positive multiple of `2 ^ 58` milliseconds is stored as zero (`Call.Exact`).
-/

namespace Dariyanaap

namespace Fault

/-! ## Runs of completed calls -/

/-- A call of the fault library that changes knobs. -/
inductive Call where
  | setter (s : Setter)
  | setIdentity (name : Text)
  | applyCommand (line : Text)

/-- The knobs a call leaves, whether it returns or throws. -/
def Call.apply (fl : Rounding) (k : Knobs) : Call → Knobs
  | setter s => ((s.call fl).run.run k).2
  | setIdentity name => ((Fault.setIdentity name).run.run k).2
  | applyCommand line => ((Fault.applyCommand fl line).run.run k).2

/-- The knobs after a sequence of completed calls from start-up. -/
def reached (fl : Rounding) (calls : List Call) : Knobs := calls.foldl (Call.apply fl) {}

/-- What a call asks for. -/
def Call.request (fl : Rounding) : Call → Request
  | setter s => .setter s
  | setIdentity name => .identity name
  | applyCommand line => Fault.request fl line

theorem Call.apply_eq (fl : Rounding) (k : Knobs) (c : Call) :
    c.apply fl k = (c.request fl).apply fl k := by
  cases c with
  | setter s => rfl
  | setIdentity name => rfl
  | applyCommand line => exact applyCommand_state fl line k

/-- Induction over a run of completed calls. -/
theorem reached_induction {fl : Rounding} {P : Knobs → Prop} {calls : List Call}
    (hinit : P {}) (hstep : ∀ c ∈ calls, ∀ k, P k → P (c.apply fl k)) :
    P (reached fl calls) := by
  induction calls using List.reverseRecOn with
  | nil => exact hinit
  | append_singleton calls c ih =>
    rw [reached, List.foldl_append]
    exact hstep c (by simp) _ (ih fun d hd => hstep d (by simp [hd]))

/-! ## The gates -/

/-- The flags equal what they are computed from. -/
structure Gated (k : Knobs) : Prop where
  any : k.any = k.enabled
  anyPartition : k.anyPartition = true ↔ k.partitions ≠ ∅

/-- A completed request leaves the flags right. -/
theorem Gated.request {k : Knobs} (h : Gated k) (fl : Rounding) (r : Request) :
    Gated (r.apply fl k) := by
  cases r with
  | setter s =>
    rw [Request.apply, Setter.call_eq]
    cases s.refusal with
    | some e => exact h
    -- the refresh at the end of the setter makes the gate right by definition
    | none => exact ⟨rfl, Store.anyPartition_foldl _ h.anyPartition⟩
  | identity name => exact ⟨h.any, h.anyPartition⟩
  | nothing => exact h

/-- The flags are right after every run of completed calls. -/
theorem gated_reached (fl : Rounding) (calls : List Call) : Gated (reached fl calls) := by
  refine reached_induction ⟨rfl, by simp⟩ fun c _ k h => ?_
  rw [c.apply_eq]
  exact h.request fl _

/-- The three checks give what they would give without their early returns. -/
structure ChecksAgree (k : Knobs) : Prop where
  beforeResponse (draw : ℤ → ℤ) : k.beforeResponse draw = k.beforeResponseUngated draw
  shouldDrop (draw : ℤ) : k.shouldDrop draw = k.shouldDropUngated draw
  blocked (peer : Text) : k.blocked peer = k.blockedUngated peer

/-- With the gate down, every knob it is computed from is off. -/
theorem Gated.off {k : Knobs} (h : Gated k) (hany : k.any = false) :
    k.latencyNs = 0 ∧ k.dropPpm = 0 ∧ k.hanging = false ∧ k.partitions = ∅ := by
  have henabled : k.enabled = false := h.any ▸ hany
  have hpartitions := h.anyPartition
  simp only [Knobs.enabled, Bool.or_eq_false_iff, decide_eq_false_iff_not, not_not] at henabled
  obtain ⟨⟨⟨hlatency, hdrop⟩, hhanging⟩, hflag⟩ := henabled
  refine ⟨hlatency, hdrop, hhanging, ?_⟩
  by_contra hne
  rw [hpartitions.mpr hne] at hflag
  cases hflag

/-- Right flags make the fast path of every check agree with its slow path. -/
theorem Gated.checksAgree {k : Knobs} (h : Gated k) : ChecksAgree k where
  beforeResponse draw := by
    unfold Knobs.beforeResponse
    by_cases hany : k.any = false
    · obtain ⟨hlatency, -, hhanging, -⟩ := h.off hany
      rw [if_pos hany, Knobs.beforeResponseUngated, hlatency, hhanging, if_neg (lt_irrefl 0)]
    · rw [if_neg hany]
  shouldDrop draw := by
    unfold Knobs.shouldDrop
    by_cases hany : k.any = false
    · obtain ⟨-, hdrop, -, -⟩ := h.off hany
      rw [if_pos hany, Knobs.shouldDropUngated, hdrop, if_pos le_rfl]
    · rw [if_neg hany]
  blocked peer := by
    unfold Knobs.blocked
    by_cases hgate : k.any = false ∨ k.anyPartition = false
    · have hpartitions : k.partitions = ∅ := by
        -- both gates are right, so either of them down means no pair is cut
        rcases hgate with hany | hflag
        · exact (h.off hany).2.2.2
        · by_contra hne
          rw [h.anyPartition.mpr hne] at hflag
          cases hflag
      rw [if_pos hgate, Knobs.blockedUngated, hpartitions]
      simp
    · rw [if_neg hgate]

/-! ## What the flags stand for -/

/-- Some stored knob is not at its value for off, or some pair of nodes is cut. -/
def Knobs.Faulty (k : Knobs) : Prop :=
  k.latencyNs ≠ 0 ∨ k.jitterNs ≠ 0 ∨ k.dropPpm ≠ 0 ∨ k.hanging = true ∨ k.partitions ≠ ∅

/-- The fast path is faithful: both flags say what the knobs say, and the checks agree with
their slow paths. -/
structure FastPathFaithful (k : Knobs) : Prop extends ChecksAgree k where
  anyPartition : k.anyPartition = true ↔ k.partitions ≠ ∅
  any : k.any = true ↔ k.Faulty

/-- No jitter is stored without a latency. -/
def Knobs.Jitterless (k : Knobs) : Prop := k.latencyNs = 0 → k.jitterNs = 0

/-- Right flags are faithful when no jitter stands alone. -/
theorem Gated.faithful {k : Knobs} (h : Gated k) (hjitter : k.Jitterless) :
    FastPathFaithful k where
  toChecksAgree := h.checksAgree
  anyPartition := h.anyPartition
  any := by
    have hpartitions := h.anyPartition
    rw [h.any]
    simp only [Knobs.enabled, Knobs.Faulty, Bool.or_eq_true, decide_eq_true_eq, hpartitions]
    have := not_imp_not.mpr hjitter
    tauto

/-- A call whose latency is stored as zero only with its jitter: of the accepted latencies, a
mean that is a multiple of `2 ^ 58` milliseconds has a jitter that is one too. -/
def Call.Exact (fl : Rounding) (c : Call) : Prop :=
  ∀ mean jitter, c.request fl = .setter (.setLatency mean jitter) →
    0 ≤ jitter → jitter ≤ mean → (2 ^ 58 : ℤ) ∣ mean → (2 ^ 58 : ℤ) ∣ jitter

/-- An exact call leaves no jitter without a latency. -/
theorem Knobs.Jitterless.call {fl : Rounding} {c : Call} {k : Knobs} (h : k.Jitterless)
    (hexact : c.Exact fl) : (c.apply fl k).Jitterless := by
  rw [c.apply_eq]
  cases hrequest : c.request fl with
  | nothing => exact h
  | identity name => exact h
  | setter s =>
    rw [Request.apply, Setter.call_eq]
    cases hrefusal : s.refusal with
    | some e => exact h
    | none =>
      -- only `set_latency` and `clear` store a latency or a jitter
      cases s with
      | setLatency mean jitter =>
        obtain ⟨hjitter, hmean⟩ := Setter.refusal_setLatency.mp hrefusal
        intro hzero
        exact storedNanos_eq_zero_iff.mpr
          (hexact mean jitter hrequest hjitter hmean (storedNanos_eq_zero_iff.mp hzero))
      | setDropProbability probability =>
        simp only [Setter.stores]
        cases asFraction probability <;> exact h
      | setHangForever hanging => exact h
      | partition a b => exact h
      | heal a b => exact h
      | clear => exact fun _ => rfl

/-- A faithful state after one call from start-up means the call was exact. -/
theorem Call.exact_of_faithful {fl : Rounding} {c : Call}
    (h : FastPathFaithful (reached fl [c])) : c.Exact fl := by
  intro mean jitter hrequest hjitter hmean hzero
  have hstate : reached fl [c] =
      Knobs.refreshed { latencyNs := storedNanos mean, jitterNs := storedNanos jitter } := by
    rw [reached, List.foldl_cons, List.foldl_nil, c.apply_eq, hrequest, Request.apply,
      Setter.call_eq, Setter.refusal_setLatency.mpr ⟨hjitter, hmean⟩]
    rfl
  have hlatency : storedNanos mean = 0 := storedNanos_eq_zero_iff.mpr hzero
  by_contra hne
  -- the jitter is stored, the latency is not, and no other knob is on
  have hfaulty : (reached fl [c]).Faulty := by
    rw [hstate]
    exact .inr (.inl fun hjitterNs => hne (storedNanos_eq_zero_iff.mp hjitterNs))
  have hany : (reached fl [c]).any = true := h.any.mpr hfaulty
  rw [hstate, hlatency] at hany
  exact Bool.false_ne_true hany

/-- For every set of calls: the fast path is faithful after every run of calls of the set if and
only if each of them is exact. The flag of the partition set and the three checks are right
after every run of any calls. -/
theorem fastPath_faithful_iff (fl : Rounding) (allowed : Set Call) :
    ((∀ calls : List Call, (∀ c ∈ calls, c ∈ allowed) → FastPathFaithful (reached fl calls)) ↔
        ∀ c ∈ allowed, c.Exact fl) ∧
      ∀ calls : List Call, ChecksAgree (reached fl calls) ∧
        ((reached fl calls).anyPartition = true ↔ (reached fl calls).partitions ≠ ∅) := by
  refine ⟨⟨fun h c hc => ?_, fun h calls hcalls => ?_⟩, fun calls => ?_⟩
  · exact Call.exact_of_faithful (h [c] (by simpa using hc))
  · have hjitter : (reached fl calls).Jitterless :=
      reached_induction (fun _ => rfl) fun c hc k hk => hk.call (h c (hcalls c hc))
    exact (gated_reached fl calls).faithful hjitter
  · have hgated := gated_reached fl calls
    exact ⟨hgated.checksAgree, hgated.anyPartition⟩

/-- The command that stores a mean of `2 ^ 58` milliseconds, which is zero nanoseconds in 64
bits, with a jitter of one. -/
def wrappingLatency : Text := "latency 288230376151711744 1".toList

/-- It is accepted, leaves a jitter of a million nanoseconds, and leaves the gate down. -/
theorem wrappingLatency_gate_down :
    ((applyCommand .exact wrappingLatency).run.run {}).1 = .ok "ok".toList ∧
      (reached .exact [.applyCommand wrappingLatency]).jitterNs = 1_000_000 ∧
      (reached .exact [.applyCommand wrappingLatency]).any = false ∧
      ¬FastPathFaithful (reached .exact [.applyCommand wrappingLatency]) := by
  have hjitter : (reached .exact [.applyCommand wrappingLatency]).jitterNs = 1_000_000 := by
    decide +kernel
  have hany : (reached .exact [.applyCommand wrappingLatency]).any = false := by
    decide +kernel
  refine ⟨by decide +kernel, hjitter, hany, fun h => ?_⟩
  have hfaulty : (reached .exact [.applyCommand wrappingLatency]).Faulty :=
    .inr (.inl (by rw [hjitter]; decide))
  exact Bool.false_ne_true (hany.symm.trans (h.any.mpr hfaulty))

end Fault

end Dariyanaap

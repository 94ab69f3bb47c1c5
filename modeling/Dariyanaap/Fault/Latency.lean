import Dariyanaap.Fault.Command

/-!
# Injected latency

`set_latency` compares its two durations in milliseconds and stores them in nanoseconds;
`before_response` adds a draw to what was stored. Both the product and the sum are of 64 bits.
They are exact, and every delay is the mean give or take the jitter, exactly when the longest
delay that can be asked for fits in 64 bits (`setLatency_exact_iff`).
-/

namespace Dariyanaap

namespace Fault

/-- The wait that `before_response` computes from a positive latency, as long as it sleeps. -/
def drawnDelay (latency jitter draw : ℤ) : Nanos :=
  -- a wait that is not positive is no sleep
  max 0 (if 0 < jitter then wrapped (latency + draw) else latency)

/-- The delay of `before_response` once it is past its gate. -/
theorem Knobs.delay_ungated (k : Knobs) (draw : ℤ → ℤ) :
    (k.beforeResponseUngated draw).delay =
      if 0 < k.latencyNs then drawnDelay k.latencyNs k.jitterNs (draw k.jitterNs) else 0 := rfl

/-- A value of 64 bits is left as it is. -/
theorem wrapped_of_lt {value : ℤ} (hlow : -2 ^ 63 ≤ value) (hhigh : value < 2 ^ 63) :
    wrapped value = value := by
  apply Int.bmod_eq_of_le
  · exact hlow
  · exact hhigh

/-- What is left of any value is one of 64 bits. -/
theorem wrapped_lt (value : ℤ) : wrapped value < 2 ^ 63 := Int.bmod_lt (by decide)

/-- A duration whose nanoseconds fit is stored as what it is. -/
theorem storedNanos_eq {duration : Millis} (hpos : 0 ≤ duration)
    (hfits : duration.toNanos < 2 ^ 63) : storedNanos duration = duration.toNanos := by
  refine wrapped_of_lt ?_ hfits
  unfold Millis.toNanos
  lia

/-- A draw within the jitter is added to the mean, when the longest delay fits. -/
theorem drawnDelay_eq {latency jitter draw : ℤ} (hjitter : jitter ≤ latency)
    (hfits : latency + jitter < 2 ^ 63) (hlow : -jitter ≤ draw) (hhigh : draw ≤ jitter) :
    drawnDelay latency jitter draw = latency + draw := by
  rw [drawnDelay]
  by_cases hpos : 0 < jitter
  · rw [if_pos hpos, wrapped_of_lt (by lia) (by lia), max_eq_right (by lia)]
  · -- without a jitter the only draw is zero
    obtain rfl : draw = 0 := by lia
    rw [if_neg hpos, max_eq_right (by lia), add_zero]

/-- So is every draw of `before_response`, when the gate is up for a latency. -/
theorem delay_beforeResponse {k : Knobs} {draw : ℤ} (hgate : k.latencyNs ≠ 0 → k.any = true)
    (hjitter : k.jitterNs ≤ k.latencyNs) (hfits : k.latencyNs + k.jitterNs < 2 ^ 63)
    (hlow : -k.jitterNs ≤ draw) (hhigh : draw ≤ k.jitterNs) :
    (k.beforeResponse fun _ => draw).delay = k.latencyNs + draw := by
  rw [Knobs.beforeResponse]
  by_cases hzero : k.latencyNs = 0
  · -- the jitter is zero too
    have hdelay : (k.beforeResponseUngated fun _ => draw).delay = k.latencyNs + draw := by
      rw [Knobs.delay_ungated, if_neg (by lia)]
      lia
    split
    · show (0 : ℤ) = _
      lia
    · exact hdelay
  · have hpos : 0 < k.latencyNs := by lia
    rw [if_neg (by simp [hgate hzero]), Knobs.delay_ungated, if_pos hpos,
      drawnDelay_eq hjitter hfits hlow hhigh]

/-- What a mean and a jitter in milliseconds ask of the knobs: both are stored exactly in 64
bits, and for every draw within the jitter the sum is one of 64 bits and the delay lies between
the mean less the jitter and the mean plus the jitter. -/
structure DelaysAsAsked (mean jitter : Millis) (k : Knobs) : Prop where
  mean_stored : k.latencyNs = mean.toNanos ∧ mean.toNanos < 2 ^ 63
  jitter_stored : k.jitterNs = jitter.toNanos ∧ jitter.toNanos < 2 ^ 63
  delay_within (draw : ℤ) (hlow : -jitter.toNanos ≤ draw) (hhigh : draw ≤ jitter.toNanos) :
    k.latencyNs + draw < 2 ^ 63 ∧ 0 ≤ k.latencyNs + draw ∧
      (k.beforeResponse fun _ => draw).delay = k.latencyNs + draw ∧
      (mean - jitter).toNanos ≤ (k.beforeResponse fun _ => draw).delay ∧
      (k.beforeResponse fun _ => draw).delay ≤ (mean + jitter).toNanos

/-- What `set_latency` leaves when it returns. -/
theorem setLatency_ok {mean jitter : Millis} {k k' : Knobs}
    (h : (setLatency mean jitter).run.run k = (.ok (), k')) :
    (0 ≤ jitter ∧ jitter ≤ mean) ∧ k'.latencyNs = storedNanos mean ∧
      k'.jitterNs = storedNanos jitter ∧ k'.any = k'.enabled := by
  have hcall := Setter.call_eq .exact (.setLatency mean jitter) k
  rw [Setter.call, h] at hcall
  cases hrefusal : Setter.refusal (.setLatency mean jitter) with
  | some e =>
    rw [hrefusal] at hcall
    cases hcall
  | none =>
    rw [hrefusal] at hcall
    obtain ⟨-, rfl⟩ := Prod.mk.inj hcall
    exact ⟨Setter.refusal_setLatency.mp hrefusal, rfl, rfl, rfl⟩

/-- The knobs hold what `set_latency` was asked for, and every delay is the mean give or take the
jitter, when the longest delay fits in 64 bits, and otherwise not. -/
theorem setLatency_exact_iff {mean jitter : Millis} {k k' : Knobs}
    (h : (setLatency mean jitter).run.run k = (.ok (), k')) :
    DelaysAsAsked mean jitter k' ↔ (mean + jitter) * 1_000_000 < 2 ^ 63 := by
  obtain ⟨⟨hpos, hle⟩, hlatency, hjitter, hany⟩ := setLatency_ok h
  constructor
  · intro hasked
    -- the longest delay that can be drawn
    have hlongest := (hasked.delay_within jitter.toNanos (by unfold Millis.toNanos; lia) le_rfl).1
    rw [hasked.mean_stored.1] at hlongest
    unfold Millis.toNanos at hlongest
    lia
  · intro hfits
    rw [storedNanos_eq (hpos.trans hle) (by unfold Millis.toNanos; lia)] at hlatency
    rw [storedNanos_eq hpos (by unfold Millis.toNanos; lia)] at hjitter
    refine ⟨⟨hlatency, by unfold Millis.toNanos; lia⟩, ⟨hjitter, by unfold Millis.toNanos; lia⟩,
      fun draw hlow hhigh => ?_⟩
    have hdelay : (k'.beforeResponse fun _ => draw).delay = k'.latencyNs + draw := by
      refine delay_beforeResponse (fun hne => ?_) ?_ ?_ ?_ ?_
      · rw [hany, Knobs.enabled, decide_eq_true hne]
        rfl
      · rw [hlatency, hjitter]
        unfold Millis.toNanos
        lia
      · rw [hlatency, hjitter]
        unfold Millis.toNanos
        lia
      · rwa [hjitter]
      · rwa [hjitter]
    rw [hdelay, hlatency]
    unfold Millis.toNanos at hlow hhigh ⊢
    refine ⟨by lia, by lia, rfl, by lia, by lia⟩

/-- A mean of 100 ms with a jitter of 10 fits. -/
theorem setLatency_exact_iff_100_10 :
    DelaysAsAsked 100 10 (((setLatency 100 10).run.run {}).2) ↔
      ((100 : Millis) + 10) * 1_000_000 < 2 ^ 63 :=
  setLatency_exact_iff (k := {}) rfl

/-- A mean of 292 years, in milliseconds, is accepted and stored as a negative latency: the
delay is none at all. -/
theorem setLatency_wraps :
    ((applyCommand .exact "latency 9223372036855 0".toList).run.run {}).1 = .ok "ok".toList ∧
      ((applyCommand .exact "latency 9223372036855 0".toList).run.run {}).2.latencyNs =
        -9223372036854551616 ∧
      (((setLatency 9223372036855 0).run.run {}).2.beforeResponse fun _ => 0).delay = 0 ∧
      ¬∀ (mean jitter : Millis) (k k' : Knobs),
        (setLatency mean jitter).run.run k = (.ok (), k') → DelaysAsAsked mean jitter k' := by
  refine ⟨by decide +kernel, by decide +kernel, by decide +kernel, fun h => ?_⟩
  have hasked := h 9223372036855 0 {} _ rfl
  exact absurd hasked.mean_stored.2 (by decide)

end Fault

end Dariyanaap

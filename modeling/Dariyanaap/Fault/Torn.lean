import Dariyanaap.Fault.Gate
import Dariyanaap.Fault.Latency

/-!
# Torn latencies

Calls of `before_response` on any number of threads, while one other thread calls `set_latency`
and `clear` (`fault/knobs.cpp`). Each load and each store of an atomic is one step, and a call of
`before_response` loads the latency and the jitter in two of them. Next to the knobs the model
keeps the pairs that were asked for: a pair is in force from the start of the call that asks for
it until the next such call has returned.

A call is torn when it is about to load a jitter that is larger than the one of any pair in force
with the latency it has loaded (`Torn`). In a run without such a load every delay lies within a
pair that was in force during its call (`delay_within_unless_torn`), as long as the setters are
asked for durations that fit in 64 bits.
-/

namespace Dariyanaap

namespace Fault

open Interleaving

/-! ## Steps of a call -/

/-- Where a thread is in a call of `before_response`. The pairs from `since` on have been in force
during the call. -/
inductive Reader where
  /-- Between calls. -/
  | idle
  /-- At the load of the gate. -/
  | entered (since : ℕ)
  /-- At the load of the latency. -/
  | passed (since : ℕ)
  /-- At the load of the jitter. -/
  | holding (since : ℕ) (latency : ℤ)
  /-- At the draw. -/
  | drawing (since : ℕ) (latency jitter : ℤ)
  /-- At the load of the hang, behind the sleep. -/
  | waiting (since : ℕ) (delay : Nanos)
  deriving DecidableEq

/-- The thread that sets the latency, or one that serves requests. -/
inductive Party where
  | setter (pc : Pc)
  | reader (r : Reader)
  deriving DecidableEq

/-- The knobs, and the pairs that were asked for. -/
structure Shared where
  knobs : Knobs := {}
  /-- From the pair of start-up on. -/
  asked : List (Millis × Millis) := [(0, 0)]
  /-- The place of the pair whose call was the last to return. -/
  settled : ℕ := 0
  deriving DecidableEq

/-- What a call of `before_response` did: how long it slept, and the pairs that were in force
between its start and its end. -/
structure Wait where
  delay : Nanos
  inForce : List (Millis × Millis)
  deriving DecidableEq

/-- What a thread does next. -/
inductive Act where
  /-- A turn of the thread that sets the latency. -/
  | set (t : Turn)
  /-- A call of `before_response`. -/
  | call
  /-- The next load of the call. -/
  | load
  /-- The draw, and the sleep. -/
  | draw (d : ℤ)
  deriving DecidableEq

/-- The pair that a setter of the latency asks for. -/
def Setter.pair : Setter → Option (Millis × Millis)
  | setLatency mean jitter => some (mean, jitter)
  | clear => some (0, 0)
  | _ => none

/-- One atomic step of `before_response`. -/
def Reader.step (s : Shared) : Reader → Act → Option (Reader × List Wait)
  | .idle, .call => some (.entered s.settled, [])
  | .entered since, .load =>
      -- with the gate down the call returns at once
      if s.knobs.any = false then some (.idle, [⟨0, s.asked.drop since⟩])
      else some (.passed since, [])
  | .passed since, .load =>
      -- the jitter is loaded only behind a latency
      if 0 < s.knobs.latencyNs then some (.holding since s.knobs.latencyNs, [])
      else some (.waiting since 0, [])
  | .holding since latency, .load => some (.drawing since latency s.knobs.jitterNs, [])
  | .drawing since latency jitter, .draw d =>
      -- without a jitter nothing is drawn
      if 0 < jitter → -jitter ≤ d ∧ d ≤ jitter then
        some (.waiting since (drawnDelay latency jitter d), [])
      else none
  | .waiting since delay, .load =>
      -- a hang is loaded again and again until it is over
      if s.knobs.hanging then some (.waiting since delay, [])
      else some (.idle, [⟨delay, s.asked.drop since⟩])
  | _, _ => none

/-- One atomic step of the thread that sets the latency. A pair is asked for when the call is not
refused, and its call has returned when the gate is stored. -/
def Shared.set (fl : Rounding) (s : Shared) (pc : Pc) : Turn → Option (Shared × Pc)
  | .call setter => do
      -- no other setter is called
      let pair ← setter.pair
      let (knobs, pc', _) ← turn fl s.knobs pc (.call setter)
      return ({ s with
        knobs := knobs
        -- a call that was refused is over, and has asked for nothing
        asked := if pc' = .idle then s.asked else s.asked ++ [pair] }, pc')
  | .step => do
      let (knobs, pc', _) ← turn fl s.knobs pc .step
      return ({ s with
        knobs := knobs
        -- the store of the gate is the last step of a call
        settled := if pc' = .idle then s.asked.length - 1 else s.settled }, pc')

/-- One atomic step of a thread. -/
def act (fl : Rounding) (s : Shared) : Party → Act → Option (Shared × Party × List Wait)
  | .setter pc, .set t => (s.set fl pc t).map fun next => (next.1, .setter next.2, [])
  | .reader r, a => (r.step s a).map fun next => (s, .reader next.1, next.2)
  | _, _ => none

/-- The thread that sets the latency, and those that serve requests. -/
abbrev Delays : Type := Config Shared Party Act Wait

/-- Nothing has been called yet, by one thread that sets the latency and `n` that do not. -/
def Delays.start (n : ℕ) : Delays :=
  ⟨{}, .fresh (.setter .idle) :: List.replicate n (.fresh (.reader .idle))⟩

/-- The delay is one of a single pair that was in force. -/
def Wait.Within (w : Wait) : Prop :=
  ∃ pair ∈ w.inForce,
    (pair.1 - pair.2).toNanos ≤ w.delay ∧ w.delay ≤ (pair.1 + pair.2).toNanos

/-- A call is about to load a jitter that no pair in force has with the latency it has loaded,
nor a larger one. -/
def Torn (s : Shared) : Party → Prop
  | .reader (.holding since latency) =>
      ∀ pair ∈ s.asked.drop since, pair.1.toNanos = latency →
        pair.2.toNanos < s.knobs.jitterNs
  | _ => False

instance (s : Shared) (party : Party) : Decidable (Torn s party) := by
  unfold Torn
  split <;> infer_instance

/-- A setter is asked for durations that fit, or it refuses them. -/
def Act.Fits : Act → Prop
  | .set (.call (.setLatency mean jitter)) =>
      0 ≤ jitter → jitter ≤ mean → (mean + jitter) * 1_000_000 < 2 ^ 63
  | _ => True

instance (a : Act) : Decidable a.Fits := by
  unfold Act.Fits
  split <;> infer_instance

/-- A step that does not tear a call, and asks for what fits. -/
def Clean (c : Delays) (i : ℕ) (a : Act) : Prop :=
  (∀ t ∈ c.threads[i]?, ¬Torn c.shared t.state) ∧ a.Fits

instance (c : Delays) (i : ℕ) (a : Act) : Decidable (Clean c i a) :=
  inferInstanceAs (Decidable (_ ∧ _))

/-! ## What holds at every step -/

/-- A pair that can be asked for, and fits. -/
def Accepted (pair : Millis × Millis) : Prop :=
  0 ≤ pair.2 ∧ pair.2 ≤ pair.1 ∧ (pair.1 + pair.2) * 1_000_000 < 2 ^ 63

/-- What the knobs and the pairs have to do with each other. -/
structure Kept (s : Shared) : Prop where
  accepted : ∀ pair ∈ s.asked, Accepted pair
  /-- No draw is made from a negative jitter. -/
  jitter : 0 ≤ s.knobs.jitterNs
  /-- The latency is that of a pair in force, though the jitter may be that of another. -/
  latency : ∃ pair ∈ s.asked.drop s.settled, s.knobs.latencyNs = pair.1.toNanos
  /-- The gate is down only while a pair without a latency is in force. -/
  gate : s.knobs.any = false → ∃ pair ∈ s.asked.drop s.settled, pair.1 = 0

/-- A store of the setter that asks for a pair. -/
def Store.Of (pair : Millis × Millis) : Store → Prop
  | latency ns => ns = pair.1.toNanos
  | jitter ns => 0 ≤ ns
  | _ => True

/-- The stores a thread has still to make. -/
def Pc.pending : Pc → List Store
  | storing next rest => next :: rest
  | _ => []

/-- Where the thread that sets the latency is, and the pairs in force there. -/
inductive Setting (s : Shared) : Pc → Prop
  /-- Between calls one pair is in force. -/
  | idle {pair : Millis × Millis} (hpair : s.asked.drop s.settled = [pair])
      (hlatency : s.knobs.latencyNs = pair.1.toNanos) (hgate : s.knobs.any = s.knobs.enabled) :
      Setting s .idle
  /-- In a call the old pair is still in force, and the new one is on its way. -/
  | busy {pc : Pc} {old new : Millis × Millis} (hpairs : s.asked.drop s.settled = [old, new])
      (hlatency : s.knobs.latencyNs = old.1.toNanos ∨ s.knobs.latencyNs = new.1.toNanos)
      (hgate : s.knobs.any = false → old.1 = 0) (hpending : ∀ st ∈ pc.pending, st.Of new)
      (hlast : (pc.pending.foldl Store.apply s.knobs).latencyNs = new.1.toNanos)
      (hcurrent : pc.Current s.knobs) : Setting s pc

/-- What a call of `before_response` has loaded so far. -/
def Reading (s : Shared) : Reader → Prop
  | .idle | .holding _ _ => True
  | .entered since | .passed since => since ≤ s.settled
  | .drawing since latency jitter =>
      0 ≤ jitter ∧ ∃ pair ∈ s.asked.drop since, pair.1.toNanos = latency ∧
        jitter ≤ pair.2.toNanos
  | .waiting since delay => Wait.Within ⟨delay, s.asked.drop since⟩

section Steps

variable {fl : Rounding} {s s' : Shared}

theorem Millis.toNanos_eq_zero_iff {m : Millis} : m.toNanos = 0 ↔ m = 0 := by
  unfold Millis.toNanos
  lia

/-- Every delay of an accepted pair is zero when its mean is. -/
theorem within_zero {pair : Millis × Millis} {pairs : List (Millis × Millis)}
    (hmem : pair ∈ pairs) (haccepted : Accepted pair) (hzero : pair.1 = 0) :
    Wait.Within ⟨0, pairs⟩ := by
  obtain ⟨hpos, hle, -⟩ := haccepted
  refine ⟨pair, hmem, ?_⟩
  unfold Millis.toNanos
  dsimp only
  lia

/-- A draw from the jitter that was loaded stays within a pair with the latency that was loaded
and no smaller jitter. -/
theorem within_drawnDelay {pair : Millis × Millis} {pairs : List (Millis × Millis)}
    {jitter d : ℤ} (hmem : pair ∈ pairs) (haccepted : Accepted pair) (hpos : 0 ≤ jitter)
    (hle : jitter ≤ pair.2.toNanos) (hd : 0 < jitter → -jitter ≤ d ∧ d ≤ jitter) :
    Wait.Within ⟨drawnDelay pair.1.toNanos jitter d, pairs⟩ := by
  obtain ⟨-, hmean, hfits⟩ := haccepted
  obtain ⟨e, hlow, hhigh, he⟩ : ∃ e, -jitter ≤ e ∧ e ≤ jitter ∧
      drawnDelay pair.1.toNanos jitter d = pair.1.toNanos + e := by
    unfold Millis.toNanos at hle ⊢
    by_cases hzero : 0 < jitter
    · obtain ⟨hlow, hhigh⟩ := hd hzero
      exact ⟨d, hlow, hhigh, drawnDelay_eq (by lia) (by lia) hlow hhigh⟩
    · -- nothing is drawn
      refine ⟨0, by lia, by lia, ?_⟩
      rw [drawnDelay, if_neg hzero, max_eq_right (by lia), add_zero]
  refine ⟨pair, hmem, ?_⟩
  dsimp only
  rw [he]
  unfold Millis.toNanos at hle ⊢
  lia

/-- A step of a call keeps what the call holds, and what it did lies within a pair in force. -/
theorem Reading.step {r r' : Reader} {a : Act} {out : List Wait} (hkept : Kept s)
    (hreading : Reading s r) (htorn : ¬Torn s (.reader r)) (hstep : r.step s a = some (r', out)) :
    Reading s r' ∧ ∀ w ∈ out, w.Within := by
  -- what is in force now has been in force since the call began
  have hsince : ∀ {since pair}, since ≤ s.settled → pair ∈ s.asked.drop s.settled →
      pair ∈ s.asked.drop since := fun hle hmem =>
    (List.drop_sublist_drop_left _ hle).subset hmem
  unfold Reader.step at hstep
  split at hstep
  -- the call begins
  case h_1 =>
    obtain ⟨rfl, rfl⟩ := Prod.mk.inj (Option.some.inj hstep)
    exact ⟨le_refl s.settled, nofun⟩
  -- the load of the gate
  case h_2 since =>
    split at hstep
    next hany =>
      obtain ⟨rfl, rfl⟩ := Prod.mk.inj (Option.some.inj hstep)
      obtain ⟨pair, hpair, hzero⟩ := hkept.gate hany
      have haccepted := hkept.accepted _ (List.mem_of_mem_drop hpair)
      exact ⟨trivial, List.forall_mem_singleton.mpr <|
        within_zero (hsince hreading hpair) haccepted hzero⟩
    next =>
      obtain ⟨rfl, rfl⟩ := Prod.mk.inj (Option.some.inj hstep)
      exact ⟨hreading, nofun⟩
  -- the load of the latency
  case h_3 since =>
    split at hstep
    next =>
      obtain ⟨rfl, rfl⟩ := Prod.mk.inj (Option.some.inj hstep)
      exact ⟨trivial, nofun⟩
    next hlatency =>
      obtain ⟨rfl, rfl⟩ := Prod.mk.inj (Option.some.inj hstep)
      obtain ⟨pair, hpair, hheld⟩ := hkept.latency
      have haccepted := hkept.accepted _ (List.mem_of_mem_drop hpair)
      -- a latency in force that is not positive is none
      have hzero : pair.1 = 0 := by
        obtain ⟨hpos, hle, -⟩ := haccepted
        rw [hheld] at hlatency
        unfold Millis.toNanos at hlatency
        lia
      exact ⟨within_zero (hsince hreading hpair) haccepted hzero, nofun⟩
  -- the load of the jitter, which is where a call is torn
  case h_4 since latency =>
    obtain ⟨rfl, rfl⟩ := Prod.mk.inj (Option.some.inj hstep)
    simp only [Torn, not_forall, not_lt] at htorn
    obtain ⟨pair, hpair, hlatency, hjitter⟩ := htorn
    exact ⟨⟨hkept.jitter, pair, hpair, hlatency, hjitter⟩, nofun⟩
  -- the draw
  case h_5 since latency jitter d =>
    split at hstep
    next hd =>
      obtain ⟨rfl, rfl⟩ := Prod.mk.inj (Option.some.inj hstep)
      obtain ⟨hpos, pair, hpair, rfl, hle⟩ := hreading
      exact ⟨within_drawnDelay hpair (hkept.accepted _ (List.mem_of_mem_drop hpair)) hpos hle hd,
        nofun⟩
    next => cases hstep
  -- the load of the hang
  case h_6 since delay =>
    split at hstep
    · obtain ⟨rfl, rfl⟩ := Prod.mk.inj (Option.some.inj hstep)
      exact ⟨hreading, nofun⟩
    · obtain ⟨rfl, rfl⟩ := Prod.mk.inj (Option.some.inj hstep)
      exact ⟨trivial, List.forall_mem_singleton.mpr hreading⟩
  case h_7 => cases hstep

/-- The pairs of a state are in force in every later one. -/
structure Later (s s' : Shared) : Prop where
  asked : ∃ more, s'.asked = s.asked ++ more
  settled : s.settled ≤ s'.settled

theorem Later.refl (s : Shared) : Later s s := ⟨⟨[], (List.append_nil _).symm⟩, le_rfl⟩

/-- What a call holds does not get wrong by what is asked for next. -/
theorem Reading.later {r : Reader} (h : Reading s r) (hlater : Later s s') : Reading s' r := by
  obtain ⟨⟨more, hmore⟩, hsettled⟩ := hlater
  -- the pairs only grow at their end
  have hmem : ∀ {since pair}, pair ∈ s.asked.drop since → pair ∈ s'.asked.drop since := by
    intro since pair hpair
    rw [hmore, List.drop_append]
    exact List.mem_append_left _ hpair
  cases r with
  | idle => trivial
  | entered since => exact h.trans hsettled
  | passed since => exact h.trans hsettled
  | holding since latency => trivial
  | drawing since latency jitter =>
    obtain ⟨hpos, pair, hpair, hlatency, hjitter⟩ := h
    exact ⟨hpos, pair, hmem hpair, hlatency, hjitter⟩
  | waiting since delay =>
    obtain ⟨pair, hpair, hdelay⟩ := h
    exact ⟨pair, hmem hpair, hdelay⟩

/-- A gate that is right is down only over a mean of zero. -/
theorem mean_eq_zero {k : Knobs} {mean : Millis} (hgate : k.any = k.enabled)
    (hlatency : k.latencyNs = mean.toNanos) (hany : k.any = false) : mean = 0 := by
  rw [← Millis.toNanos_eq_zero_iff, ← hlatency]
  by_contra hne
  rw [hany, Knobs.enabled, decide_eq_true hne] at hgate
  cases hgate

/-- The place of the thread that sets the latency keeps the latency and the gate right. -/
theorem Setting.kept {pc : Pc} (h : Setting s pc) (haccepted : ∀ pair ∈ s.asked, Accepted pair)
    (hjitter : 0 ≤ s.knobs.jitterNs) : Kept s where
  accepted := haccepted
  jitter := hjitter
  latency := by
    cases h with
    | @idle pair hpair hlatency _ => exact ⟨pair, by simp [hpair], hlatency⟩
    | @busy _ old new hpairs hlatency _ _ _ _ =>
      rcases hlatency with hlatency | hlatency
      · exact ⟨old, by simp [hpairs], hlatency⟩
      · exact ⟨new, by simp [hpairs], hlatency⟩
  gate hany := by
    cases h with
    | @idle pair hpair hlatency hgate =>
      exact ⟨pair, by simp [hpair], mean_eq_zero hgate hlatency hany⟩
    | @busy _ old _ hpairs _ hgate _ _ _ => exact ⟨old, by simp [hpairs], hgate hany⟩

theorem Pc.pending_toStore (stores : List Store) : (Pc.toStore stores).pending = stores := by
  cases stores <;> rfl

theorem Pc.pending_afterLoad (operand : Operand) (on : Bool) :
    (Pc.afterLoad operand on).pending = [] := by
  unfold afterLoad
  cases on with
  | true => rfl
  | false => cases operand <;> rfl

theorem Pc.afterLoad_ne_idle (operand : Operand) (on : Bool) : Pc.afterLoad operand on ≠ .idle := by
  unfold afterLoad
  cases on with
  | true => exact nofun
  | false => cases operand <;> exact nofun

theorem Pc.toStore_ne_idle (stores : List Store) : Pc.toStore stores ≠ .idle := by
  cases stores <;> exact nofun

/-- The stores of an accepted call are of the pair it asks for, and leave its latency behind. -/
theorem Setter.stores_of (fl : Rounding) {st : Setter} {pair : Millis × Millis}
    (hpair : st.pair = some pair) (haccepted : Accepted pair) (k : Knobs) :
    (∀ store ∈ st.stores fl, store.Of pair) ∧
      ((st.stores fl).foldl Store.apply k).latencyNs = pair.1.toNanos := by
  obtain ⟨hpos, hle, hfits⟩ := haccepted
  cases st with
  | setLatency mean jitter =>
    obtain rfl : (mean, jitter) = pair := Option.some.inj hpair
    -- neither product wraps
    have hmean : storedNanos mean = mean.toNanos :=
      storedNanos_eq (hpos.trans hle) (by unfold Millis.toNanos; lia)
    have hjitter : storedNanos jitter = jitter.toNanos :=
      storedNanos_eq hpos (by unfold Millis.toNanos; lia)
    refine ⟨?_, hmean⟩
    rw [stores, hmean, hjitter, List.forall_mem_cons, List.forall_mem_singleton]
    exact ⟨rfl, by unfold Store.Of Millis.toNanos; lia⟩
  | clear =>
    obtain rfl : (0, 0) = pair := Option.some.inj hpair
    exact ⟨by simp [stores, Store.Of, Millis.toNanos], rfl⟩
  | setDropProbability probability => cases hpair
  | setHangForever hanging => cases hpair
  | partition a b => cases hpair
  | heal a b => cases hpair

/-- A store of a pair leaves the latency as it was or stores that of the pair, and no negative
jitter. The gate is no knob. -/
theorem Store.Of.apply {st : Store} {pair : Millis × Millis} (h : st.Of pair) (k : Knobs) :
    ((st.apply k).latencyNs = k.latencyNs ∨ (st.apply k).latencyNs = pair.1.toNanos) ∧
      (0 ≤ k.jitterNs → 0 ≤ (st.apply k).jitterNs) ∧ (st.apply k).any = k.any := by
  cases st with
  | latency ns => exact ⟨.inr h, id, rfl⟩
  | jitter ns => exact ⟨.inl rfl, fun _ => h, rfl⟩
  | drop ppm => exact ⟨.inl rfl, id, rfl⟩
  | hanging on => exact ⟨.inl rfl, id, rfl⟩
  | cut pair => exact ⟨.inl rfl, id, rfl⟩
  | mend pair => exact ⟨.inl rfl, id, rfl⟩
  | mendAll => exact ⟨.inl rfl, id, rfl⟩

/-- The call of a setter begins between calls, and is refused or has its stores to make. -/
theorem turn_call {k k' : Knobs} {pc pc' : Pc} {st : Setter} {out : List Empty}
    (h : turn fl k pc (.call st) = some (k', pc', out)) :
    pc = .idle ∧ k' = k ∧ (st.refusal ≠ none ∧ pc' = .idle ∨
      st.refusal = none ∧ pc' = .toStore (st.stores fl)) := by
  cases pc with
  | idle =>
    rw [turn] at h
    cases hrefusal : st.refusal with
    | none =>
      rw [hrefusal] at h
      obtain ⟨rfl, hpc⟩ := Prod.mk.inj (Option.some.inj h)
      exact ⟨rfl, rfl, .inr ⟨rfl, (Prod.mk.inj hpc).1.symm⟩⟩
    | some e =>
      rw [hrefusal] at h
      obtain ⟨rfl, hpc⟩ := Prod.mk.inj (Option.some.inj h)
      exact ⟨rfl, rfl, .inl ⟨Option.some_ne_none e, (Prod.mk.inj hpc).1.symm⟩⟩
  | storing next rest => cases h
  | loading operand => cases h
  | publishing found => cases h

/-- A pair that is not refused is accepted, when it fits. -/
theorem Setter.accepted {st : Setter} {pair : Millis × Millis} (hpair : st.pair = some pair)
    (hrefusal : st.refusal = none) (hfits : (Act.set (.call st)).Fits) : Accepted pair := by
  cases st with
  | setLatency mean jitter =>
    obtain rfl : (mean, jitter) = pair := Option.some.inj hpair
    obtain ⟨hpos, hle⟩ := refusal_setLatency.mp hrefusal
    exact ⟨hpos, hle, hfits hpos hle⟩
  | clear =>
    obtain rfl : (0, 0) = pair := Option.some.inj hpair
    exact ⟨le_rfl, le_rfl, by decide⟩
  | setDropProbability probability => cases hpair
  | setHangForever hanging => cases hpair
  | partition a b => cases hpair
  | heal a b => cases hpair

/-- A call that begins puts its pair in force next to the one that is. -/
theorem Setting.call {pc pc' : Pc} {st : Setter} (hkept : Kept s) (h : Setting s pc)
    (hfits : (Act.set (.call st)).Fits) (hset : s.set fl pc (.call st) = some (s', pc')) :
    Kept s' ∧ Setting s' pc' ∧ Later s s' := by
  simp only [Shared.set, Option.bind_eq_bind, Option.bind_eq_some_iff, Option.pure_def,
    Option.some.injEq, Prod.mk.injEq] at hset
  obtain ⟨pair, hpair, ⟨k, pc₁, out⟩, hturn, rfl, rfl⟩ := hset
  obtain ⟨rfl, rfl, ⟨-, rfl⟩ | ⟨hrefusal, rfl⟩⟩ := turn_call hturn
  · -- what is refused was not asked for
    exact ⟨hkept, h, .refl s⟩
  rw [if_neg (Pc.toStore_ne_idle _)]
  have haccepted : Accepted pair := st.accepted hpair hrefusal hfits
  obtain ⟨hof, hlast⟩ := Setter.stores_of fl hpair haccepted s.knobs
  have hsetting : Setting { s with asked := s.asked ++ [pair] } (.toStore (st.stores fl)) := by
    cases h with
    | @idle old hold hlatency hgate =>
      -- the pair in force stays the older of the two
      have hlt : s.settled < s.asked.length := by
        by_contra hle
        rw [List.drop_eq_nil_of_le (by lia)] at hold
        cases hold
      have hpairs : (s.asked ++ [pair]).drop s.settled = [old, pair] := by
        rw [List.drop_append_of_le_length hlt.le, hold]
        rfl
      refine .busy hpairs (.inl hlatency) (mean_eq_zero hgate hlatency) ?_ ?_
        (Pc.current_toStore _ _)
      · rwa [Pc.pending_toStore]
      · rwa [Pc.pending_toStore]
    | busy _ _ _ _ _ hcurrent => exact hcurrent.elim
  refine ⟨hsetting.kept (fun p hp => ?_) hkept.jitter, hsetting, ⟨[pair], rfl⟩, le_rfl⟩
  rcases List.mem_append.mp hp with hp | hp
  · exact hkept.accepted p hp
  · rwa [List.mem_singleton.mp hp]

/-- A step of the call keeps both pairs in force until the call returns, and then the new one. -/
theorem Setting.step {pc pc' : Pc} (hkept : Kept s) (h : Setting s pc)
    (hset : s.set fl pc .step = some (s', pc')) : Kept s' ∧ Setting s' pc' ∧ Later s s' := by
  simp only [Shared.set, Option.bind_eq_bind, Option.bind_eq_some_iff, Option.pure_def,
    Option.some.injEq, Prod.mk.injEq] at hset
  obtain ⟨⟨k, pc₁, out⟩, hturn, rfl, rfl⟩ := hset
  cases h with
  | idle => cases hturn
  | @busy _ old new hpairs hlatency hgate hpending hlast hcurrent =>
    cases pc with
    | idle => cases hturn
    | storing next rest =>
      obtain ⟨rfl, hpc⟩ := Prod.mk.inj (Option.some.inj hturn)
      obtain ⟨rfl, -⟩ := Prod.mk.inj hpc
      rw [if_neg (Pc.toStore_ne_idle _)]
      rw [Pc.pending, List.forall_mem_cons] at hpending
      obtain ⟨hnext, hjitter, hany⟩ := hpending.1.apply s.knobs
      have hsetting : Setting { s with knobs := next.apply s.knobs } (.toStore rest) := by
        refine .busy hpairs ?_ (fun h => hgate (hany ▸ h)) ?_ ?_ (Pc.current_toStore _ _)
        · -- the latency is stored once, and the other stores leave it alone
          rcases hnext with hsame | hnew
          · exact hsame ▸ hlatency
          · exact .inr hnew
        · rw [Pc.pending_toStore]
          exact hpending.2
        · rw [Pc.pending_toStore]
          exact hlast
      exact ⟨hsetting.kept hkept.accepted (hjitter hkept.jitter), hsetting,
        ⟨[], (List.append_nil _).symm⟩, le_rfl⟩
    | loading operand =>
      obtain ⟨rfl, hpc⟩ := Prod.mk.inj (Option.some.inj hturn)
      obtain ⟨rfl, -⟩ := Prod.mk.inj hpc
      rw [if_neg (Pc.afterLoad_ne_idle _ _)]
      have hsetting : Setting s (.afterLoad operand (s.knobs.on operand)) := by
        refine .busy hpairs hlatency hgate ?_ ?_ ((Pc.current_afterLoad _ _).mpr hcurrent)
        · rw [Pc.pending_afterLoad]
          exact nofun
        · rw [Pc.pending_afterLoad]
          exact hlast
      exact ⟨hkept, hsetting, .refl s⟩
    | publishing found =>
      obtain ⟨rfl, hpc⟩ := Prod.mk.inj (Option.some.inj hturn)
      obtain ⟨rfl, -⟩ := Prod.mk.inj hpc
      rw [if_pos rfl]
      -- the call returns: the new pair is alone in force
      have hlength : s.asked.length - s.settled = 2 := by
        rw [← List.length_drop, hpairs]
        rfl
      have hnew : s.asked.drop (s.asked.length - 1) = [new] := by
        rw [show s.asked.length - 1 = s.settled + 1 by lia, ← List.drop_drop, hpairs]
        rfl
      have hsetting : Setting { s with
          knobs := { s.knobs with any := found }
          settled := s.asked.length - 1 } .idle := .idle hnew hlast hcurrent
      exact ⟨hsetting.kept hkept.accepted hkept.jitter, hsetting, ⟨[], (List.append_nil _).symm⟩,
        show s.settled ≤ s.asked.length - 1 by lia⟩

end Steps

/-! ## Runs -/

/-- What holds of every thread: the first one sets the latency, the others do not, and what they
have done lies within pairs that were in force. -/
def Fits (s : Shared) (i : ℕ) (t : Thread Party Act Wait) : Prop :=
  (match t.state with
    | .setter pc => i = 0 ∧ Setting s pc
    | .reader r => Reading s r) ∧ ∀ w ∈ t.past, w.Within

/-- What holds at every point of a run. -/
structure Tracked (c : Delays) : Prop where
  kept : Kept c.shared
  threads : ∀ i t, c.threads[i]? = some t → Fits c.shared i t

variable {fl : Rounding} {n : ℕ}

theorem tracked_start (n : ℕ) : Tracked (.start n) := by
  have hpair : ([(0, 0)] : List (Millis × Millis)).drop 0 = [(0, 0)] := rfl
  have hsetting : Setting {} .idle := .idle hpair rfl rfl
  refine ⟨hsetting.kept (by simp [Accepted]) le_rfl, fun i t ht => ?_⟩
  cases i with
  | zero =>
    obtain rfl : _ = t := Option.some.inj ht
    exact ⟨⟨rfl, hsetting⟩, nofun⟩
  | succ i =>
    obtain rfl : t = _ := List.eq_of_mem_replicate (List.mem_of_getElem? ht)
    exact ⟨trivial, nofun⟩

/-- What holds of a thread that did not move goes on holding. -/
theorem Fits.later {s s' : Shared} {i : ℕ} {t : Thread Party Act Wait} (h : Fits s i t)
    (hlater : Later s s') (hsetting : ∀ pc, i = 0 → Setting s pc → Setting s' pc) :
    Fits s' i t := by
  obtain ⟨party, labels, past⟩ := t
  obtain ⟨hstate, hpast⟩ := h
  cases party with
  | setter pc => exact ⟨⟨hstate.1, hsetting pc hstate.1 hstate.2⟩, hpast⟩
  | reader r => exact ⟨Reading.later hstate hlater, hpast⟩

/-- A step is one of the thread that sets the latency, or of a call of `before_response`, which
stores nothing. -/
theorem act_cases {s s' : Shared} {party party' : Party} {a : Act} {out : List Wait}
    (h : act fl s party a = some (s', party', out)) :
    (∃ pc pc' turn, party = .setter pc ∧ a = .set turn ∧ s.set fl pc turn = some (s', pc') ∧
        party' = .setter pc' ∧ out = []) ∨
      ∃ r r', party = .reader r ∧ r.step s a = some (r', out) ∧ party' = .reader r' ∧ s' = s := by
  cases party with
  | setter pc =>
    cases a with
    | set turn =>
      simp only [act, Option.map_eq_some_iff, Prod.mk.injEq] at h
      obtain ⟨⟨s₁, pc'⟩, hset, rfl, rfl, rfl⟩ := h
      exact .inl ⟨pc, pc', turn, rfl, rfl, hset, rfl, rfl⟩
    | call => cases h
    | load => cases h
    | draw d => cases h
  | reader r =>
    simp only [act, Option.map_eq_some_iff, Prod.mk.injEq] at h
    obtain ⟨⟨r', out'⟩, hread, rfl, rfl, rfl⟩ := h
    exact .inr ⟨r, r', rfl, hread, rfl, rfl⟩

/-- A clean step keeps track. -/
theorem Tracked.move {c c' : Delays} {i : ℕ} {a : Act} (h : Tracked c) (hclean : Clean c i a)
    (hmove : c.move (act fl) i a = some c') : Tracked c' := by
  obtain ⟨t, s', party, out, ht, hact, rfl⟩ := step_cases hmove
  obtain ⟨hstate, hpast⟩ := h.threads i t ht
  have hlt : i < c.threads.length := (List.getElem?_eq_some_iff.mp ht).1
  have htorn := hclean.1 t ht
  -- the thread that moved, and the others under what is left of the shared state
  suffices hmoved : Kept s' ∧ Later c.shared s' ∧
      Fits s' i ⟨party, t.labels ++ [a], t.past ++ out⟩ ∧ (i = 0 ∨ s' = c.shared) by
    obtain ⟨hkept, hlater, hfits, hshared⟩ := hmoved
    refine ⟨hkept, fun j u hu => ?_⟩
    by_cases hj : j = i
    · subst hj
      rw [List.getElem?_set_self hlt] at hu
      exact Option.some.inj hu ▸ hfits
    · rw [List.getElem?_set_ne (Ne.symm hj)] at hu
      refine (h.threads j u hu).later hlater fun pc hzero hsetting => ?_
      rcases hshared with rfl | rfl
      · exact absurd hzero hj
      · exact hsetting
  obtain ⟨state, labels, past⟩ := t
  rcases act_cases hact with ⟨pc, pc', turn, rfl, rfl, hset, rfl, rfl⟩ |
    ⟨r, r', rfl, hread, rfl, rfl⟩
  · obtain ⟨rfl, hsetting⟩ : i = 0 ∧ Setting c.shared pc := hstate
    obtain ⟨hkept, hsetting', hlater⟩ : Kept s' ∧ Setting s' pc' ∧ Later c.shared s' := by
      cases turn with
      | call st => exact hsetting.call h.kept hclean.2 hset
      | step => exact hsetting.step h.kept hset
    rw [List.append_nil]
    exact ⟨hkept, hlater, ⟨⟨rfl, hsetting'⟩, hpast⟩, .inl rfl⟩
  · obtain ⟨hreading, hout⟩ := Reading.step h.kept hstate htorn hread
    refine ⟨h.kept, .refl _, ⟨hreading, fun w hw => ?_⟩, .inr rfl⟩
    exact (List.mem_append.mp hw).elim (hpast w) (hout w)

/-- In every run that tears no call, every delay lies within a single pair that was in force
between the start and the end of its call, as long as what is asked for fits. -/
theorem delay_within_unless_torn {schedule : List (ℕ × Act)} {c : Delays}
    (halong : (Delays.start n).Along (act fl) Clean schedule)
    (hrun : (Delays.start n).run (act fl) schedule = some c) :
    ∀ t ∈ c.threads, ∀ w ∈ t.past, w.Within := by
  have htracked : Tracked c :=
    run_induction_along (fun d i a d' hd hclean hmove => hd.move hclean hmove) (tracked_start n)
      halong hrun
  intro t ht w hw
  obtain ⟨i, hi⟩ := List.mem_iff_getElem?.mp ht
  exact (htracked.threads i t hi).2 w hw

/-- One thread sets a mean of 100 ms and a jitter, and the other begins a call and loads the
mean. -/
def loadMean (jitter : Millis) : List (ℕ × Act) :=
  (0, .set (.call (.setLatency 100 jitter))) :: List.replicate 4 (0, .set .step) ++
    [(1, .call), (1, .load), (1, .load)]

/-- A call that loads the jitter behind `clear` waits for the mean, which was in force. -/
theorem delay_within_unless_torn_clear :
    ∃ c, (Delays.start 1).run (act .exact) (loadMean 10 ++
        (0, .set (.call .clear)) :: List.replicate 2 (0, .set .step) ++
          [(1, .load), (1, .draw 0), (1, .load)]) = some c ∧
      (c.threads.flatMap Thread.past = [⟨100_000_000, [(100, 10), (0, 0)]⟩]) ∧
      ∀ t ∈ c.threads, ∀ w ∈ t.past, w.Within := by
  refine exists_run_eq (fun c => c.threads.flatMap Thread.past) _ (by decide +kernel)
    fun c hrun hc => ⟨hc, ?_⟩
  exact delay_within_unless_torn (by decide +kernel) hrun

/-- With no jitter the mean of 100 ms stands alone, and with 10 ms of jitter a mean of 10 ms comes
after it. The call that loads a mean of 100 ms and a jitter of 10 waits for 90. -/
theorem delay_torn :
    ∃ c, (Delays.start 1).run (act .exact) (loadMean 0 ++
        (0, .set (.call (.setLatency 10 10))) :: List.replicate 2 (0, .set .step) ++
          [(1, .load), (1, .draw (-10_000_000)), (1, .load)]) = some c ∧
      c.threads.flatMap Thread.past = [⟨90_000_000, [(100, 0), (10, 10)]⟩] ∧
      ¬∀ t ∈ c.threads, ∀ w ∈ t.past, w.Within := by
  refine exists_run_eq (fun c => c.threads.flatMap Thread.past) _ (by decide +kernel)
    fun c hrun hc => ⟨hc, fun h => ?_⟩
  obtain ⟨t, ht, hw⟩ : ∃ t ∈ c.threads, ⟨90_000_000, [(100, 0), (10, 10)]⟩ ∈ t.past :=
    List.mem_flatMap.mp (hc ▸ List.mem_singleton_self _)
  obtain ⟨pair, hpair, hdelay⟩ := h t ht _ hw
  revert hdelay
  revert pair
  decide

end Fault

end Dariyanaap

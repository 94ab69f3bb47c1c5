import Dariyanaap.Fault.Knobs
import Dariyanaap.Library.Interleaving

/-!
# Concurrent setters

Threads that call setters at the same time (`fault/knobs.cpp`). Each load and each store of an
atomic is one step, and so is a block under the partition mutex; `refresh_gate` loads the knobs
one after the other, stops at the first that is on, and stores what it found. Nothing holds the
knobs still between those loads and that store.

A thread is *current* when it will store what the knobs now say: it has stores of its own still
to make, or its loads have missed nothing. Some thread is current or the gate is right, and only
one kind of step ends that: a thread stores a value other threads have made wrong while no
thread is current (`Overwrites`). Without such a step the gate is right whenever all calls have
returned (`gate_right_of_along`), and after one the calls that are under way can all return
with the gate wrong (`gate_wrong_of_overwrites`).
-/

namespace Dariyanaap

namespace Fault

open Interleaving

/-! ## Steps of a setter -/

/-- What `refresh_gate` loads, in its order. -/
inductive Operand where
  | latency
  | drop
  | hanging
  | partition
  deriving DecidableEq

/-- The operand after one that was off. -/
def Operand.next : Operand → Option Operand
  | latency => some drop
  | drop => some hanging
  | hanging => some partition
  | partition => none

/-- Whether an operand is on. -/
def Knobs.on (k : Knobs) : Operand → Bool
  | .latency => decide (k.latencyNs ≠ 0)
  | .drop => decide (k.dropPpm ≠ 0)
  | .hanging => k.hanging
  | .partition => k.anyPartition

/-- Where a thread is in a call. -/
inductive Pc where
  /-- Between calls. -/
  | idle
  /-- It has a store to make, and more after it. -/
  | storing (next : Store) (rest : List Store)
  /-- It is in `refresh_gate`, at the load of an operand. -/
  | loading (operand : Operand)
  /-- It is in `refresh_gate`, about to store what it found. -/
  | publishing (found : Bool)
  deriving DecidableEq

/-- A thread with these stores to make before it refreshes the gate. -/
def Pc.toStore : List Store → Pc
  | [] => .loading .latency
  | s :: rest => .storing s rest

/-- A thread after the load of an operand that was on or not. -/
def Pc.afterLoad (operand : Operand) (on : Bool) : Pc :=
  if on then .publishing true
  else
    match operand.next with
    | some later => .loading later
    | none => .publishing false

/-- What a thread does next. -/
inductive Turn where
  /-- It calls a setter. -/
  | call (s : Setter)
  /-- It takes the next step of its call. -/
  | step
  deriving DecidableEq

/-- One atomic step of a thread. -/
def turn (fl : Rounding) (k : Knobs) : Pc → Turn → Option (Knobs × Pc × List Empty)
  | .idle, .call s =>
      -- a setter that refuses its arguments has touched nothing
      if s.refusal.isSome then some (k, .idle, []) else some (k, .toStore (s.stores fl), [])
  | .storing s rest, .step => some (s.apply k, .toStore rest, [])
  | .loading operand, .step => some (k, .afterLoad operand (k.on operand), [])
  -- a plain store, whatever the knobs say by now
  | .publishing found, .step => some ({ k with any := found }, .idle, [])
  | _, _ => none

/-- Knobs and the threads that set them. -/
abbrev Setters : Type := Config Knobs Pc Turn Empty

/-- Threads that have called nothing yet, over the knobs of start-up. -/
def Setters.start (n : ℕ) : Setters := Config.init {} .idle n

/-- Every call has returned. -/
def Setters.Returned (c : Setters) : Prop := ∀ t ∈ c.threads, t.state = .idle

/-- The gate says whether there is a fault. -/
def Knobs.GateRight (k : Knobs) : Prop :=
  k.any = true ↔ k.latencyNs ≠ 0 ∨ k.dropPpm ≠ 0 ∨ k.hanging = true ∨ k.partitions ≠ ∅

/-! ## What a refresh finds -/

variable {fl : Rounding}

/-- The loads of `refresh_gate` from one operand on, in the order they are made. -/
def Knobs.onFrom (k : Knobs) : Operand → Bool
  | .latency => k.enabled
  | .drop => k.on .drop || k.on .hanging || k.on .partition
  | .hanging => k.on .hanging || k.on .partition
  | .partition => k.on .partition

/-- What the loads find is the operand or what the later ones find. -/
theorem Knobs.onFrom_eq (k : Knobs) (operand : Operand) :
    k.onFrom operand = (k.on operand || (operand.next.map k.onFrom).getD false) := by
  cases operand with
  | latency => simp [onFrom, enabled, Operand.next, on, Bool.or_assoc]
  | drop => simp [onFrom, Operand.next, on, Bool.or_assoc]
  | hanging => rfl
  | partition => simp [onFrom, Operand.next]

/-! ## Steps of one thread -/

/-- A thread will store what the knobs say, unless a knob changes before it does. -/
def Pc.Current (k : Knobs) : Pc → Prop
  | .idle => False
  | .storing _ _ => True
  | .loading operand => k.onFrom operand = k.enabled
  | .publishing found => found = k.enabled

instance (k : Knobs) (pc : Pc) : Decidable (pc.Current k) := by
  cases pc <;> unfold Pc.Current <;> infer_instance

/-- A thread that is about to refresh the gate, or to make stores first, is current. -/
theorem Pc.current_toStore (k : Knobs) (stores : List Store) :
    (Pc.toStore stores).Current k := by
  cases stores with
  | nil => exact rfl
  | cons s rest => trivial

/-- The gate is no knob: storing it leaves every thread as current as it was. -/
theorem Pc.current_any {k : Knobs} (pc : Pc) (found : Bool) :
    pc.Current { k with any := found } ↔ pc.Current k := by
  cases pc with
  | idle => exact Iff.rfl
  | storing s rest => exact Iff.rfl
  | loading operand => cases operand <;> exact Iff.rfl
  | publishing value => exact Iff.rfl

/-- A load leaves a thread as current as it was. -/
theorem Pc.current_afterLoad (k : Knobs) (operand : Operand) :
    (Pc.afterLoad operand (k.on operand)).Current k ↔ (Pc.loading operand).Current k := by
  have hfrom := k.onFrom_eq operand
  rw [Pc.afterLoad, Pc.Current]
  cases hon : k.on operand with
  | true =>
    rw [hon, Bool.true_or] at hfrom
    rw [if_pos rfl, Pc.Current, hfrom]
  | false =>
    rw [hon, Bool.false_or] at hfrom
    rw [if_neg Bool.false_ne_true, hfrom]
    cases operand.next <;> exact Iff.rfl

/-- What a step of a thread does to the knobs, and whether it leaves the thread current. -/
theorem turn_cases {k k' : Knobs} {pc pc' : Pc} {a : Turn} {out : List Empty}
    (h : turn fl k pc a = some (k', pc', out)) :
    ((∃ s, a = .call s) ∧ pc = .idle ∧ k' = k) ∨
      ((∃ s : Store, k' = s.apply k) ∧ pc.Current k ∧ pc'.Current k') ∨
      (k' = k ∧ (pc'.Current k ↔ pc.Current k)) ∨
      ∃ found, pc = .publishing found ∧ k' = { k with any := found } ∧ pc' = .idle := by
  unfold turn at h
  split at h
  case h_1 s =>
    -- refused or not, the call itself touches no knob
    split at h
    · obtain ⟨rfl, -⟩ := Prod.mk.inj (Option.some.inj h)
      exact .inl ⟨⟨s, rfl⟩, rfl, rfl⟩
    · obtain ⟨rfl, -⟩ := Prod.mk.inj (Option.some.inj h)
      exact .inl ⟨⟨s, rfl⟩, rfl, rfl⟩
  case h_2 s rest =>
    simp only [Option.some.injEq, Prod.mk.injEq] at h
    obtain ⟨rfl, rfl, -⟩ := h
    exact .inr (.inl ⟨⟨s, rfl⟩, trivial, Pc.current_toStore _ rest⟩)
  case h_3 operand =>
    simp only [Option.some.injEq, Prod.mk.injEq] at h
    obtain ⟨rfl, rfl, -⟩ := h
    exact .inr (.inr (.inl ⟨rfl, Pc.current_afterLoad k operand⟩))
  case h_4 found =>
    simp only [Option.some.injEq, Prod.mk.injEq] at h
    obtain ⟨rfl, rfl, -⟩ := h
    exact .inr (.inr (.inr ⟨found, rfl, rfl, rfl⟩))
  case h_5 => cases h

/-! ## Runs -/

/-- Thread `i` is about to store a value that the knobs contradict, and no other thread is
current. -/
def Overwrites (c : Setters) (i : ℕ) : Prop :=
  ∃ found, c.threads[i]?.map Thread.state = some (.publishing found) ∧
    found ≠ c.shared.enabled ∧
    ∀ j < c.threads.length, j ≠ i → ∀ u ∈ c.threads[j]?, ¬u.state.Current c.shared

instance (c : Setters) (i : ℕ) : Decidable (Overwrites c i) :=
  inferInstanceAs (Decidable (∃ _, _))

/-- The flag of the partition set is right, and the gate is right or some thread is current. -/
structure Tended (c : Setters) : Prop where
  anyPartition : c.shared.anyPartition = true ↔ c.shared.partitions ≠ ∅
  gate : c.shared.any = c.shared.enabled ∨
    ∃ (j : ℕ) (u : Thread Pc Turn Empty), c.threads[j]? = some u ∧ u.state.Current c.shared

/-- Nothing is wrong at start-up. -/
theorem tended_start (n : ℕ) : Tended (.start n) where
  anyPartition := by simp [Setters.start, Config.init]
  gate := .inl rfl

/-- A step that does not overwrite keeps the gate tended. -/
theorem Tended.move {c c' : Setters} {i : ℕ} {a : Turn} (h : Tended c) (hok : ¬Overwrites c i)
    (hmove : c.move (turn fl) i a = some c') : Tended c' := by
  obtain ⟨t, k', pc', out, ht, hturn, rfl⟩ := step_cases hmove
  have hlt : i < c.threads.length := (List.getElem?_eq_some_iff.mp ht).1
  -- a current thread other than the one that moves is still there
  have hothers : ∀ j u, j ≠ i → c.threads[j]? = some u →
      (c.threads.set i ⟨pc', t.labels ++ [a], t.past ++ out⟩)[j]? = some u := fun j u hj hu => by
    rw [List.getElem?_set_ne hj.symm, hu]
  rcases turn_cases hturn with ⟨-, hidle, rfl⟩ | ⟨⟨s, rfl⟩, -, hcurrent⟩ | ⟨rfl, hcurrent⟩ |
    ⟨found, hpublishing, rfl, rfl⟩
  · -- a call begins: the thread was not current
    refine ⟨h.anyPartition, h.gate.imp_right ?_⟩
    rintro ⟨j, u, hu, hcurrent⟩
    refine ⟨j, u, hothers j u ?_ hu, hcurrent⟩
    rintro rfl
    rw [ht] at hu
    rw [← Option.some.inj hu, hidle] at hcurrent
    exact hcurrent
  · -- a store makes the thread that made it current
    exact ⟨s.anyPartition_apply h.anyPartition, .inr ⟨i, _, List.getElem?_set_self hlt, hcurrent⟩⟩
  · -- a load leaves the thread as current as it was
    refine ⟨h.anyPartition, h.gate.imp_right ?_⟩
    rintro ⟨j, u, hu, hu'⟩
    by_cases hj : j = i
    · subst hj
      rw [ht] at hu
      exact ⟨j, _, List.getElem?_set_self hlt, hcurrent.mpr (Option.some.inj hu ▸ hu')⟩
    · exact ⟨j, u, hothers j u hj hu, hu'⟩
  · -- the gate is stored: rightly, or another thread is current
    by_cases hfound : found = c.shared.enabled
    · exact ⟨h.anyPartition, .inl hfound⟩
    · obtain ⟨j, u, hj, hu, hcurrent⟩ : ∃ j u, j ≠ i ∧ c.threads[j]? = some u ∧
          u.state.Current c.shared := by
        by_contra hnone
        refine hok ⟨found, by rw [ht, Option.map_some, hpublishing], hfound, ?_⟩
        exact fun j _ hj u hu hcurrent => hnone ⟨j, u, hj, hu, hcurrent⟩
      exact ⟨h.anyPartition,
        .inr ⟨j, u, hothers j u hj hu, (u.state.current_any found).mpr hcurrent⟩⟩

/-- With the flag of the partition set right, `refresh_gate` computes what the gate is to say. -/
theorem Knobs.gateRight_iff {k : Knobs} (h : k.anyPartition = true ↔ k.partitions ≠ ∅) :
    k.GateRight ↔ k.any = k.enabled := by
  have henabled : k.enabled = true ↔
      k.latencyNs ≠ 0 ∨ k.dropPpm ≠ 0 ∨ k.hanging = true ∨ k.partitions ≠ ∅ := by
    simp only [enabled, Bool.or_eq_true, decide_eq_true_eq, h, or_assoc]
  rw [GateRight, ← henabled, ← Bool.eq_iff_iff]

/-- When all calls have returned after a run in which no step overwrites, the gate is right. -/
theorem gate_right_of_along {n : ℕ} {schedule : List (ℕ × Turn)} {c : Setters}
    (halong : (Setters.start n).Along (turn fl) (fun d i _ => ¬Overwrites d i) schedule)
    (hrun : (Setters.start n).run (turn fl) schedule = some c) (hreturned : c.Returned) :
    c.shared.GateRight := by
  have htended : Tended c :=
    run_induction_along (fun d i a d' hd hok hmove => hd.move hok hmove) (tended_start n)
      halong hrun
  rw [Knobs.gateRight_iff htended.anyPartition]
  rcases htended.gate with hgate | ⟨j, u, hu, hcurrent⟩
  · exact hgate
  · rw [hreturned u (List.mem_of_getElem? hu)] at hcurrent
    exact hcurrent.elim

/-! ## After an overwrite -/

/-- The gate is wrong and no thread is current to put it right. -/
structure Abandoned (c : Setters) : Prop where
  anyPartition : c.shared.anyPartition = true ↔ c.shared.partitions ≠ ∅
  gate : c.shared.any ≠ c.shared.enabled
  stale : ∀ t ∈ c.threads, ¬t.state.Current c.shared

/-- The steps a thread has left in its call, when no store of its own is among them. -/
def Pc.left : Pc → ℕ
  | .idle => 0
  | .publishing _ => 1
  | .loading .partition => 2
  | .loading .hanging => 3
  | .loading .drop => 4
  | .loading .latency => 5
  | .storing _ rest => rest.length + 6

/-- A thread in a call can take a step, which leaves it fewer. -/
theorem exists_turn (fl : Rounding) (k : Knobs) {pc : Pc} (h : pc.left ≠ 0) :
    ∃ k' pc' out, turn fl k pc .step = some (k', pc', out) ∧ pc'.left < pc.left := by
  cases pc with
  | idle => exact absurd rfl h
  | storing s rest =>
    refine ⟨_, _, _, rfl, ?_⟩
    cases rest <;> simp [Pc.toStore, Pc.left]
  | loading operand =>
    refine ⟨_, _, _, rfl, ?_⟩
    cases operand <;> cases k.on _ <;> decide
  | publishing found => exact ⟨_, _, _, rfl, Nat.zero_lt_one⟩

/-- Only a thread between calls has no step left. -/
theorem Pc.eq_idle_of_left {pc : Pc} (h : pc.left = 0) : pc = .idle := by
  cases pc with
  | idle => rfl
  | storing s rest => cases h
  | loading operand => cases operand <;> cases h
  | publishing found => cases h

/-- The steps of threads that are not current put nothing right. -/
theorem Abandoned.move {c : Setters} {i : ℕ} {t : Thread Pc Turn Empty} {k' : Knobs} {pc' : Pc}
    {out past : List Empty} {labels : List Turn} (h : Abandoned c)
    (ht : c.threads[i]? = some t)
    (hturn : turn fl c.shared t.state .step = some (k', pc', out)) :
    Abandoned ⟨k', c.threads.set i ⟨pc', labels, past⟩⟩ := by
  have hstale : ¬t.state.Current c.shared := h.stale t (List.mem_of_getElem? ht)
  rcases turn_cases hturn with ⟨⟨s, hcall⟩, -⟩ | ⟨-, hcurrent, -⟩ | ⟨rfl, hcurrent⟩ |
    ⟨found, hpublishing, rfl, rfl⟩
  · cases hcall
  · exact absurd hcurrent hstale
  · refine ⟨h.anyPartition, h.gate, fun u hu => ?_⟩
    rcases List.mem_or_eq_of_mem_set hu with hu | rfl
    · exact h.stale u hu
    · exact fun hnew => hstale (hcurrent.mp hnew)
  -- a store of the gate by a thread that is not current stores the wrong value
  · refine ⟨h.anyPartition, fun hright => hstale ?_, fun u hu => ?_⟩
    · rw [hpublishing]
      exact hright
    · rw [Pc.current_any]
      rcases List.mem_or_eq_of_mem_set hu with hu | rfl
      · exact h.stale u hu
      · exact id

/-- An overwrite leaves the gate wrong with no thread to put it right. -/
theorem Overwrites.abandoned (fl : Rounding) {c : Setters} {i : ℕ} (h : Overwrites c i)
    (hpartition : c.shared.anyPartition = true ↔ c.shared.partitions ≠ ∅) :
    ∃ c', c.move (turn fl) i .step = some c' ∧ Abandoned c' := by
  obtain ⟨found, hi, hfound, hothers⟩ := h
  obtain ⟨t, ht, hpublishing⟩ := Option.map_eq_some_iff.mp hi
  have hturn : turn fl c.shared t.state .step =
      some ({ c.shared with any := found }, .idle, []) := by
    rw [hpublishing]
    rfl
  refine ⟨_, move_eq ht hturn, hpartition, hfound, fun u hu => ?_⟩
  rw [Pc.current_any]
  obtain ⟨j, hj⟩ := List.mem_iff_getElem?.mp hu
  by_cases hji : j = i
  · -- the thread that overwrote is between calls
    subst hji
    rw [List.getElem?_set_self (List.getElem?_eq_some_iff.mp ht).1] at hj
    rw [← Option.some.inj hj]
    exact id
  · rw [List.getElem?_set_ne (Ne.symm hji)] at hj
    exact hothers j (List.getElem?_eq_some_iff.mp hj).1 hji u hj

/-- After an overwrite the calls under way can all return with the gate wrong. -/
theorem gate_wrong_of_overwrites {c : Setters} {i : ℕ} (h : Overwrites c i)
    (hpartition : c.shared.anyPartition = true ↔ c.shared.partitions ≠ ∅) :
    ∃ (turns : List ℕ) (c' : Setters), c.run (turn fl) (turns.map (·, .step)) = some c' ∧
      c'.Returned ∧ ¬c'.shared.GateRight := by
  obtain ⟨d, hmove, hd⟩ := h.abandoned fl hpartition
  obtain ⟨turns, c', hrun, hc', hleft⟩ := exists_run_to_rest (P := Abandoned) Pc.left .step
    (fun e j t he ht hleft => by
      obtain ⟨k', pc', out, hturn, hless⟩ := exists_turn fl e.shared hleft
      exact ⟨k', pc', out, hturn, hless, he.move ht hturn⟩) hd
  -- the overwriting step first, and then every thread to the end of its call
  refine ⟨i :: turns, c', ?_, fun t ht => Pc.eq_idle_of_left (hleft t ht), ?_⟩
  · rw [List.map_cons, Config.run, hmove, Option.bind_some, hrun]
  · rw [Knobs.gateRight_iff hc'.anyPartition]
    exact hc'.gate

/-- The flag of the partition set is right after every run. -/
theorem anyPartition_run {n : ℕ} {schedule : List (ℕ × Turn)} {c : Setters}
    (hrun : (Setters.start n).run (turn fl) schedule = some c) :
    c.shared.anyPartition = true ↔ c.shared.partitions ≠ ∅ := by
  refine run_induction (P := fun d : Setters =>
    d.shared.anyPartition = true ↔ d.shared.partitions ≠ ∅) ?_ (tended_start n).anyPartition hrun
  intro d i a d' hd hmove
  obtain ⟨t, k', pc', out, -, hturn, rfl⟩ := step_cases hmove
  rcases turn_cases hturn with ⟨-, -, rfl⟩ | ⟨⟨s, rfl⟩, -⟩ | ⟨rfl, -⟩ | ⟨found, -, rfl, -⟩
  · exact hd
  · exact s.anyPartition_apply hd
  · exact hd
  · exact hd

/-- For any number of threads: after every run without an overwrite, the gate is right once all
calls have returned; and wherever a run can overwrite, the calls under way can all return with
the gate wrong. -/
theorem gate_right_unless_overwritten (fl : Rounding) (n : ℕ) :
    (∀ schedule (c : Setters),
        (Setters.start n).Along (turn fl) (fun d i _ => ¬Overwrites d i) schedule →
        (Setters.start n).run (turn fl) schedule = some c → c.Returned → c.shared.GateRight) ∧
      ∀ schedule (c : Setters) i,
        (Setters.start n).run (turn fl) schedule = some c → Overwrites c i →
        ∃ (turns : List ℕ) (c' : Setters), c.run (turn fl) (turns.map (·, .step)) = some c' ∧
          c'.Returned ∧ ¬c'.shared.GateRight :=
  ⟨fun _ _ halong hrun hreturned => gate_right_of_along halong hrun hreturned,
    fun _ _ _ hrun hover => gate_wrong_of_overwrites hover (anyPartition_run hrun)⟩

/-- Two threads set the hang, one off and one on. The first has made its store and found every
knob off when the second comes. -/
def bothSetHang : List (ℕ × Turn) :=
  (0, .call (.setHangForever false)) :: List.replicate 5 (0, .step) ++
    [(1, .call (.setHangForever true)), (1, .step)]

/-- The first thread stores what it found before the second has refreshed the gate: the value is
wrong, but the second thread is current. -/
theorem gate_right_unless_overwritten_both_set_hang :
    ∃ c, (Setters.start 2).run (turn .exact)
        (bothSetHang ++ (0, .step) :: List.replicate 4 (1, .step)) = some c ∧
      (c.shared.any, c.shared.hanging, c.threads.map Thread.state) =
        (true, true, [.idle, .idle]) ∧ c.shared.GateRight := by
  refine exists_run_eq
    (fun c => (c.shared.any, c.shared.hanging, c.threads.map Thread.state))
    (true, true, [.idle, .idle]) (by decide +kernel) fun c hrun hc => ⟨hc, ?_⟩
  have hthreads : c.threads.map Thread.state = [.idle, .idle] := (Prod.mk.inj (Prod.mk.inj hc).2).2
  refine (gate_right_unless_overwritten .exact 2).1 _ c (by decide +kernel) hrun fun t ht => ?_
  have hmem : t.state ∈ c.threads.map Thread.state := List.mem_map_of_mem ht
  rw [hthreads] at hmem
  simpa using hmem

/-- The second thread returns first, and the first one stores what it found over the gate: the
hang is on and the gate is down, with every call returned. -/
theorem hang_lost :
    ∃ c, (Setters.start 2).run (turn .exact)
        (bothSetHang ++ List.replicate 4 (1, .step) ++ [(0, .step)]) = some c ∧
      (c.shared.any, c.shared.hanging, c.threads.map Thread.state) =
        (false, true, [.idle, .idle]) ∧ ¬c.shared.GateRight := by
  refine exists_run_eq
    (fun c => (c.shared.any, c.shared.hanging, c.threads.map Thread.state))
    (false, true, [.idle, .idle]) (by decide +kernel) fun c hrun hc => ⟨hc, fun hright => ?_⟩
  obtain ⟨hany, hrest⟩ := Prod.mk.inj hc
  have hgate := hright.mpr (.inr (.inr (.inl (Prod.mk.inj hrest).1)))
  exact Bool.false_ne_true (hany.symm.trans hgate)

end Fault

end Dariyanaap

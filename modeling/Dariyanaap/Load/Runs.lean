import Dariyanaap.Load.ClosedLoop
import Dariyanaap.Load.OpenLoop

/-!
# What holds of every run

The two loops are written separately and merged separately. This module states once what both
guarantee for any number of workers, any interleaving, any window and any answers of the
environment: no request vanishes from the report (`runs_accounted`), and no socket carries
another request after an exchange that was not a whole reply (`closedLoop_chain`,
`openLoop_chain`).
-/

namespace Dariyanaap

variable {Reply : Type*} {perform : Reply → Option Exchange}

/-- The successes among the measured attempts of a closed-loop run. -/
def ClosedLoop.successes (window : RunWindow) (state : ClosedLoop.State Reply) : ℕ :=
  (ClosedLoop.attempts window state).countP (Attempt.ended .succeeded)

/-- The successes among the measured attempts of an open-loop run. -/
def OpenLoop.successes (window : RunWindow) (state : OpenLoop.State Reply) : ℕ :=
  (OpenLoop.attempts window state).countP (Attempt.ended .succeeded)

/-- No request vanishes: the merged report of every run of either loop accounts for every
attempt, whatever exchanges return. -/
theorem runs_accounted (fl : Rounding) (perform : Reply → Option Exchange) (started : Instant)
    (threads : ℕ) (resolution : Nanos) (schedule : List (ℕ × Call Reply)) :
    (∀ (plan : ClosedLoopPlan) (state : ClosedLoop.State Reply),
      (ClosedLoop.spawn Reply plan started threads).run
          (ConnectionWorker.step perform (plan.window started)) schedule = some state →
        Accounted (ClosedLoop.collect fl plan resolution state).result
          (ClosedLoop.collect fl plan resolution state).histogram
          (ClosedLoop.successes (plan.window started) state)) ∧
      ∀ (plan : OpenLoopPlan) (state : OpenLoop.State Reply),
        (OpenLoop.spawn Reply plan started threads).run
            (OpenLoopWorker.step fl perform (plan.window started)) schedule = some state →
          Accounted (OpenLoop.collect fl plan resolution state).result
            (OpenLoop.collect fl plan resolution state).histogram
            (OpenLoop.successes (plan.window started) state) :=
  ⟨fun _ _ hrun => ClosedLoop.collect_accounted hrun fl resolution,
    fun _ _ hrun => OpenLoop.collect_accounted hrun resolution⟩

/-- Two workers of each loop in a window of 10 ms, one refused and one served. -/
theorem runs_accounted_refused_and_served :
    (∃ state : ClosedLoop.State Exchange,
      (ClosedLoop.spawn Exchange { duration := 10 } 0 2).run
          (ConnectionWorker.step some ((ClosedLoopPlan.window { duration := 10 }) 0))
          [(0, .now 0), (1, .now 0), (1, .connect .connected), (0, .connect .refused),
            (1, .perform ⟨.succeeded, 5, true⟩), (0, .sleepFor), (0, .now 10_000_000),
            (1, .now 10_000_000)] = some state ∧
        ClosedLoop.successes ((ClosedLoopPlan.window { duration := 10 }) 0) state = 1 ∧
        (ClosedLoop.collect .exact { duration := 10 } 0 state).result.attempted = 2 ∧
        Accounted (ClosedLoop.collect .exact { duration := 10 } 0 state).result
          (ClosedLoop.collect .exact { duration := 10 } 0 state).histogram 1) ∧
      ∃ state : OpenLoop.State Exchange,
        (OpenLoop.spawn Exchange { duration := 10 } 0 2).run
            (OpenLoopWorker.step .exact some ((OpenLoopPlan.window { duration := 10 }) 0))
            [(0, .now 0), (1, .now 0), (1, .connect .connected), (0, .connect .refused),
              (1, .now 1), (1, .claim), (1, .sleepUntil 0 2), (1, .now 3),
              (1, .perform ⟨.succeeded, 5, true⟩), (0, .now 4), (0, .sleepFor),
              (0, .now 10_000_000), (1, .now 10_000_000)] = some state ∧
          OpenLoop.successes ((OpenLoopPlan.window { duration := 10 }) 0) state = 1 ∧
          (OpenLoop.collect .exact { duration := 10 } 0 state).result.attempted = 2 ∧
          Accounted (OpenLoop.collect .exact { duration := 10 } 0 state).result
            (OpenLoop.collect .exact { duration := 10 } 0 state).histogram 1 := by
  constructor
  · refine Interleaving.exists_run_eq (fun state =>
      (ClosedLoop.successes ((ClosedLoopPlan.window { duration := 10 }) 0) state,
        (ClosedLoop.collect .exact { duration := 10 } 0 state).result.attempted)) (1, 2)
      (by decide +kernel) fun state hrun hcounts => ?_
    obtain ⟨hsuccesses, hattempted⟩ := Prod.mk.inj hcounts
    refine ⟨hsuccesses, hattempted, ?_⟩
    rw [← hsuccesses]
    exact (runs_accounted .exact some 0 2 0 _).1 { duration := 10 } state hrun
  · refine Interleaving.exists_run_eq (fun state =>
      (OpenLoop.successes ((OpenLoopPlan.window { duration := 10 }) 0) state,
        (OpenLoop.collect .exact { duration := 10 } 0 state).result.attempted)) (1, 2)
      (by decide +kernel) fun state hrun hcounts => ?_
    obtain ⟨hsuccesses, hattempted⟩ := Prod.mk.inj hcounts
    refine ⟨hsuccesses, hattempted, ?_⟩
    rw [← hsuccesses]
    exact (runs_accounted .exact some 0 2 0 _).2 { duration := 10 } state hrun

/-! ## One connection, one request at a time -/

/-- Two exchanges on one socket: the first was a whole reply. -/
def RepliedBefore (c d : ℕ × Exchange) : Prop := c.1 = d.1 → c.2.outcome.replied = true

/-- The discipline in terms of outcomes, for exchanges that are usable after a whole reply
only. -/
theorem SocketDiscipline.replied {socket : Option Socket} {opened : ℕ} {carried : Carried}
    (h : SocketDiscipline socket opened carried)
    (husable : ∀ c ∈ carried, c.2.connectionUsable = c.2.outcome.replied) :
    carried.Pairwise RepliedBefore := by
  refine h.chain.imp_of_mem ?_
  intro c d hc _ hchain hid
  rw [← husable c hc]
  exact hchain hid

/-- The exchanges a closed-loop worker made, in order. -/
def ConnectionWorker.exchanges (past : List ConnectionWorker.Event) : Carried :=
  past.filterMap ConnectionWorker.Event.carried

/-- The exchanges an open-loop worker made, in order. -/
def OpenLoopWorker.exchanges (past : List OpenLoopWorker.Event) : Carried :=
  past.filterMap OpenLoopWorker.Event.carried

section Chain

variable {fl : Rounding} {started : Instant} {threads : ℕ} {schedule : List (ℕ × Call Reply)}

/-- In a closed-loop run no socket carries a request after anything but a whole reply. -/
theorem closedLoop_chain {plan : ClosedLoopPlan} {state : ClosedLoop.State Reply}
    (husable : ∀ reply e, perform reply = some e → e.connectionUsable = e.outcome.replied)
    (hrun : (ClosedLoop.spawn Reply plan started threads).run
      (ConnectionWorker.step perform (plan.window started)) schedule = some state) :
    ∀ t ∈ state.threads, (ConnectionWorker.exchanges t.past).Pairwise RepliedBefore := by
  intro t ht
  have hinv := ClosedLoop.run_worker_invariant hrun t ht
  refine hinv.discipline.replied fun c hc => ?_
  obtain ⟨reply, hreply⟩ := hinv.performed c hc
  exact husable reply c.2 hreply

/-- In an open-loop run no socket carries a request after anything but a whole reply. -/
theorem openLoop_chain {plan : OpenLoopPlan} {state : OpenLoop.State Reply}
    (husable : ∀ reply e, perform reply = some e → e.connectionUsable = e.outcome.replied)
    (hrun : (OpenLoop.spawn Reply plan started threads).run
      (OpenLoopWorker.step fl perform (plan.window started)) schedule = some state) :
    ∀ t ∈ state.threads, (OpenLoopWorker.exchanges t.past).Pairwise RepliedBefore := by
  intro t ht
  have hinv := OpenLoop.run_worker_invariant hrun t ht
  refine hinv.discipline.replied fun c hc => ?_
  obtain ⟨reply, hreply⟩ := hinv.performed c hc
  exact husable reply c.2 hreply

end Chain

end Dariyanaap

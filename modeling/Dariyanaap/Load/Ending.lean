import Dariyanaap.Load.ClosedLoop
import Dariyanaap.Load.Lag

/-!
# A run ends

`run_closed_loop` and `run_open_loop` join their workers, and so return only if every worker does.
A worker looks at the deadline at the top of a turn only. So once the clock has reached it, a worker
finishes the turn it is in, with one more request at most, and returns, provided that the calls it
makes do (`run_ends`). A timeout bounds each read of an exchange and not the exchange: a target that
lets its reply drip keeps the worker in `perform_request`, and then nothing here ends it.
-/

namespace Dariyanaap

/-- A reading of the clock is at or after the deadline. -/
def Call.Late {Reply : Type*} (deadline : Instant) : Call Reply → Prop
  | .now instant => deadline ≤ instant
  | .connect _ | .sleepFor | .sleepUntil .. | .claim | .perform _ => True

/-- A call that sends a request. -/
def Call.isPerform {Reply : Type*} : Call Reply → Bool
  | .perform _ => true
  | .now _ | .connect _ | .sleepFor | .sleepUntil .. | .claim => false

/-- An exchange can end, whatever the protocol. -/
theorem exists_perform (protocol : Protocol) : ∃ script e, protocol.perform script = some e :=
  ⟨⟨0, .failed, []⟩, _, rfl⟩

/-! ## The closed loop -/

namespace ConnectionWorker

/-- How many calls are left at the deadline. -/
def Pc.callsLeft : Pc → ℕ
  | .returned => 0
  | .top => 1
  | .backoff | .stamping .. => 2
  | .sending _ => 3
  | .connecting _ => 4

/-- How many requests. -/
def Pc.requestsLeft : Pc → ℕ
  | .sending _ | .connecting _ => 1
  | .returned | .top | .backoff | .stamping .. => 0

/-- What the call can return in which a worker is at a position of the loop. -/
def Pc.Awaits {Reply : Type*} (perform : Reply → Option Exchange) : Pc → Call Reply → Prop
  | .top, .now _ | .stamping .., .now _ | .connecting _, .connect _ | .backoff, .sleepFor => True
  | .sending _, .perform reply => (perform reply).isSome
  | _, _ => False

/-- A worker has what the next call needs. -/
structure Equipped (w : ConnectionWorker) : Prop where
  sending : ∀ now, w.pc = .sending now → w.socket.isSome
  stamping : ∀ now result, w.pc = .stamping now result → w.socket.isSome ∧ w.writer.isSome

section Ending

variable {Reply : Type*} {perform : Reply → Option Exchange} {window : RunWindow}
  {series series' : TimeSeries} {w w' : ConnectionWorker} {call : Call Reply} {out : List Event}

theorem Equipped.step (h : step perform window series w call = some (series', w', out)) :
    w'.Equipped := by
  cases step_move h with
  | ended now hpc | replace now hpc hsocket | slept hpc | timeoutsFailed now hpc | refused now hpc
  | untimed now reply socket result hpc hsocket hreply huntimed
  | stamped now finished socket writer result hpc hsocket hwriter =>
    constructor <;> simp [finishTurn, connectFailed]
  | send now socket hpc hsocket => constructor <;> simp [hsocket]
  | connected now hpc => constructor <;> simp
  | timed now reply socket writer result hpc hsocket hreply hmeasured hwriter htimed =>
    constructor <;> simp [hsocket, hwriter]

/-- Past the deadline every call leaves fewer of them, and every request fewer of these. -/
theorem left_lt (hlate : call.Late window.deadline)
    (h : step perform window series w call = some (series', w', out)) :
    w'.pc.callsLeft + 1 ≤ w.pc.callsLeft ∧
      w'.pc.requestsLeft + (if call.isPerform then 1 else 0) ≤ w.pc.requestsLeft := by
  cases step_move h with
  | ended now hpc =>
    rw [hpc]
    exact ⟨le_rfl, le_rfl⟩
  | replace now hpc | send now socket hpc =>
    -- the top of a turn is the end of the run
    have hdeadline : window.deadline ≤ now := hlate
    rw [step, hpc] at h
    dsimp only at h
    rw [if_pos hdeadline] at h
    cases h
  | connected now hpc | timeoutsFailed now hpc | refused now hpc | slept hpc
  | timed now reply socket writer result hpc | untimed now reply socket result hpc
  | stamped now finished socket writer result hpc =>
    rw [hpc]
    exact ⟨by simp [Pc.callsLeft, finishTurn, connectFailed],
      by simp [Pc.requestsLeft, Call.isPerform, finishTurn, connectFailed]⟩

/-- A worker goes on whatever the call it is in returns. -/
theorem isSome_step (hequipped : w.Equipped) (hcall : w.pc.Awaits perform call)
    (series : TimeSeries) : (step perform window series w call).isSome := by
  obtain ⟨pc, socket, tally, writer, opened, sockets⟩ := w
  revert hequipped hcall
  cases pc <;> cases call <;> intro hequipped hcall <;> try exact hcall.elim
  case top.now instant =>
    rw [step]
    dsimp only
    split
    · rfl
    · split <;> rfl
  case connecting.connect now answer => cases answer <;> rfl
  case backoff.sleepFor => rfl
  case sending.perform now reply =>
    obtain ⟨socket, rfl⟩ := Option.isSome_iff_exists.mp (hequipped.sending now rfl)
    obtain ⟨e, he⟩ := Option.isSome_iff_exists.mp hcall
    rw [step]
    simp only [he]
    split <;> rfl
  case stamping.now now result instant =>
    obtain ⟨hsocket, hwriter⟩ := hequipped.stamping now result rfl
    obtain ⟨socket, rfl⟩ := Option.isSome_iff_exists.mp hsocket
    obtain ⟨writer, rfl⟩ := Option.isSome_iff_exists.mp hwriter
    rfl

/-- A worker that has not returned is in a call that can return. -/
theorem Pc.exists_awaits {pc : Pc} (hpc : pc ≠ .returned)
    (hperform : ∃ reply e, perform reply = some e) (deadline : Instant) :
    ∃ call, Call.Late deadline call ∧ pc.Awaits perform call := by
  cases pc with
  | returned => exact absurd rfl hpc
  | top | stamping now result => exact ⟨.now deadline, le_rfl, trivial⟩
  | backoff => exact ⟨.sleepFor, trivial, trivial⟩
  | connecting now => exact ⟨.connect .connected, trivial, trivial⟩
  | sending now =>
    obtain ⟨reply, e, he⟩ := hperform
    exact ⟨.perform reply, trivial, Option.isSome_iff_exists.mpr ⟨e, he⟩⟩

end Ending

end ConnectionWorker

/-! ## The open loop -/

namespace OpenLoopWorker

/-- How many calls are left at the deadline. -/
def Pc.callsLeft : Pc → ℕ
  | .returned => 0
  | .top => 1
  | .backoff | .sending .. => 2
  | .refused | .awake .. => 3
  | .waiting .. => 4
  | .claiming _ => 5
  | .ready => 6
  | .connecting => 7

/-- How many requests. -/
def Pc.requestsLeft : Pc → ℕ
  | .connecting | .ready | .claiming _ | .waiting .. | .awake .. | .sending .. => 1
  | .returned | .top | .backoff | .refused => 0

/-- What the call can return in which a worker is at a position of the loop. -/
def Pc.Awaits {Reply : Type*} (perform : Reply → Option Exchange) : Pc → Call Reply → Prop
  | .top, .now _ | .refused, .now _ | .ready, .now _ | .awake .., .now _ | .connecting, .connect _
  | .backoff, .sleepFor | .claiming _, .claim => True
  | .waiting _ slot, .sleepUntil due _ => due = slot.due
  | .sending .., .perform reply => (perform reply).isSome
  | _, _ => False

/-- A worker that is about to send has a socket. -/
def Equipped (w : OpenLoopWorker) : Prop :=
  match w.pc with
  | .ready | .claiming _ | .waiting .. | .awake .. | .sending .. => w.socket.isSome
  | .returned | .top | .backoff | .refused | .connecting => True

section Ending

variable {Reply : Type*} {fl : Rounding} {perform : Reply → Option Exchange} {window : RunWindow}
  {schedule schedule' : Schedule} {w w' : OpenLoopWorker} {call : Call Reply} {out : List Event}

theorem Equipped.step (hequipped : w.Equipped)
    (h : step fl perform window schedule w call = some (schedule', w', out)) : w'.Equipped := by
  cases step_turn h with
  | ended now hpc | timeoutsFailed hpc | refused hpc | connectFailed now hpc | slept hpc
  | claimedLate freeAt hpc hdue | exchanged reply sent hpc hsocket hreply => trivial
  | connected hpc => rfl
  | turn now pc hpc hnext =>
    rcases hnext with rfl | rfl
    · trivial
    · -- a turn without a connect has its socket
      rw [OpenLoopWorker.step, hpc] at h
      dsimp only at h
      split at h
      · cases h
      · split at h
        · cases h
        · next hsocket => exact Option.isSome_iff_ne_none.mpr hsocket
  | free freeAt hpc | claimed freeAt hpc hdue | woke freeAt slot woke hpc
  | sending freeAt slot now hpc =>
    rw [Equipped, hpc] at hequipped
    exact hequipped

/-- Past the deadline every call leaves fewer of them, and every request fewer of these. -/
theorem left_lt (hlate : call.Late window.deadline)
    (h : step fl perform window schedule w call = some (schedule', w', out)) :
    w'.pc.callsLeft + 1 ≤ w.pc.callsLeft ∧
      w'.pc.requestsLeft + (if call.isPerform then 1 else 0) ≤ w.pc.requestsLeft := by
  cases step_turn h with
  | turn now pc hpc hnext =>
    -- the top of a turn is the end of the run
    have hdeadline : window.deadline ≤ now := hlate
    rw [OpenLoopWorker.step, hpc] at h
    dsimp only at h
    rw [if_pos hdeadline] at h
    rcases hnext with rfl | rfl <;> cases h
  | ended now hpc | connected hpc | timeoutsFailed hpc | refused hpc | connectFailed now hpc
  | slept hpc | free freeAt hpc | claimedLate freeAt hpc hdue | claimed freeAt hpc hdue
  | woke freeAt slot woke hpc | sending freeAt slot now hpc
  | exchanged reply sent hpc hsocket hreply =>
    rw [hpc]
    exact ⟨by simp [Pc.callsLeft], by simp [Pc.requestsLeft, Call.isPerform]⟩

/-- A worker goes on whatever the call it is in returns. -/
theorem isSome_step (hequipped : w.Equipped) (hcall : w.pc.Awaits perform call)
    (schedule : Schedule) : (step fl perform window schedule w call).isSome := by
  obtain ⟨pc, socket, tally, lag, connectionWait, rigLag, opened, sockets⟩ := w
  revert hequipped hcall
  cases pc <;> cases call <;> intro hequipped hcall <;> try exact hcall.elim
  case top.now instant =>
    rw [step]
    dsimp only
    split
    · rfl
    · split <;> rfl
  case connecting.connect answer => cases answer <;> rfl
  case refused.now instant | ready.now instant | backoff.sleepFor | awake.now freeAt slot instant =>
    rfl
  case claiming.claim freeAt =>
    rw [step]
    dsimp only
    split <;> rfl
  case waiting.sleepUntil freeAt slot due woke =>
    obtain rfl : due = slot.due := hcall
    simp [step]
  case sending.perform freeAt slot now reply =>
    obtain ⟨socket, rfl⟩ := Option.isSome_iff_exists.mp hequipped
    obtain ⟨e, he⟩ := Option.isSome_iff_exists.mp hcall
    rw [step]
    simp only [he]
    rfl

/-- A worker that has not returned is in a call that can return. -/
theorem Pc.exists_awaits {pc : Pc} (hpc : pc ≠ .returned)
    (hperform : ∃ reply e, perform reply = some e) (deadline : Instant) :
    ∃ call, Call.Late deadline call ∧ pc.Awaits perform call := by
  cases pc with
  | returned => exact absurd rfl hpc
  | top | refused | ready | awake freeAt slot => exact ⟨.now deadline, le_rfl, trivial⟩
  | connecting => exact ⟨.connect .connected, trivial, trivial⟩
  | backoff => exact ⟨.sleepFor, trivial, trivial⟩
  | claiming freeAt => exact ⟨.claim, trivial, trivial⟩
  | waiting freeAt slot => exact ⟨.sleepUntil slot.due slot.due, trivial, rfl⟩
  | sending freeAt slot now =>
    obtain ⟨reply, e, he⟩ := hperform
    exact ⟨.perform reply, trivial, Option.isSome_iff_exists.mpr ⟨e, he⟩⟩

end Ending

end OpenLoopWorker

/-! ## All workers of a run -/

/-- How a run ends once the clock has reached the deadline. -/
structure Ends {S L O Reply : Type*} (step : S → L → Call Reply → Option (S × L × List O))
    (awaits : L → Call Reply → Prop) (returned : L → Prop) (deadline : Instant) (calls : ℕ)
    (state : Interleaving.Config S L (Call Reply) O) : Prop where
  /-- There are at most so many calls for each worker, and one request. -/
  bounded : ∀ rest last, (∀ turn ∈ rest, turn.2.Late deadline) → state.run step rest = some last →
    rest.length ≤ state.threads.length * calls ∧
      rest.countP (fun turn => turn.2.isPerform) ≤ state.threads.length
  /-- A worker that has not returned is in a call, and goes on whatever that returns. -/
  goesOn : ∀ rest last, (∀ turn ∈ rest, turn.2.Late deadline) → state.run step rest = some last →
    ∀ i t, last.threads[i]? = some t → ¬returned t.state →
      (∃ call, call.Late deadline ∧ awaits t.state call) ∧
        ∀ call, awaits t.state call → (last.move step i call).isSome
  /-- When every call that a worker makes returns, so do the workers. -/
  ends : ∀ execution, execution 0 = state →
    Interleaving.Fair step (Call.Late deadline) (fun l => ¬returned l) execution →
      ∃ k, ∀ t ∈ (execution k).threads, returned t.state
  /-- And every call can return. -/
  possible : ∃ execution, execution 0 = state ∧
    Interleaving.Fair step (Call.Late deadline) (fun l => ¬returned l) execution

section Runs

variable {S L O Reply : Type*} {step : S → L → Call Reply → Option (S × L × List O)}
  {awaits : L → Call Reply → Prop} {returned : L → Prop} {deadline : Instant} {calls : ℕ}
  {state : Interleaving.Config S L (Call Reply) O}

/-- What is left of a bounded number for each worker. -/
theorem sum_left_le (left : L → ℕ) (hbound : ∀ l, left l ≤ calls) :
    (state.threads.map fun t => left t.state).sum ≤ state.threads.length * calls := by
  refine (List.sum_le_card_nsmul _ calls ?_).trans_eq ?_
  · intro n hn
    obtain ⟨t, -, rfl⟩ := List.mem_map.mp hn
    exact hbound t.state
  · rw [List.length_map]
    rfl

/-- When each call leaves its worker fewer, there are at most so many. -/
theorem length_le_of_left (callsLeft requestsLeft : L → ℕ)
    (hcalls : ∀ l, callsLeft l ≤ calls) (hrequests : ∀ l, requestsLeft l ≤ 1)
    (hleft : ∀ s l call s' l' out, call.Late deadline → step s l call = some (s', l', out) →
      callsLeft l' + 1 ≤ callsLeft l ∧
        requestsLeft l' + (if call.isPerform then 1 else 0) ≤ requestsLeft l)
    {rest : List (ℕ × Call Reply)} {last : Interleaving.Config S L (Call Reply) O}
    (hlate : ∀ turn ∈ rest, turn.2.Late deadline) (hrun : state.run step rest = some last) :
    rest.length ≤ state.threads.length * calls ∧
      rest.countP (fun turn => turn.2.isPerform) ≤ state.threads.length := by
  constructor
  · have h := Interleaving.countP_add_sum_le callsLeft (fun _ => true)
      (fun s l call s' l' out hok hs => (hleft s l call s' l' out hok hs).1) hlate hrun
    rw [List.countP_true] at h
    exact (Nat.le_of_add_right_le h).trans (sum_left_le callsLeft hcalls)
  · have h := Interleaving.countP_add_sum_le requestsLeft Call.isPerform
      (fun s l call s' l' out hok hs => (hleft s l call s' l' out hok hs).2) hlate hrun
    exact (Nat.le_of_add_right_le h).trans ((sum_left_le requestsLeft hrequests).trans_eq
      (Nat.mul_one _))

/-- A run ends when each call leaves its worker fewer, and a worker that has not returned can go
on. -/
theorem Ends.of_left (equipped : L → Prop) (callsLeft requestsLeft : L → ℕ)
    (hcalls : ∀ l, callsLeft l ≤ calls) (hrequests : ∀ l, requestsLeft l ≤ 1)
    (hleft : ∀ s l call s' l' out, call.Late deadline → step s l call = some (s', l', out) →
      callsLeft l' + 1 ≤ callsLeft l ∧
        requestsLeft l' + (if call.isPerform then 1 else 0) ≤ requestsLeft l)
    (hequipped : ∀ s l call s' l' out, equipped l → step s l call = some (s', l', out) →
      equipped l')
    (hinCall : ∀ l, ¬returned l → ∃ call, call.Late deadline ∧ awaits l call)
    (hgoes : ∀ s l call, equipped l → awaits l call → (step s l call).isSome)
    (hstate : ∀ t ∈ state.threads, equipped t.state) :
    Ends step awaits returned deadline calls state := by
  have hless : ∀ s l call s' l' out, call.Late deadline → step s l call = some (s', l', out) →
      callsLeft l' < callsLeft l :=
    fun s l call s' l' out hlate hs => (hleft s l call s' l' out hlate hs).1
  have hmoves : ∀ (c : Interleaving.Config S L (Call Reply) O) i t call,
      (∀ u ∈ c.threads, equipped u.state) → c.threads[i]? = some t → awaits t.state call →
        (c.move step i call).isSome := by
    intro c i t call hc hi hcall
    exact Interleaving.isSome_move hi
      (hgoes c.shared t.state call (hc t (List.mem_of_getElem? hi)) hcall)
  refine ⟨fun rest last hlate hrun => length_le_of_left callsLeft requestsLeft hcalls hrequests
    hleft hlate hrun, ?_, fun execution _ hfair => ?_, ?_⟩
  · intro rest last hlate hrun i t hi hreturned
    have hlast := (Interleaving.run_invariant (J := fun _ => True)
      (I := fun l _ _ => equipped l) (fun s l _ _ call s' l' out _ hl hs =>
        ⟨trivial, hequipped s l call s' l' out hl hs⟩) trivial hstate hrun).2
    exact ⟨hinCall t.state hreturned, fun call hcall => hmoves last i t call hlast hi hcall⟩
  · obtain ⟨k, hk⟩ := hfair.exists_rest callsLeft hless
    exact ⟨k, fun t ht => not_not.mp (hk t ht)⟩
  · -- every worker goes on with the first call that can return
    refine Interleaving.exists_fair (P := fun c => ∀ t ∈ c.threads, equipped t.state) callsLeft
      hless ?_ ?_ hstate
    · intro c i call c' hc hmove
      obtain ⟨t, s, l, out, hi, hs, rfl⟩ := Interleaving.step_cases hmove
      intro u hu
      rcases List.mem_or_eq_of_mem_set hu with hu | rfl
      · exact hc u hu
      · exact hequipped _ _ _ _ _ _ (hc t (List.mem_of_getElem? hi)) hs
    · rintro c hc ⟨t, ht, hreturned⟩
      obtain ⟨i, hi⟩ := List.mem_iff_getElem?.mp ht
      obtain ⟨call, hlate, hcall⟩ := hinCall t.state hreturned
      obtain ⟨c', hmove⟩ := Option.isSome_iff_exists.mp (hmoves c i t call hc hi hcall)
      exact ⟨i, call, c', hlate, hmove⟩

end Runs

end Dariyanaap

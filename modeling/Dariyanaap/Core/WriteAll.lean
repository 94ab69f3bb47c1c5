import Dariyanaap.Core.Text
import Dariyanaap.Library.Delimited

/-!
# Writing a buffer

`Socket::write_all` (`core/socket.cpp`) calls `send` until the kernel has accepted the whole buffer.
A call may accept a part of what it is offered, be interrupted by a signal, or fail. Whatever the
calls return, each byte is handed over once and in order (`each_byte_once`).
-/

namespace Dariyanaap

open Delimited

namespace WriteAll

/-- How the call ends, with the texts of `TimedOut` and `IoError`. -/
inductive Outcome where
  | returned
  | timedOut (what : Text)
  | ioError (what : Text)
  deriving DecidableEq

/-- The `errno` of a `send` that returned `-1`. -/
inductive Errno where
  | eintr
  | eagain
  | ewouldblock
  | other (strerror : Text)
  deriving DecidableEq

/-- What `send` returns. -/
inductive Send where
  | wrote (count : ℕ)
  | failed (errno : Errno)
  deriving DecidableEq

/-- A call in progress. -/
structure Write where
  sent : ℕ
  /-- What the kernel accepted, `send` by `send`. -/
  accepted : List Text
  ended : Option Outcome
  deriving DecidableEq

/-- The test of the loop. -/
def test (data : Text) (sent : ℕ) : Option Outcome :=
  if sent < data.length then none else some .returned

/-- The entry of the call. -/
def enter (data : Text) : Write where
  sent := 0
  accepted := []
  ended := test data 0

/-- What `send` is offered. -/
def Write.offered (data : Text) (w : Write) : Text := data.drop w.sent

/-- The text of `TimedOut`. -/
def timedOutAfter (data : Text) (sent : ℕ) : Text :=
  "write timed out after ".toList ++ decimal sent ++ " of ".toList ++ decimal data.length ++
    " bytes".toList

/-- The body of the loop, and the test that follows. The kernel accepts the first bytes of what it
is offered. -/
def Write.turn (data : Text) (w : Write) : Send → Write
  | .wrote count =>
      if 0 < count then
        { sent := w.sent + count
          accepted := w.accepted ++ [(w.offered data).take count]
          ended := test data (w.sent + count) }
      else { w with ended := some (.ioError "write made no progress".toList) }
  | .failed .eintr => { w with ended := test data w.sent }
  | .failed .eagain | .failed .ewouldblock =>
      { w with ended := some (.timedOut (timedOutAfter data w.sent)) }
  | .failed (.other strerror) =>
      { w with ended := some (.ioError ("write: ".toList ++ strerror)) }

/-- `send` accepts no more than it is offered. -/
def Permitted (data : Text) (w : Write) (send : Send) : Prop :=
  ∀ count, send = .wrote count → count ≤ (w.offered data).length

/-- What the sends of a call returned, and where they lead. -/
inductive Run (data : Text) : List Send → Write → Prop
  | enter : Run data [] (enter data)
  | turn {sends : List Send} {w : Write} {send : Send} :
      Run data sends w → w.ended = none → Permitted data w send →
        Run data (sends ++ [send]) (w.turn data send)

/-- The answers that were not a signal. -/
def answers (sends : List Send) : List Send := sends.filter fun send => send ≠ .failed .eintr

/-- What a call does: the bytes it handed over are the first ones of the buffer, it returns when
they are all of it, and throws what the last `send` says. -/
structure Exact (data : Text) (sends : List Send) (w : Write) : Prop where
  inOrder : w.accepted.flatten <+: data
  returned : w.ended = some .returned ↔ w.accepted.flatten = data
  timedOut : ∀ what, w.ended = some (.timedOut what) ↔
    what = timedOutAfter data w.accepted.flatten.length ∧
      (sends.getLast? = some (.failed .eagain) ∨ sends.getLast? = some (.failed .ewouldblock))
  ioError : ∀ what, w.ended = some (.ioError what) ↔
    what = "write made no progress".toList ∧ sends.getLast? = some (.wrote 0) ∨
      ∃ strerror, what = "write: ".toList ++ strerror ∧
        sends.getLast? = some (.failed (.other strerror))
  /-- Without the signals the call is the same. -/
  interrupted : Run data (answers sends) w
  /-- It does not go on for more answers than there are bytes. -/
  going : w.ended = none → (answers sends).length < data.length

/-! ## One turn -/

section Turn

variable {data what : Text} {sent count : ℕ} {sends : List Send} {w : Write} {send : Send}
  {errno : Errno}

theorem test_eq_none_iff : test data sent = none ↔ sent < data.length := by
  unfold test
  split <;> simp_all

theorem test_eq_returned_iff : test data sent = some .returned ↔ data.length ≤ sent := by
  unfold test
  split <;> simp_all

/-- The test can only end the call normally. -/
theorem test_ne {outcome : Outcome} (h : outcome ≠ .returned) : test data sent ≠ some outcome := by
  unfold test
  split
  · simp
  · exact fun hreturned => h (Option.some.inj hreturned).symm

@[simp]
theorem turn_failed_sent : (w.turn data (.failed errno)).sent = w.sent := by
  cases errno <;> rfl

@[simp]
theorem turn_failed_accepted : (w.turn data (.failed errno)).accepted = w.accepted := by
  cases errno <;> rfl

theorem turn_wrote_zero : w.turn data (.wrote 0) =
    { w with ended := some (.ioError "write made no progress".toList) } := rfl

theorem turn_wrote (hpos : 0 < count) : w.turn data (.wrote count) =
    { sent := w.sent + count
      accepted := w.accepted ++ [(w.offered data).take count]
      ended := test data (w.sent + count) } :=
  if_pos hpos

/-- A signal leaves the call where it was. -/
theorem turn_eintr (hgoing : w.ended = none) (hsent : w.sent < data.length) :
    w.turn data (.failed .eintr) = w := by
  rw [Write.turn, test_eq_none_iff.mpr hsent, ← hgoing]

/-- The ways to time out. -/
theorem turn_timedOut_iff : (w.turn data send).ended = some (.timedOut what) ↔
    what = timedOutAfter data (w.turn data send).sent ∧
      (send = .failed .eagain ∨ send = .failed .ewouldblock) := by
  cases send with
  | wrote count =>
    obtain rfl | hpos := Nat.eq_zero_or_pos count
    · simp [turn_wrote_zero]
    · simp [turn_wrote hpos, test_ne]
  | failed errno => cases errno <;> simp [Write.turn, test_ne, eq_comm]

/-- The other ways to fail. -/
theorem turn_ioError_iff : (w.turn data send).ended = some (.ioError what) ↔
    what = "write made no progress".toList ∧ send = .wrote 0 ∨
      ∃ strerror, what = "write: ".toList ++ strerror ∧ send = .failed (.other strerror) := by
  cases send with
  | wrote count =>
    obtain rfl | hpos := Nat.eq_zero_or_pos count
    · simp [turn_wrote_zero, eq_comm]
    · simp [turn_wrote hpos, test_ne, hpos.ne']
  | failed errno => cases errno <;> simp [Write.turn, test_ne, eq_comm]

end Turn

/-! ## Every run of the loop -/

/-- The offset of the loop against what was handed over. -/
structure InStep (data : Text) (w : Write) : Prop where
  sent_le : w.sent ≤ data.length
  accepted : w.accepted.flatten = data.take w.sent
  returned : w.ended = some .returned ↔ w.sent = data.length

section Runs

variable {data what : Text} {sends : List Send} {w : Write} {send : Send}

theorem InStep.enter (data : Text) : InStep data (enter data) where
  sent_le := Nat.zero_le _
  accepted := rfl
  returned := test_eq_returned_iff.trans (Nat.le_zero.trans eq_comm)

/-- A call that goes on has bytes to send. -/
theorem InStep.sent_lt (h : InStep data w) (hgoing : w.ended = none) : w.sent < data.length := by
  refine lt_of_le_of_ne h.sent_le fun hall => ?_
  rw [h.returned.mpr hall] at hgoing
  cases hgoing

/-- What a turn hands over follows what was handed over. -/
theorem InStep.turn (h : InStep data w) (hgoing : w.ended = none)
    (hpermitted : Permitted data w send) : InStep data (w.turn data send) := by
  have hsent := h.sent_lt hgoing
  cases send with
  | wrote count =>
    obtain rfl | hpos := Nat.eq_zero_or_pos count
    · rw [turn_wrote_zero]
      exact ⟨h.sent_le, h.accepted, iff_of_false (by simp) hsent.ne⟩
    · have hcount : count ≤ data.length - w.sent := by
        simpa [Write.offered] using hpermitted count rfl
      have hle : w.sent + count ≤ data.length := by lia
      rw [turn_wrote hpos]
      refine ⟨hle, ?_, test_eq_returned_iff.trans hle.ge_iff_eq⟩
      rw [List.flatten_append, h.accepted, List.flatten_singleton, Write.offered, List.take_add]
  | failed errno =>
    refine ⟨by rw [turn_failed_sent]; exact h.sent_le, ?_, ?_⟩
    · rw [turn_failed_accepted, turn_failed_sent, h.accepted]
    · rw [turn_failed_sent]
      refine iff_of_false ?_ hsent.ne
      cases errno <;> simp [Write.turn, test_eq_returned_iff, hsent]

theorem run_inStep (hrun : Run data sends w) : InStep data w := by
  induction hrun with
  | enter => exact InStep.enter data
  | turn _ hgoing hpermitted ih => exact ih.turn hgoing hpermitted

theorem answers_append_eintr :
    answers (sends ++ [.failed .eintr]) = answers sends := by
  simp [answers]

theorem answers_append (hsend : send ≠ .failed .eintr) :
    answers (sends ++ [send]) = answers sends ++ [send] := by
  simp [answers, hsend]

/-- Without the signals the run leads to the same place. -/
theorem run_answers (hrun : Run data sends w) : Run data (answers sends) w := by
  induction hrun with
  | enter => exact .enter
  | @turn sends w send hrun hgoing hpermitted ih =>
    by_cases hsend : send = .failed .eintr
    · rw [hsend, answers_append_eintr, turn_eintr hgoing ((run_inStep hrun).sent_lt hgoing)]
      exact ih
    · rw [answers_append hsend]
      exact .turn ih hgoing hpermitted

/-- As long as the call goes on, each answer was a byte at least. -/
theorem run_answers_length (hrun : Run data sends w) (hgoing : w.ended = none) :
    (answers sends).length ≤ w.sent := by
  induction hrun with
  | enter => exact Nat.zero_le _
  | @turn sends w send hrun hbefore hpermitted ih =>
    have ih := ih hbefore
    cases send with
    | wrote count =>
      obtain rfl | hpos := Nat.eq_zero_or_pos count
      · rw [turn_wrote_zero] at hgoing
        cases hgoing
      · rw [answers_append (by simp), turn_wrote hpos, List.length_append, List.length_singleton]
        dsimp only
        lia
    | failed errno =>
      cases errno with
      | eintr =>
        rw [answers_append_eintr, turn_failed_sent]
        exact ih
      | eagain => cases hgoing
      | ewouldblock => cases hgoing
      | other strerror => cases hgoing

/-- The last `send` decides whether the call times out. -/
theorem run_timedOut_iff (hrun : Run data sends w) : w.ended = some (.timedOut what) ↔
    what = timedOutAfter data w.sent ∧
      (sends.getLast? = some (.failed .eagain) ∨ sends.getLast? = some (.failed .ewouldblock)) := by
  cases hrun with
  | enter => exact iff_of_false (test_ne (by simp)) (by simp)
  | turn hrun hgoing hpermitted =>
    rw [turn_timedOut_iff, List.getLast?_concat, Option.some_inj, Option.some_inj]

/-- And whether it fails in another way. -/
theorem run_ioError_iff (hrun : Run data sends w) : w.ended = some (.ioError what) ↔
    what = "write made no progress".toList ∧ sends.getLast? = some (.wrote 0) ∨
      ∃ strerror, what = "write: ".toList ++ strerror ∧
        sends.getLast? = some (.failed (.other strerror)) := by
  cases hrun with
  | enter => exact iff_of_false (test_ne (by simp)) (by simp)
  | turn hrun hgoing hpermitted =>
    rw [turn_ioError_iff, List.getLast?_concat]
    simp only [Option.some_inj]

/-- Whatever `send` returns, `write_all` hands over each byte once and in order. -/
theorem each_byte_once (hrun : Run data sends w) : Exact data sends w := by
  have hstep := run_inStep hrun
  have hlength : w.accepted.flatten.length = w.sent := by
    rw [hstep.accepted, List.length_take_of_le hstep.sent_le]
  refine ⟨?_, ?_, fun what => ?_, fun what => run_ioError_iff hrun, run_answers hrun,
    fun hgoing => (run_answers_length hrun hgoing).trans_lt (hstep.sent_lt hgoing)⟩
  · rw [hstep.accepted]
    exact List.take_prefix _ _
  · rw [hstep.returned, hstep.accepted, List.take_eq_self_iff]
    exact ⟨fun hall => hall.ge, fun hall => hstep.sent_le.antisymm hall⟩
  · rw [hlength]
    exact run_timedOut_iff hrun

theorem each_byte_once_in_parts :
    Exact "hello".toList [.wrote 2, .failed .eintr, .wrote 3]
      { sent := 5, accepted := ["he".toList, "llo".toList], ended := some .returned } := by
  have hfirst : Run "hello".toList ([] ++ [.wrote 2]) _ :=
    .turn .enter rfl fun count h => by cases h; decide
  have hsecond : Run "hello".toList (_ ++ [.failed .eintr]) _ :=
    .turn hfirst rfl fun count h => by cases h
  have hthird : Run "hello".toList (_ ++ [.wrote 3]) _ :=
    .turn hsecond rfl fun count h => by cases h; decide
  exact each_byte_once hthird

end Runs

end WriteAll

end Dariyanaap

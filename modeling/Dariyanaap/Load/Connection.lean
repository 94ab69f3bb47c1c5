import Dariyanaap.Load.Exchange

/-!
# What a worker asks of its environment

Both worker loops live on the same few calls: clock readings, connects, sleeps, claims of the
shared schedule and exchanges. A `Call` is one of them together with what the environment
answered, and the loops are step functions over calls. What an exchange returns is a parameter
`perform`, so that a result about the loops holds for every target.

A socket is named by the number of connects before it. `SocketDiscipline` is the invariant of
both loops about the exchanges a worker has made: only the socket in hand can carry another
one, and everything it has carried so far left it usable.
-/

namespace Dariyanaap

/-- The measured part of a run. -/
structure RunWindow where
  recordFrom : Instant
  deadline : Instant

/-- What `connect_any` and then `set_timeouts` did. Either may throw its `IoError`, and the
second one throws when the socket is already in hand. -/
inductive Connect where
  | connected
  | timeoutsFailed
  | refused
  deriving DecidableEq

/-- A connected socket. -/
structure Socket where
  /-- How many sockets the worker had opened before. -/
  id : ℕ
  timeoutsSet : Bool
  deriving DecidableEq

/-- A call of a worker, with what the environment answered. -/
inductive Call (Reply : Type*) where
  | now (instant : Instant)
  | connect (answer : Connect)
  | sleepFor
  | sleepUntil (due woke : Instant)
  | claim
  | perform (reply : Reply)

/-- The clock readings of a call, in order, given those of an exchange. -/
def Call.instants {Reply : Type*} (during : Reply → List Instant) : Call Reply → List Instant
  | .now instant => [instant]
  | .sleepUntil _ woke => [woke]
  | .perform reply => during reply
  | .connect _ | .sleepFor | .claim => []

/-- The contract of `sleep_until`: it returns no earlier than its argument. -/
def Call.Punctual {Reply : Type*} : Call Reply → Prop
  | .sleepUntil due woke => due ≤ woke
  | _ => True

instance {Reply : Type*} (call : Call Reply) : Decidable call.Punctual :=
  match call with
  | .sleepUntil due woke => inferInstanceAs (Decidable (due ≤ woke))
  | .now _ | .connect _ | .sleepFor | .claim | .perform _ => isTrue trivial

/-- The socket a worker keeps after an exchange. -/
def Socket.keepIf (socket : Socket) (usable : Bool) : Option Socket :=
  if usable then some socket else none

/-- The exchanges of a worker, each with the number of the socket that carried it. -/
abbrev Carried : Type := List (ℕ × Exchange)

/-- No socket carries another request after an exchange that left it unusable. `opened` counts
the sockets opened so far. -/
structure SocketDiscipline (socket : Option Socket) (opened : ℕ) (carried : Carried) : Prop where
  /-- Every exchange was on a socket opened before. -/
  bounded : ∀ c ∈ carried, c.1 < opened
  /-- So is the socket in hand. -/
  known : ∀ s, socket = some s → s.id < opened
  /-- The socket in hand is usable. -/
  live : ∀ s, socket = some s → ∀ c ∈ carried, c.1 = s.id → c.2.connectionUsable = true
  /-- Of two exchanges on one socket, the first left it usable. -/
  chain : carried.Pairwise fun c d => c.1 = d.1 → c.2.connectionUsable = true

/-- One more exchange that `perform` returned. -/
theorem exists_reply_append {Reply : Type*} {perform : Reply → Option Exchange} {carried : Carried}
    {id : ℕ} {e : Exchange} (h : ∀ c ∈ carried, ∃ reply, perform reply = some c.2)
    (he : ∃ reply, perform reply = some e) :
    ∀ c ∈ carried ++ [(id, e)], ∃ reply, perform reply = some c.2 :=
  List.forall_mem_append.mpr ⟨h, List.forall_mem_singleton.mpr he⟩

namespace SocketDiscipline

variable {socket : Option Socket} {s : Socket} {opened : ℕ} {carried : Carried} {e : Exchange}

/-- A worker that has done nothing. -/
theorem start : SocketDiscipline none 0 [] where
  bounded := by simp
  known := by simp
  live := by simp
  chain := .nil

/-- A new socket has carried nothing. -/
theorem connect (h : SocketDiscipline socket opened carried) (timeoutsSet : Bool) :
    SocketDiscipline (some ⟨opened, timeoutsSet⟩) (opened + 1) carried where
  bounded c hc := Nat.lt_succ_of_lt (h.bounded c hc)
  known := by
    rintro s ⟨⟩
    exact Nat.lt_succ_self opened
  live := by
    rintro s ⟨⟩ c hc hid
    exact absurd hid (h.bounded c hc).ne
  chain := h.chain

/-- An exchange on the socket in hand, which is kept only if it is still usable. -/
theorem carry (h : SocketDiscipline (some s) opened carried) (e : Exchange) :
    SocketDiscipline (s.keepIf e.connectionUsable) opened (carried ++ [(s.id, e)]) where
  bounded := by
    intro c hc
    rcases List.mem_append.mp hc with hc | hc
    · exact h.bounded c hc
    · rw [List.mem_singleton.mp hc]
      exact h.known s rfl
  known := by
    intro t ht
    unfold Socket.keepIf at ht
    split at ht
    · exact h.known t ht
    · cases ht
  live := by
    intro t ht c hc hid
    unfold Socket.keepIf at ht
    split at ht
    · next husable =>
      rcases List.mem_append.mp hc with hc | hc
      · exact h.live t ht c hc hid
      · rw [List.mem_singleton.mp hc]
        exact husable
    · cases ht
  chain := by
    -- whatever the new exchange follows on its socket left it in hand
    rw [List.pairwise_append]
    refine ⟨h.chain, List.pairwise_singleton .., ?_⟩
    intro c hc d hd hid
    rw [List.mem_singleton.mp hd] at hid
    exact h.live s rfl c hc hid

end SocketDiscipline

end Dariyanaap

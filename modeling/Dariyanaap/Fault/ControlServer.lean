import Dariyanaap.Fault.Control
import Dariyanaap.Library.Transition

/-!
# The control server

`ControlServer` (`fault/control.cpp`): its acceptor thread, which serves one connection after the
other, and its destructor, which sets a flag, connects to the server's own port so that `accept`
returns, and joins the thread. The kernel keeps the connections that wait to be accepted. What
leaves the thread as an exception ends the process.

The operators take turns: connections are served in the order in which they were made, each as if
it were alone (`serialized`). Once the flag is set no further connection is served, and the
destructor returns when the client that is being served has gone, if its own connection was made;
if it was not, nothing wakes the thread but another client (`shutdown`).

The flag is a sequentially consistent one here.
-/

namespace Dariyanaap

namespace Fault

namespace ControlServer

/-- Where the acceptor thread is. -/
inductive Acceptor where
  | accepting
  /-- Behind `accept`. -/
  | accepted (client : ℕ)
  /-- Behind the load of `stopping`. -/
  | starting (client : ℕ)
  /-- In `serve`, with the reads it has made, its buffer and its replies. -/
  | serving (client : ℕ) (reads : List Read) (pending : Text) (replies : List Text)
  /-- Without serving the last client. -/
  | returned (client : ℕ)
  /-- An exception has left the thread. -/
  | terminated (client : Option ℕ)
  deriving DecidableEq

/-- Where the destructor is. -/
inductive Destructor where
  | notCalled
  /-- Behind the store of `stopping`. -/
  | poking
  | joining (poked : Bool)
  | returned
  deriving DecidableEq

/-- A connection that was served. -/
structure Session where
  client : ℕ
  reads : List Read
  replies : List Text
  deriving DecidableEq

/-- The server, the kernel's queue, and the connections that have been served. -/
structure Server where
  knobs : Knobs
  stopping : Bool := false
  backlog : List ℕ := []
  acceptor : Acceptor := .accepting
  destructor : Destructor := .notCalled
  sessions : List Session := []
  deriving DecidableEq

/-- What `::accept` returns. -/
inductive Accepted where
  | connection
  | eintr
  | failed
  deriving DecidableEq

/-- A step of the server or its surroundings. -/
inductive Label where
  /-- A client connects. -/
  | connect (client : ℕ)
  | accept (result : Accepted)
  | load
  | setTimeouts (ok : Bool)
  /-- A read of `serve`, with the replies to its lines. -/
  | read (result : Read)
  | store
  /-- The destructor's own connection, if it is made. -/
  | poke (client : Option ℕ)
  | join
  deriving DecidableEq

variable (fl : Rounding) (writable : ℕ → ℕ → Bool)

/-- A step of the acceptor. -/
def acceptorStep (server : Server) : Label → Option Server
  | .accept .eintr =>
      match server.acceptor with
      | .accepting => some server
      | _ => none
  | .accept .failed =>
      match server.acceptor with
      | .accepting => some { server with acceptor := .terminated none }
      | _ => none
  | .accept .connection =>
      match server.acceptor, server.backlog with
      | .accepting, client :: backlog =>
          some { server with acceptor := .accepted client, backlog := backlog }
      | _, _ => none
  | .load =>
      match server.acceptor with
      | .accepted client =>
          some { server with
            acceptor := if server.stopping then .returned client else .starting client }
      | _ => none
  | .setTimeouts ok =>
      match server.acceptor with
      | .starting client =>
          some { server with
            acceptor := if ok then .serving client [] [] [] else .terminated (some client) }
      | _ => none
  | .read result =>
      match server.acceptor with
      | .serving client reads pending replies =>
          let c := serve fl (writable client) [result]
            { pending := pending, knobs := server.knobs, replies := replies }
          if c.returned then
            some { server with
              knobs := c.knobs
              acceptor := .accepting
              sessions := server.sessions ++ [⟨client, reads ++ [result], c.replies⟩] }
          else
            some { server with
              knobs := c.knobs
              acceptor := .serving client (reads ++ [result]) c.pending c.replies }
      | _ => none
  | _ => none

/-- A step of the server. There is none once the process has been terminated. -/
def step (server : Server) (label : Label) : Option Server :=
  match server.acceptor with
  | .terminated _ => none
  | _ =>
      match label with
      | .connect client => some { server with backlog := server.backlog ++ [client] }
      | .store =>
          match server.destructor with
          | .notCalled => some { server with stopping := true, destructor := .poking }
          | _ => none
      | .poke client =>
          match server.destructor with
          | .poking =>
              some { server with
                backlog := server.backlog ++ client.toList
                destructor := .joining client.isSome }
          | _ => none
      | .join =>
          match server.destructor, server.acceptor with
          | .joining _, .returned _ => some { server with destructor := .returned }
          | _, _ => none
      | label => acceptorStep fl writable server label

/-! ## What a step does -/

variable {fl writable} {k k' : Knobs} {s s' : Server} {label : Label} {labels later : List Label}

variable (fl writable) in
/-- The steps, with their effects. -/
inductive Steps (s : Server) : Label → Server → Prop
  | connect (client : ℕ) : Steps s (.connect client) { s with backlog := s.backlog ++ [client] }
  | interrupted (h : s.acceptor = .accepting) : Steps s (.accept .eintr) s
  | acceptFailed (h : s.acceptor = .accepting) :
      Steps s (.accept .failed) { s with acceptor := .terminated none }
  | accept {client : ℕ} {backlog : List ℕ} (h : s.acceptor = .accepting)
      (hbacklog : s.backlog = client :: backlog) :
      Steps s (.accept .connection) { s with acceptor := .accepted client, backlog := backlog }
  | start {client : ℕ} (h : s.acceptor = .accepted client) (hstopping : s.stopping = false) :
      Steps s .load { s with acceptor := .starting client }
  | turnAway {client : ℕ} (h : s.acceptor = .accepted client) (hstopping : s.stopping = true) :
      Steps s .load { s with acceptor := .returned client }
  | setTimeouts {client : ℕ} (h : s.acceptor = .starting client) :
      Steps s (.setTimeouts true) { s with acceptor := .serving client [] [] [] }
  | setTimeoutsFailed {client : ℕ} (h : s.acceptor = .starting client) :
      Steps s (.setTimeouts false) { s with acceptor := .terminated (some client) }
  | read {client : ℕ} {reads : List Read} {pending : Text} {replies : List Text} {result : Read}
      {c : Connection} (h : s.acceptor = .serving client reads pending replies)
      (hserve : serve fl (writable client) [result]
        { pending := pending, knobs := s.knobs, replies := replies } = c)
      (hreturned : c.returned = false) :
      Steps s (.read result)
        { s with
          knobs := c.knobs
          acceptor := .serving client (reads ++ [result]) c.pending c.replies }
  | finish {client : ℕ} {reads : List Read} {pending : Text} {replies : List Text} {result : Read}
      {c : Connection} (h : s.acceptor = .serving client reads pending replies)
      (hserve : serve fl (writable client) [result]
        { pending := pending, knobs := s.knobs, replies := replies } = c)
      (hreturned : c.returned = true) :
      Steps s (.read result)
        { s with
          knobs := c.knobs
          acceptor := .accepting
          sessions := s.sessions ++ [⟨client, reads ++ [result], c.replies⟩] }
  | store (h : s.destructor = .notCalled) :
      Steps s .store { s with stopping := true, destructor := .poking }
  | poke (client : Option ℕ) (h : s.destructor = .poking) :
      Steps s (.poke client)
        { s with backlog := s.backlog ++ client.toList, destructor := .joining client.isSome }
  | join {poked : Bool} {client : ℕ} (h : s.destructor = .joining poked)
      (hreturned : s.acceptor = .returned client) :
      Steps s .join { s with destructor := .returned }

theorem steps_of_acceptorStep (h : acceptorStep fl writable s label = some s') :
    Steps fl writable s label s' := by
  cases label with
  | connect client => cases h
  | store => cases h
  | poke client => cases h
  | join => cases h
  | accept result =>
    cases result with
    | eintr =>
      rw [acceptorStep] at h
      split at h
      · next hacceptor => cases h; exact .interrupted hacceptor
      · cases h
    | failed =>
      rw [acceptorStep] at h
      split at h
      · next hacceptor => cases h; exact .acceptFailed hacceptor
      · cases h
    | connection =>
      rw [acceptorStep] at h
      split at h
      · next hacceptor hbacklog => cases h; exact .accept hacceptor hbacklog
      · cases h
  | load =>
    rw [acceptorStep] at h
    split at h
    · next client hacceptor =>
      cases h
      by_cases hstopping : s.stopping = true
      · rw [if_pos hstopping]
        exact .turnAway hacceptor hstopping
      · rw [if_neg hstopping]
        exact .start hacceptor (Bool.eq_false_iff.mpr hstopping)
    · cases h
  | setTimeouts ok =>
    rw [acceptorStep] at h
    split at h
    · next client hacceptor =>
      cases h
      cases ok with
      | true => exact .setTimeouts hacceptor
      | false => exact .setTimeoutsFailed hacceptor
    · cases h
  | read result =>
    rw [acceptorStep] at h
    split at h
    · next client reads pending replies hacceptor =>
      dsimp only at h
      split at h
      · next hreturned => cases h; exact .finish hacceptor rfl hreturned
      · next hreturned =>
        cases h
        exact .read hacceptor rfl (Bool.eq_false_iff.mpr hreturned)
    · cases h

theorem steps_of_step (h : step fl writable s label = some s') : Steps fl writable s label s' := by
  unfold step at h
  split at h
  · cases h
  · split at h
    · cases h; exact .connect _
    · split at h
      · next hdestructor => cases h; exact .store hdestructor
      · cases h
    · split at h
      · next hdestructor => cases h; exact .poke _ hdestructor
      · cases h
    · split at h
      · next hdestructor hacceptor => cases h; exact .join hdestructor hacceptor
      · cases h
    · exact steps_of_acceptorStep h

/-! ## One connection after the other -/

/-- The client that the acceptor has taken and not yet put down. -/
def Acceptor.inHand : Acceptor → List ℕ
  | .accepting => []
  | .accepted client | .starting client | .serving client _ _ _ | .returned client => [client]
  | .terminated client => client.toList

/-- The connection that a step makes. -/
def Label.made : Label → List ℕ
  | .connect client => [client]
  | .poke client => client.toList
  | _ => []

variable (fl writable) in
/-- Connections that are served one after the other, each of them alone and to its end. -/
inductive InTurn (k : Knobs) : List Session → Knobs → Prop
  | nil : InTurn k [] k
  | snoc {sessions : List Session} {before : Knobs} {session : Session} {c : Connection}
      (h : InTurn k sessions before)
      (hserve : serve fl (writable session.client) session.reads { knobs := before } = c)
      (hreturned : c.returned = true) (hreplies : c.replies = session.replies) :
      InTurn k (sessions ++ [session]) c.knobs

variable (fl writable) in
/-- The knobs are those from before the connection that is being served, as far as it goes. -/
def Acceptor.Serves (before knobs : Knobs) : Acceptor → Prop
  | .serving client reads pending replies =>
      serve fl (writable client) reads { knobs := before } = ⟨pending, knobs, replies, false⟩
  | _ => knobs = before

variable (fl writable) in
/-- The operators take turns. -/
structure Serialized (k : Knobs) (labels : List Label) (s : Server) : Prop where
  /-- Connections are served in the order in which they were made. -/
  order : s.sessions.map Session.client ++ s.acceptor.inHand ++ s.backlog =
    labels.flatMap Label.made
  /-- What each of them does depends on those before it only. -/
  alone : ∃ before, InTurn fl writable k s.sessions before ∧
    s.acceptor.Serves fl writable before s.knobs

/-- A connection that reads on. -/
theorem serve_append {writable : ℕ → Bool} (reads more : List Read) (c : Connection)
    (h : (serve fl writable reads c).returned = false) :
    serve fl writable (reads ++ more) c = serve fl writable more (serve fl writable reads c) := by
  induction reads generalizing c with
  | nil => rfl
  | cons r reads ih =>
    cases r with
    | failed => cases h
    | got bytes =>
      rw [List.cons_append, serve, serve]
      rw [serve] at h
      split at h
      · cases h
      · next hbytes =>
        rw [if_neg hbytes, if_neg hbytes]
        dsimp only at h ⊢
        split at h
        · next hreturned =>
          rw [hreturned] at h
          cases h
        · next hreturned =>
          rw [if_neg hreturned, if_neg hreturned]
          exact ih _ h

/-- A step moves clients on, in their order. -/
theorem order_of_step (hstep : step fl writable s label = some s') :
    s'.sessions.map Session.client ++ s'.acceptor.inHand ++ s'.backlog =
      s.sessions.map Session.client ++ s.acceptor.inHand ++ s.backlog ++ label.made := by
  cases steps_of_step hstep with
  | connect | poke => simp only [Label.made, List.append_assoc]
  | interrupted | store | join => exact (List.append_nil _).symm
  | acceptFailed hacceptor | start hacceptor | turnAway hacceptor | setTimeouts hacceptor
  | setTimeoutsFailed hacceptor | read hacceptor | finish hacceptor =>
    simp [Acceptor.inHand, Label.made, hacceptor]
  | accept hacceptor hbacklog => simp [Acceptor.inHand, Label.made, hacceptor, hbacklog]

theorem Serialized.step {past : List Label} (h : Serialized fl writable k past s)
    (hstep : ControlServer.step fl writable s label = some s') :
    Serialized fl writable k (past ++ [label]) s' := by
  obtain ⟨horder, before, hturn, hserves⟩ := h
  refine ⟨?_, ?_⟩
  · rw [List.flatMap_append, ← horder, List.flatMap_singleton]
    exact order_of_step hstep
  · cases steps_of_step hstep with
    | connect | interrupted | store | poke | join => exact ⟨before, hturn, hserves⟩
    | acceptFailed hacceptor | accept hacceptor | start hacceptor | turnAway hacceptor
    | setTimeoutsFailed hacceptor =>
      rw [hacceptor] at hserves
      exact ⟨before, hturn, hserves⟩
    | setTimeouts hacceptor =>
      rw [hacceptor] at hserves
      obtain rfl : s.knobs = before := hserves
      exact ⟨_, hturn, rfl⟩
    | read hacceptor hserve hreturned =>
      rw [hacceptor] at hserves
      refine ⟨before, hturn, ?_⟩
      have hserves : serve fl (writable _) _ { knobs := before } = _ := hserves
      show serve fl (writable _) _ { knobs := before } = _
      rw [serve_append _ _ _ (by rw [hserves]), hserves, hserve, ← hreturned]
    | finish hacceptor hserve hreturned =>
      rw [hacceptor] at hserves
      have hserves : serve fl (writable _) _ { knobs := before } = _ := hserves
      refine ⟨_, hturn.snoc ?_ hreturned rfl, rfl⟩
      rw [serve_append _ _ _ (by rw [hserves]), hserves, hserve]

/-- Whatever the clients and the kernel do, the operators take turns: the connections are served in
the order in which they were made, and each session is what it is alone, with the knobs as the
session before it left them. -/
theorem serialized
    (hrun : Transition.run (ControlServer.step fl writable) { knobs := k } labels = some s) :
    Serialized fl writable k labels s := by
  have hstart : Serialized fl writable k [] { knobs := k } := ⟨rfl, k, .nil, rfl⟩
  exact Transition.run_history (P := Serialized fl writable k)
    (fun _ _ _ _ h hstep => h.step hstep) hstart hrun

/-- Two operators, the second of whom connects while the first is served. -/
theorem serialized_two :
    ∃ s, Transition.run (ControlServer.step .exact fun _ _ => true) { knobs := {} }
        [.connect 4, .accept .connection, .load, .setTimeouts true, .connect 7,
          .read (.got "hang".toList), .read (.got " 1\n".toList), .read (.got []),
          .accept .eintr, .accept .connection, .load, .setTimeouts true,
          .read (.got "hang 0\n".toList)] = some s ∧
      s.sessions.map Session.client = [4] ∧
      Serialized .exact (fun _ _ => true) {}
        [.connect 4, .accept .connection, .load, .setTimeouts true, .connect 7,
          .read (.got "hang".toList), .read (.got " 1\n".toList), .read (.got []),
          .accept .eintr, .accept .connection, .load, .setTimeouts true,
          .read (.got "hang 0\n".toList)] s := by
  refine ⟨_, rfl, by decide +kernel, serialized rfl⟩

/-! ## The destructor -/

/-- The connections that are served, or will be. -/
def Server.begun (s : Server) : ℕ :=
  s.sessions.length +
    match s.acceptor with
    | .starting _ | .serving _ _ _ _ => 1
    | _ => 0

/-- What the server's threads do, but for the calls of `serve` and an `accept` that is
interrupted. -/
def Label.own : Label → Bool
  | .accept .connection | .load | .setTimeouts _ | .join => true
  | _ => false

/-- How many such steps the acceptor takes once the flag is set. -/
def Acceptor.left : Acceptor → ℕ
  | .starting _ => 3
  | .accepting | .serving _ _ _ _ => 2
  | .accepted _ => 1
  | .returned _ | .terminated _ => 0

/-- The same with the join. -/
def Server.left (s : Server) : ℕ :=
  s.acceptor.left + if s.destructor = .returned then 0 else 1

/-- What the flag and the destructor's connection say of the server. -/
structure Tended (s : Server) : Prop where
  stopping : s.stopping = true ↔ s.destructor ≠ .notCalled
  /-- The destructor's connection is in the queue until the acceptor has taken one. -/
  poked : s.destructor = .joining true → s.backlog = [] → s.acceptor.left ≤ 1

variable (fl writable) in
/-- How a server goes on whose flag is set. -/
structure ShutsDown (s : Server) : Prop where
  /-- No further connection is served. -/
  begun : ∀ later s', Transition.run (step fl writable) s later = some s' → s'.begun ≤ s.begun
  /-- The server takes four steps at most, -/
  bounded : ∀ later s', Transition.run (step fl writable) s later = some s' →
    later.countP Label.own ≤ 4
  /-- and can take them, unless a client is being served. -/
  goesOn : s.destructor = .joining true → (∀ client, s.acceptor ≠ .terminated client) →
    (∀ client reads pending replies, s.acceptor ≠ .serving client reads pending replies) →
    ∃ label, label.own = true ∧ (step fl writable s label).isSome
  /-- Without the destructor's connection the acceptor waits for another one. -/
  stuck : s.destructor = .joining false → s.acceptor = .accepting → s.backlog = [] →
    ∀ later s', later.flatMap Label.made = [] →
      Transition.run (step fl writable) s later = some s' → s'.destructor ≠ .returned

theorem Tended.step (h : Tended s) (hstep : ControlServer.step fl writable s label = some s') :
    Tended s' := by
  obtain ⟨hstopping, hpoked⟩ := h
  cases steps_of_step hstep with
  | connect client =>
    exact ⟨hstopping, fun _ hnil => absurd hnil (List.append_ne_nil_of_right_ne_nil _ (by simp))⟩
  | interrupted => exact ⟨hstopping, hpoked⟩
  | acceptFailed | turnAway | setTimeoutsFailed => exact ⟨hstopping, fun _ _ => Nat.zero_le _⟩
  | accept => exact ⟨hstopping, fun _ _ => le_rfl⟩
  | start hacceptor hfalse =>
    refine ⟨hstopping, fun hjoining => ?_⟩
    rw [hstopping.mpr (by simp [show s.destructor = _ from hjoining])] at hfalse
    cases hfalse
  | setTimeouts hacceptor | read hacceptor | finish hacceptor =>
    refine ⟨hstopping, fun hjoining hnil => ?_⟩
    have hleft := hpoked hjoining hnil
    simp [hacceptor, Acceptor.left] at hleft
  | store => exact ⟨by simp, fun hjoining => by cases hjoining⟩
  | poke client hpoking =>
    refine ⟨by simp [hstopping, hpoking], fun hjoining hnil => ?_⟩
    cases client with
    | none => cases hjoining
    | some client => simp at hnil
  | join hjoining hreturned =>
    exact ⟨by simp [hstopping, hjoining], fun hjoining => by cases hjoining⟩

theorem Tended.run
    (hrun : Transition.run (ControlServer.step fl writable) { knobs := k } labels = some s) :
    Tended s := by
  have hstart : Tended { knobs := k } := ⟨by simp, fun hjoining => by cases hjoining⟩
  exact Transition.run_invariant (P := Tended) (fun _ _ _ h hstep => h.step hstep) hstart hrun

/-- Once the flag is set, a step begins no connection and has the fewer steps behind it. -/
theorem left_of_step (hstopping : s.stopping = true)
    (hstep : step fl writable s label = some s') :
    s'.stopping = true ∧ s'.begun ≤ s.begun ∧
      (if label.own then 1 else 0) + s'.left ≤ s.left := by
  cases steps_of_step hstep with
  | connect | interrupted => exact ⟨hstopping, le_rfl, by simp [Label.own, Server.left]⟩
  | start hacceptor hfalse =>
    rw [hstopping] at hfalse
    cases hfalse
  | store hdestructor =>
    exact ⟨rfl, le_rfl, by simp [Label.own, Server.left, hdestructor]⟩
  | poke client hdestructor =>
    exact ⟨hstopping, le_rfl, by simp [Label.own, Server.left, hdestructor]⟩
  | join hdestructor =>
    exact ⟨hstopping, le_rfl, by simp [Label.own, Server.left, hdestructor]; omega⟩
  | acceptFailed hacceptor | accept hacceptor | turnAway hacceptor | setTimeouts hacceptor
  | setTimeoutsFailed hacceptor | read hacceptor | finish hacceptor =>
    refine ⟨hstopping, by simp [Server.begun, hacceptor], ?_⟩
    simp [Label.own, Server.left, Acceptor.left, hacceptor]
    try omega

/-- A run from a state in which the flag is set. -/
theorem left_of_run (hstopping : s.stopping = true)
    (hrun : Transition.run (step fl writable) s later = some s') :
    s'.begun ≤ s.begun ∧ later.countP Label.own + s'.left ≤ s.left := by
  have hinv := Transition.run_history (P := fun past t => t.stopping = true ∧
      t.begun ≤ s.begun ∧ past.countP Label.own + t.left ≤ s.left)
    (fun past t label t' h hstep => ?_) ⟨hstopping, le_rfl, by simp⟩ hrun
  · exact hinv.2
  · obtain ⟨hstopping, hbegun, hleft⟩ := h
    obtain ⟨hstopping', hbegun', hleft'⟩ := left_of_step hstopping hstep
    refine ⟨hstopping', hbegun'.trans hbegun, ?_⟩
    rw [List.countP_append, List.countP_singleton]
    omega

theorem Server.left_le (s : Server) : s.left ≤ 4 := by
  have hacceptor : s.acceptor.left ≤ 3 := by
    cases s.acceptor <;> simp [Acceptor.left]
  rw [Server.left]
  split <;> omega

/-- A server whose acceptor waits in vain. -/
def Server.Waits (s : Server) : Prop :=
  s.destructor = .joining false ∧ s.backlog = [] ∧
    (s.acceptor = .accepting ∨ s.acceptor = .terminated none)

theorem Server.Waits.step (h : s.Waits) (hmade : label.made = [])
    (hstep : ControlServer.step fl writable s label = some s') : s'.Waits := by
  obtain ⟨hdestructor, hbacklog, hacceptor⟩ := h
  cases steps_of_step hstep with
  | connect client => cases hmade
  | interrupted => exact ⟨hdestructor, hbacklog, hacceptor⟩
  | acceptFailed => exact ⟨hdestructor, hbacklog, .inr rfl⟩
  | accept _ hcons => rw [hbacklog] at hcons; cases hcons
  | start h | turnAway h | setTimeouts h | setTimeoutsFailed h | read h | finish h | join _ h =>
    rw [h] at hacceptor
    rcases hacceptor with hacceptor | hacceptor <;> cases hacceptor
  | store h | poke _ h => rw [hdestructor] at h; cases h

/-- In every run, whatever the clients and the kernel do: once the destructor has set the flag, no
further connection is served and the server is at most four steps from its end, with a step to take
unless it is still serving a client, if the destructor's own connection was made. If it was not, the
destructor does not return before another client connects to a server that waits for one. -/
theorem shutdown (k : Knobs) (labels : List Label)
    (hrun : Transition.run (step fl writable) { knobs := k } labels = some s)
    (hstopping : s.stopping = true) : ShutsDown fl writable s := by
  have htended := Tended.run hrun
  refine ⟨fun later s' hlater => (left_of_run hstopping hlater).1, fun later s' hlater => ?_,
    fun hjoining hrunning hserving => ?_,
    fun hjoining hacceptor hbacklog later s' hmade hlater => ?_⟩
  · have hleft := (left_of_run hstopping hlater).2
    have hle := s.left_le
    omega
  · cases hacceptor : s.acceptor with
    | accepting =>
      cases hbacklog : s.backlog with
      | nil =>
        have hleft := htended.poked hjoining hbacklog
        simp [hacceptor, Acceptor.left] at hleft
      | cons client backlog =>
        exact ⟨.accept .connection, rfl, by simp [step, acceptorStep, hacceptor, hbacklog]⟩
    | accepted client => exact ⟨.load, rfl, by simp [step, acceptorStep, hacceptor]⟩
    | starting client => exact ⟨.setTimeouts true, rfl, by simp [step, acceptorStep, hacceptor]⟩
    | serving client reads pending replies =>
      exact absurd hacceptor (hserving client reads pending replies)
    | returned client => exact ⟨.join, rfl, by simp [step, hacceptor, hjoining]⟩
    | terminated client => exact absurd hacceptor (hrunning client)
  · have hnone : ∀ label ∈ later, label.made = [] := List.flatMap_eq_nil_iff.mp hmade
    have hwaits : s'.Waits := Transition.run_invariant_of_forall (P := Server.Waits)
      (fun _ _ _ h hmade hstep => h.step hmade hstep) ⟨hjoining, hbacklog, .inl hacceptor⟩ hnone
      hlater
    rw [hwaits.1]
    exact fun h => by cases h

/-- A destructor that finds the acceptor in `serve`, and a server whose address is not the one that
the destructor connects to. -/
theorem shutdown_not_poked :
    ShutsDown .exact (fun _ _ => true)
        { knobs := {}, stopping := true, backlog := [5], acceptor := .serving 4 [] [] [],
          destructor := .joining true } ∧
      ShutsDown .exact (fun _ _ => true)
        { knobs := {}, stopping := true, destructor := .joining false } := by
  constructor
  · exact shutdown {} [.connect 4, .accept .connection, .load, .setTimeouts true, .store,
      .poke (some 5)] rfl rfl
  · exact shutdown {} [.store, .poke none] rfl rfl

end ControlServer

end Fault

end Dariyanaap

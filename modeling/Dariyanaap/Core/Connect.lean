import Dariyanaap.Core.Address
import Dariyanaap.Core.AwaitWritable
import Dariyanaap.Library.FirstThatWorks

/-!
# Connecting

`Socket::connect` and `Socket::connect_any` (`core/socket.cpp`) over the descriptors of a process. A
descriptor is in a table from `socket` to `close`, with what the calls have set on it. Every object
that owns a descriptor closes it when an exception passes (`owning`).

So a connect that throws leaves the descriptors as they were (`connect_error`), and one that returns
adds one that is connected, blocks and raises no signal (`connect_ok_iff`). `connect_any` is the
first address that works, and its failure is a timeout only if each of them timed out
(`connectAny_spec`).
-/

namespace Dariyanaap

namespace Core

/-- An open descriptor. -/
structure Descriptor where
  /-- The file status flags. -/
  flags : BitVec 32
  /-- `SO_NOSIGPIPE`. -/
  noSigpipe : Bool := false
  /-- `SO_REUSEADDR`. -/
  reuseAddress : Bool := false
  /-- The peer it is connected to. -/
  peer : Option Text := none
  /-- The address it is bound to. -/
  bound : Option SocketAddress := none
  /-- The backlog it listens with. -/
  backlog : Option ℤ := none
  deriving DecidableEq

/-- The open descriptors of a process. -/
abbrev Table : Type := ℕ → Option Descriptor

/-- A computation over the descriptors that may throw an `IoError`. -/
abbrev Syscalls (α : Type) : Type := Table → Except IoError α × Table

/-- `O_NONBLOCK`. -/
def nonblock : BitVec 32 := 4

/-- What a call sets on a descriptor. -/
def change (fd : ℕ) (f : Descriptor → Descriptor) (table : Table) : Table :=
  Function.update table fd ((table fd).map f)

/-- A call that sets something on a descriptor, or throws if it fails with an error. -/
def orThrow (fd : ℕ) (name : Text) (f : Descriptor → Descriptor) : Option Text → Syscalls Unit
  | some strerror, table => (.error (.io (name ++ ": ".toList ++ strerror)), table)
  | none, table => (.ok (), change fd f table)

/-- `disable_sigpipe`. -/
def disableSigpipe (fd : ℕ) : Option Text → Syscalls Unit :=
  orThrow fd "setsockopt(SO_NOSIGPIPE)".toList fun d => { d with noSigpipe := true }

/-- What the two calls of `fcntl` return. -/
structure Fcntl where
  get : Option Text := none
  set : Option Text := none
  deriving DecidableEq

/-- `set_nonblocking`. -/
def setNonblocking (fd : ℕ) (on : Bool) (answers : Fcntl) : Syscalls Unit := fun table =>
  match answers.get, answers.set with
  | some strerror, _ => (.error (.io ("fcntl F_GETFL: ".toList ++ strerror)), table)
  | none, some strerror => (.error (.io ("fcntl F_SETFL: ".toList ++ strerror)), table)
  | none, none =>
      (.ok (), change fd
        (fun d => { d with flags := if on then d.flags ||| nonblock else d.flags &&& ~~~nonblock })
        table)

/-- One computation after the other. -/
def andThen {α β : Type} (m : Syscalls α) (next : α → Syscalls β) : Syscalls β := fun table =>
  match m table with
  | (.ok a, table) => next a table
  | (.error e, table) => (.error e, table)

/-- What `socket` or `accept` returns: a descriptor with these flags, or an error. -/
inductive Opened where
  | descriptor (fd : ℕ) (flags : BitVec 32)
  | failed (strerror : Text)
  deriving DecidableEq

/-- A new descriptor, owned by an object while a computation uses it. The destructor closes it if
the computation throws. -/
def owning {α : Type} (fd : ℕ) (flags : BitVec 32) (m : Syscalls α) : Syscalls α := fun table =>
  match m (Function.update table fd (some { flags := flags })) with
  | (.ok a, table) => (.ok a, table)
  | (.error e, table) => (.error e, Function.update table fd none)

/-- `describe`. -/
def describe (what address strerror : Text) : Text :=
  what ++ " ".toList ++ address ++ ": ".toList ++ strerror

/-- What `::connect` returns. -/
inductive Connecting where
  | connected
  | inProgress
  | failed (strerror : Text)
  deriving DecidableEq

/-- The answers to the calls of one `connect`. -/
structure Answers where
  socket : Opened
  sigpipe : Option Text := none
  enter : Fcntl := {}
  connect : Connecting := .connected
  /-- What `await_writable` did. -/
  wait : AwaitWritable.Outcome := .writable
  /-- The error of `getsockopt`. -/
  getsockopt : Option Text := none
  /-- `SO_ERROR`, if it is not zero. -/
  soError : Option Text := none
  leave : Fcntl := {}
  deriving DecidableEq

/-- From `::connect` to the end of the wait for it. -/
def resolveConnect (fd : ℕ) (address : Text) (answers : Answers) : Syscalls Unit := fun table =>
  let connected := change fd (fun d => { d with peer := some address }) table
  match answers.connect with
  | .connected => (.ok (), connected)
  | .failed strerror => (.error (.io (describe "connect to".toList address strerror)), table)
  | .inProgress =>
      match answers.wait with
      | .timedOut what => (.error (.timedOut what), table)
      | .ioError what => (.error (.io what), table)
      | .writable =>
          match answers.getsockopt, answers.soError with
          | some strerror, _ =>
              (.error (.io (describe "getsockopt(SO_ERROR) for".toList address strerror)), table)
          -- writable is not connected: a refused connect is writable, too
          | none, some strerror =>
              (.error (.io (describe "connect to".toList address strerror)), table)
          | none, none => (.ok (), connected)

/-- What `connect` does with its descriptor. -/
def connectOn (fd : ℕ) (address : Text) (answers : Answers) : Syscalls Unit :=
  andThen (disableSigpipe fd answers.sigpipe) fun _ =>
    andThen (setNonblocking fd true answers.enter) fun _ =>
      andThen (resolveConnect fd address answers) fun _ =>
        setNonblocking fd false answers.leave

/-- `Socket::connect`. -/
def connect (address : Text) (answers : Answers) : Syscalls ℕ :=
  match answers.socket with
  | .failed strerror => fun table =>
      (.error (.io (describe "cannot create a socket for".toList address strerror)), table)
  | .descriptor fd flags =>
      andThen (owning fd flags (connectOn fd address answers)) fun _ table => (.ok fd, table)

/-- What `connect_any` has noted of the attempts so far: their texts, and whether each of them
timed out. -/
structure Failures where
  text : Text := []
  everyAttemptTimedOut : Bool := true
  deriving DecidableEq

/-- The texts of the failures so far, and one more. -/
def addText (text what : Text) : Text := (if text ≠ [] then text ++ "; ".toList else text) ++ what

/-- A `catch` clause of `connect_any`. -/
def Failures.note (failures : Failures) (e : IoError) : Failures where
  text := addText failures.text e.what
  everyAttemptTimedOut := failures.everyAttemptTimedOut && e.isTimedOut

/-- What `connect_any` throws. -/
def Failures.thrown (failures : Failures) : IoError :=
  if failures.everyAttemptTimedOut then .timedOut failures.text else .io failures.text

/-- `Socket::connect_any`, of addresses with the answers to their connects. -/
def connectAny (attempts : List (Text × Answers)) : Syscalls ℕ := fun table =>
  match FirstThatWorks.first (fun x => connect x.1 x.2) Failures.note {} attempts table with
  | (.ok fd, table) => (.ok fd, table)
  | (.error failures, table) => (.error failures.thrown, table)

/-! ## What a computation does to the descriptors -/

/-- A computation that touches one descriptor only. -/
def Only (fd : ℕ) {α : Type} (m : Syscalls α) : Prop :=
  ∀ table result t, m table = (result, t) → ∀ other, other ≠ fd → t other = table other

section Descriptors

variable {α β : Type} {fd : ℕ} {flags : BitVec 32} {table t : Table} {d : Descriptor}
  {f : Descriptor → Descriptor} {address : Text} {answers : Answers} {e : IoError}
  {m : Syscalls α} {next : α → Syscalls β} {a : α} {b : β}

@[simp]
theorem change_update : change fd f (Function.update table fd (some d)) =
    Function.update table fd (some (f d)) := by
  rw [change, Function.update_self, Function.update_idem]
  rfl

theorem change_of_ne {other : ℕ} (hne : other ≠ fd) : change fd f table other = table other :=
  Function.update_of_ne hne _ _

theorem Only.orThrow (name : Text) (f : Descriptor → Descriptor) (answer : Option Text) :
    Only fd (orThrow fd name f answer) := by
  intro table result t h other hne
  cases answer with
  | some strerror => cases h; rfl
  | none => cases h; exact change_of_ne hne

theorem Only.setNonblocking (on : Bool) (answers : Fcntl) :
    Only fd (setNonblocking fd on answers) := by
  intro table result t h other hne
  rw [Core.setNonblocking] at h
  split at h
  · cases h; rfl
  · cases h; rfl
  · cases h; exact change_of_ne hne

theorem Only.resolveConnect : Only fd (resolveConnect fd address answers) := by
  intro table result t h other hne
  rw [Core.resolveConnect] at h
  split at h
  · cases h; exact change_of_ne hne
  · cases h; rfl
  · split at h
    · cases h; rfl
    · cases h; rfl
    · split at h
      · cases h; rfl
      · cases h; rfl
      · cases h; exact change_of_ne hne

theorem Only.andThen {α β : Type} {m : Syscalls α} {next : α → Syscalls β} (hm : Only fd m)
    (hnext : ∀ a, Only fd (next a)) : Only fd (andThen m next) := by
  intro table result t h other hne
  rw [Core.andThen] at h
  split at h
  · next a middle hmiddle =>
    rw [hnext a middle result t h other hne, hm table _ middle hmiddle other hne]
  · next e middle hmiddle =>
    cases h
    exact hm table _ _ hmiddle other hne

theorem Only.connectOn : Only fd (connectOn fd address answers) :=
  .andThen (.orThrow _ _ _) fun _ => .andThen (.setNonblocking _ _) fun _ =>
    .andThen .resolveConnect fun _ => .setNonblocking _ _

theorem andThen_ok_iff : andThen m next table = (.ok b, t) ↔
    ∃ a middle, m table = (.ok a, middle) ∧ next a middle = (.ok b, t) := by
  rw [andThen]
  constructor
  · intro h
    split at h
    · next a middle hmiddle => exact ⟨a, middle, hmiddle, h⟩
    · cases h
  · rintro ⟨a, middle, hmiddle, h⟩
    rw [hmiddle]
    exact h

theorem andThen_error_iff : andThen m next table = (.error e, t) ↔
    m table = (.error e, t) ∨
      ∃ a middle, m table = (.ok a, middle) ∧ next a middle = (.error e, t) := by
  rw [andThen]
  constructor
  · intro h
    split at h
    · next a middle hmiddle => exact .inr ⟨a, middle, hmiddle, h⟩
    · next e' middle hmiddle =>
      cases h
      exact .inl hmiddle
  · rintro (h | ⟨a, middle, hmiddle, h⟩)
    · rw [h]
    · rw [hmiddle]
      exact h

theorem owning_ok_iff : owning fd flags m table = (.ok a, t) ↔
    m (Function.update table fd (some { flags := flags })) = (.ok a, t) := by
  rw [owning]
  split
  · next h => rw [h]
  · next h => simp [h]

theorem owning_error_iff : owning fd flags m table = (.error e, t) ↔
    ∃ t', m (Function.update table fd (some { flags := flags })) = (.error e, t') ∧
      t = Function.update t' fd none := by
  rw [owning]
  split
  · next h => simp [h]
  · next e' t' h =>
    rw [h]
    constructor
    · intro heq
      cases heq
      exact ⟨t', rfl, rfl⟩
    · rintro ⟨_, heq, rfl⟩
      cases heq
      rfl

/-- A descriptor whose owner throws is closed. -/
theorem owning_error (hfresh : table fd = none) (hm : Only fd m)
    (h : owning fd flags m table = (.error e, t)) : t = table := by
  obtain ⟨t', hthrown, rfl⟩ := owning_error_iff.mp h
  funext other
  by_cases hother : other = fd
  · rw [hother, Function.update_self, hfresh]
  · rw [Function.update_of_ne hother, hm _ _ _ hthrown other hother,
      Function.update_of_ne hother]

/-- The descriptor that `socket` returns is a new one. -/
def Opened.Fresh (table : Table) : Opened → Prop
  | .descriptor fd _ => table fd = none
  | .failed _ => True

/-- A connect that throws leaves the descriptors as they were. -/
theorem connect_error (hfresh : answers.socket.Fresh table)
    (h : connect address answers table = (.error e, t)) : t = table := by
  cases hsocket : answers.socket with
  | failed strerror =>
    rw [connect, hsocket] at h
    cases h
    rfl
  | descriptor fd flags =>
    rw [connect, hsocket] at h
    rw [hsocket] at hfresh
    rcases andThen_error_iff.mp h with h | ⟨_, _, -, h⟩
    · exact owning_error hfresh .connectOn h
    · cases h

end Descriptors

/-! ## When a connect succeeds, and when it times out -/

/-- A descriptor with these flags is connected, blocks and raises no signal. -/
def connectedTo (address : Text) (flags : BitVec 32) : Descriptor where
  flags := flags &&& ~~~nonblock
  noSigpipe := true
  peer := some address

/-- Nothing that `connect` calls before `::connect` fails. -/
structure Prepared (answers : Answers) (fd : ℕ) (flags : BitVec 32) : Prop where
  socket : answers.socket = .descriptor fd flags
  sigpipe : answers.sigpipe = none
  enter : answers.enter = {}

/-- The answers to a connect that succeeds. -/
structure Connects (answers : Answers) (fd : ℕ) (flags : BitVec 32) : Prop
    extends Prepared answers fd flags where
  resolved : answers.connect = .connected ∨ answers.connect = .inProgress ∧
    answers.wait = .writable ∧ answers.getsockopt = none ∧ answers.soError = none
  leave : answers.leave = {}

/-- The answers to a connect that times out. -/
structure TimesOut (answers : Answers) : Prop where
  prepared : ∃ fd flags, Prepared answers fd flags
  connect : answers.connect = .inProgress
  wait : ∃ what, answers.wait = .timedOut what

section Outcomes

variable {α β : Type} {fd : ℕ} {flags : BitVec 32} {table t : Table} {d : Descriptor}
  {m : Syscalls α} {next : α → Syscalls β} {b : β} {name address : Text} {on : Bool}
  {f : Descriptor → Descriptor} {answer : Option Text} {answers : Answers} {fcntl : Fcntl}
  {e : IoError} {what : Text} {u : Unit}

theorem orThrow_ok_iff : orThrow fd name f answer table = (.ok u, t) ↔
    answer = none ∧ t = change fd f table := by
  cases answer <;> simp [orThrow, eq_comm]

theorem orThrow_ne_timedOut :
    orThrow fd name f answer table ≠ (.error (.timedOut what), t) := by
  cases answer <;> simp [orThrow]

theorem disableSigpipe_ok_iff : disableSigpipe fd answer table = (.ok u, t) ↔
    answer = none ∧ t = change fd (fun d => { d with noSigpipe := true }) table :=
  orThrow_ok_iff

theorem disableSigpipe_ne_timedOut :
    disableSigpipe fd answer table ≠ (.error (.timedOut what), t) :=
  orThrow_ne_timedOut

theorem setNonblocking_ok_iff : setNonblocking fd on fcntl table = (.ok u, t) ↔
    fcntl = {} ∧ t = change fd
      (fun d => { d with flags := if on then d.flags ||| nonblock else d.flags &&& ~~~nonblock })
      table := by
  obtain ⟨get, set⟩ := fcntl
  cases get <;> cases set <;> simp [setNonblocking, eq_comm]

theorem setNonblocking_ne_timedOut :
    setNonblocking fd on fcntl table ≠ (.error (.timedOut what), t) := by
  obtain ⟨get, set⟩ := fcntl
  cases get <;> cases set <;> simp [setNonblocking]

theorem resolveConnect_ok_iff : resolveConnect fd address answers table = (.ok u, t) ↔
    (answers.connect = .connected ∨ answers.connect = .inProgress ∧ answers.wait = .writable ∧
      answers.getsockopt = none ∧ answers.soError = none) ∧
    t = change fd (fun d => { d with peer := some address }) table := by
  obtain ⟨socket, sigpipe, enter, connect, wait, getsockopt, soError, leave⟩ := answers
  cases connect with
  | connected => simp [resolveConnect, eq_comm]
  | failed strerror => simp [resolveConnect]
  | inProgress =>
    cases wait with
    | timedOut what => simp [resolveConnect]
    | ioError what => simp [resolveConnect]
    | writable => cases getsockopt <;> cases soError <;> simp [resolveConnect, eq_comm]

theorem resolveConnect_timedOut_iff :
    resolveConnect fd address answers table = (.error (.timedOut what), t) ↔
      answers.connect = .inProgress ∧ answers.wait = .timedOut what ∧ t = table := by
  obtain ⟨socket, sigpipe, enter, connect, wait, getsockopt, soError, leave⟩ := answers
  cases connect with
  | connected => simp [resolveConnect]
  | failed strerror => simp [resolveConnect]
  | inProgress =>
    cases wait with
    | timedOut what => simp [resolveConnect, eq_comm]
    | ioError what => simp [resolveConnect]
    | writable => cases getsockopt <;> cases soError <;> simp [resolveConnect]

/-- What is set and cleared again is clear. -/
theorem clear_set (flags : BitVec 32) : (flags ||| nonblock) &&& ~~~nonblock =
    flags &&& ~~~nonblock := by
  ext i
  simp [Bool.and_or_distrib_right]

/-- A connect that goes through leaves its descriptor connected. -/
theorem connectOn_ok_iff :
    connectOn fd address answers (Function.update table fd (some { flags := flags })) =
        (.ok u, t) ↔
      (answers.sigpipe = none ∧ answers.enter = {} ∧
        (answers.connect = .connected ∨ answers.connect = .inProgress ∧ answers.wait = .writable ∧
          answers.getsockopt = none ∧ answers.soError = none) ∧ answers.leave = {}) ∧
        t = Function.update table fd (some (connectedTo address flags)) := by
  rw [connectOn, andThen_ok_iff]
  simp only [disableSigpipe_ok_iff, andThen_ok_iff, setNonblocking_ok_iff, resolveConnect_ok_iff]
  constructor
  · rintro ⟨_, _, ⟨hsigpipe, rfl⟩, _, _, ⟨henter, rfl⟩, _, _, ⟨hresolved, rfl⟩, hleave, rfl⟩
    refine ⟨⟨hsigpipe, henter, hresolved, hleave⟩, ?_⟩
    simp [connectedTo, clear_set]
  · rintro ⟨⟨hsigpipe, henter, hresolved, hleave⟩, rfl⟩
    refine ⟨(), _, ⟨hsigpipe, rfl⟩, (), _, ⟨henter, rfl⟩, (), _, ⟨hresolved, rfl⟩, hleave, ?_⟩
    simp [connectedTo, clear_set]

/-- Only the wait for a connect times out. -/
theorem connectOn_timedOut_iff :
    (∃ t, connectOn fd address answers table = (.error (.timedOut what), t)) ↔
      answers.sigpipe = none ∧ answers.enter = {} ∧ answers.connect = .inProgress ∧
        answers.wait = .timedOut what := by
  simp only [connectOn, andThen_error_iff, disableSigpipe_ok_iff, setNonblocking_ok_iff,
    resolveConnect_timedOut_iff, disableSigpipe_ne_timedOut, setNonblocking_ne_timedOut, false_or,
    and_false, exists_false, or_false]
  constructor
  · rintro ⟨t, _, _, ⟨hsigpipe, -⟩, _, _, ⟨henter, -⟩, hconnect, hwait, -⟩
    exact ⟨hsigpipe, henter, hconnect, hwait⟩
  · rintro ⟨hsigpipe, henter, hconnect, hwait⟩
    exact ⟨_, (), _, ⟨hsigpipe, rfl⟩, (), _, ⟨henter, rfl⟩, hconnect, hwait, rfl⟩

/-- A connect succeeds with its answers, and then adds one descriptor. -/
theorem connect_ok_iff : connect address answers table = (.ok fd, t) ↔
    ∃ flags, Connects answers fd flags ∧
      t = Function.update table fd (some (connectedTo address flags)) := by
  cases hsocket : answers.socket with
  | failed strerror =>
    rw [connect, hsocket]
    refine iff_of_false (by simp) ?_
    rintro ⟨flags, hconnects, -⟩
    rw [hconnects.socket] at hsocket
    cases hsocket
  | descriptor fd' flags' =>
    rw [connect, hsocket]
    dsimp only
    simp only [andThen_ok_iff, owning_ok_iff, connectOn_ok_iff]
    constructor
    · rintro ⟨_, _, ⟨⟨hsigpipe, henter, hresolved, hleave⟩, rfl⟩, h⟩
      cases h
      exact ⟨flags', ⟨⟨hsocket, hsigpipe, henter⟩, hresolved, hleave⟩, rfl⟩
    · rintro ⟨flags, ⟨⟨hsocket', hsigpipe, henter⟩, hresolved, hleave⟩, rfl⟩
      obtain ⟨rfl, rfl⟩ : fd' = fd ∧ flags' = flags := by
        rw [hsocket] at hsocket'
        simpa using hsocket'
      exact ⟨(), _, ⟨⟨hsigpipe, henter, hresolved, hleave⟩, rfl⟩, rfl⟩

/-- A connect times out when its wait does. -/
theorem connect_timedOut_iff :
    (∃ what, (connect address answers table).1 = .error (.timedOut what)) ↔ TimesOut answers := by
  cases hsocket : answers.socket with
  | failed strerror =>
    rw [connect, hsocket]
    refine iff_of_false (by simp) ?_
    rintro ⟨⟨fd, flags, hprepared⟩, -, -⟩
    rw [hprepared.socket] at hsocket
    cases hsocket
  | descriptor fd flags =>
    have hthrown : (∃ what, (connect address answers table).1 = .error (.timedOut what)) ↔
        ∃ what t, connectOn fd address answers
          (Function.update table fd (some { flags := flags })) = (.error (.timedOut what), t) := by
      refine exists_congr fun what => ?_
      constructor
      · intro h
        have heq : connect address answers table =
            (.error (.timedOut what), (connect address answers table).2) := Prod.ext h rfl
        rw [connect, hsocket] at heq
        rcases andThen_error_iff.mp heq with heq | ⟨_, _, -, heq⟩
        · obtain ⟨t, hthrown, -⟩ := owning_error_iff.mp heq
          exact ⟨t, hthrown⟩
        · cases heq
      · rintro ⟨t, hthrown⟩
        rw [connect, hsocket]
        simp only [andThen, owning, hthrown]
    rw [hthrown]
    simp only [connectOn_timedOut_iff]
    constructor
    · rintro ⟨what, hsigpipe, henter, hconnect, hwait⟩
      exact ⟨⟨fd, flags, hsocket, hsigpipe, henter⟩, hconnect, what, hwait⟩
    · rintro ⟨⟨fd', flags', hprepared⟩, hconnect, what, hwait⟩
      exact ⟨what, hprepared.sigpipe, hprepared.enter, hconnect, hwait⟩

end Outcomes

/-! ## What a failure says -/

/-- A computation that says something when it throws. -/
def Says {α : Type} (m : Syscalls α) : Prop :=
  ∀ table e t, m table = (.error e, t) → e.what ≠ []

/-- What the calls of a connect can return: a descriptor that is a new one, and the end of a wait of
`await_writable`. -/
structure Possible (timeout : Millis) (table : Table) (address : Text) (answers : Answers) :
    Prop where
  fresh : answers.socket.Fresh table
  waited : answers.connect = .inProgress → ∃ entered turns w finish,
    AwaitWritable.Run address timeout entered turns w ∧ w.ended = some (answers.wait, finish)

section Texts

variable {α β : Type} {fd : ℕ} {table t : Table} {address : Text} {timeout : Millis}
  {answers : Answers} {e : IoError} {errors : List IoError} {text : Text} {every : Bool}

/-- A computation throws or returns. -/
theorem exists_fst_eq_error_iff {m : Syscalls α} :
    (∃ e, (m table).1 = .error e) ↔ ∀ a t, m table ≠ (.ok a, t) := by
  cases hresult : m table with
  | mk result t => cases result <;> simp

theorem says_of_forall₂ {A : Type} {m : A → Syscalls α} {attempts : List A}
    (htexts : ∀ x ∈ attempts, Says (m x))
    (h : List.Forall₂ (fun x e => (m x table).1 = .error e) attempts errors) :
    ∀ e ∈ errors, e.what ≠ [] := by
  induction h with
  | nil => exact List.forall_mem_nil _
  | cons hfailed _ ih =>
    obtain ⟨hx, hrest⟩ := List.forall_mem_cons.mp htexts
    exact List.forall_mem_cons.mpr ⟨hx table _ _ (Prod.ext hfailed rfl), ih hrest⟩

theorem Says.andThen {m : Syscalls α} {next : α → Syscalls β} (hm : Says m)
    (hnext : ∀ a, Says (next a)) : Says (andThen m next) := by
  intro table e t h
  rcases andThen_error_iff.mp h with h | ⟨a, middle, -, h⟩
  · exact hm _ _ _ h
  · exact hnext a _ _ _ h

theorem Says.owning {m : Syscalls α} {flags : BitVec 32} (hm : Says m) :
    Says (owning fd flags m) := by
  intro table e t h
  obtain ⟨t', hthrown, -⟩ := owning_error_iff.mp h
  exact hm _ _ _ hthrown

theorem Says.orThrow (name : Text) (f : Descriptor → Descriptor) (answer : Option Text) :
    Says (orThrow fd name f answer) := by
  intro table e t h
  cases answer with
  | some strerror => cases h; simp [IoError.what]
  | none => cases h

theorem Says.setNonblocking (on : Bool) (answers : Fcntl) :
    Says (setNonblocking fd on answers) := by
  intro table e t h
  rw [Core.setNonblocking] at h
  split at h
  · cases h; simp [IoError.what]
  · cases h; simp [IoError.what]
  · cases h

/-- The texts of `await_writable`. -/
theorem Possible.says (hpossible : Possible timeout table address answers)
    (hconnect : answers.connect = .inProgress) :
    answers.wait ≠ .timedOut [] ∧ answers.wait ≠ .ioError [] := by
  obtain ⟨entered, turns, w, finish, hrun, hended⟩ := hpossible.waited hconnect
  cases hrun with
  | enter => cases hended
  | @turn _ w t hrun _ _ =>
    rw [AwaitWritable.Wait.turn] at hended
    split at hended
    · simp [AwaitWritable.timedOut] at hended
      simp [← hended.1]
    · cases hpoll : t.poll <;> simp [hpoll, AwaitWritable.timedOut] at hended <;>
        simp [← hended.1]

theorem Says.resolveConnect (hpossible : Possible timeout table address answers) :
    Says (resolveConnect fd address answers) := by
  intro table e t h
  rw [Core.resolveConnect] at h
  split at h
  · cases h
  · cases h; simp [IoError.what, describe]
  · next hconnect =>
    obtain ⟨htimedOut, hioError⟩ := hpossible.says hconnect
    split at h
    · next what hwhat =>
      cases h
      rintro rfl
      exact htimedOut hwhat
    · next what hwhat =>
      cases h
      rintro rfl
      exact hioError hwhat
    · split at h
      · cases h; simp [IoError.what, describe]
      · cases h; simp [IoError.what, describe]
      · cases h

theorem Says.connectOn (hpossible : Possible timeout table address answers) :
    Says (connectOn fd address answers) :=
  .andThen (.orThrow _ _ _) fun _ => .andThen (.setNonblocking _ _) fun _ =>
    .andThen (.resolveConnect hpossible) fun _ => .setNonblocking _ _

theorem Says.connect (hpossible : Possible timeout table address answers) :
    Says (connect address answers) := by
  intro table e t h
  cases hsocket : answers.socket with
  | failed strerror =>
    rw [Core.connect, hsocket] at h
    cases h
    simp [IoError.what, describe]
  | descriptor fd flags =>
    rw [Core.connect, hsocket] at h
    refine Says.andThen (.owning (.connectOn hpossible)) (fun _ table e t h => ?_) table e t h
    cases h

/-- The text of the attempts so far is theirs, separated. -/
theorem foldl_addText_of_ne_nil (htext : text ≠ []) :
    errors.foldl (fun failures e => addText failures e.what) text =
      "; ".toList.intercalate (text :: errors.map IoError.what) := by
  induction errors generalizing text with
  | nil => simp
  | cons e errors ih =>
    rw [List.foldl_cons, addText, if_pos htext, ih (by simp), List.map_cons,
      List.intercalate_cons_cons]
    cases errors <;> simp

theorem foldl_addText (htexts : ∀ e ∈ errors, e.what ≠ []) :
    errors.foldl (fun failures e => addText failures e.what) [] =
      "; ".toList.intercalate (errors.map IoError.what) := by
  cases errors with
  | nil => rfl
  | cons e errors => exact foldl_addText_of_ne_nil (htexts e List.mem_cons_self)

/-- What is noted of all attempts. -/
theorem foldl_note (htexts : ∀ e ∈ errors, e.what ≠ []) :
    errors.foldl Failures.note {} =
      { text := "; ".toList.intercalate (errors.map IoError.what)
        everyAttemptTimedOut := errors.all IoError.isTimedOut } := by
  have hnote : ∀ failures : Failures, errors.foldl Failures.note failures =
      { text := errors.foldl (fun text e => addText text e.what) failures.text
        everyAttemptTimedOut :=
          failures.everyAttemptTimedOut && errors.all IoError.isTimedOut } := by
    clear htexts
    induction errors with
    | nil => simp
    | cons e errors ih =>
      intro failures
      rw [List.foldl_cons, ih, Failures.note, List.foldl_cons, List.all_cons, Bool.and_assoc]
  rw [hnote, foldl_addText htexts, Bool.true_and]

theorem thrown_what (failures : Failures) : failures.thrown.what = failures.text := by
  rw [Failures.thrown]
  split <;> rfl

theorem thrown_isTimedOut (failures : Failures) :
    failures.thrown.isTimedOut = failures.everyAttemptTimedOut := by
  rw [Failures.thrown]
  split <;> simp_all [IoError.isTimedOut]

end Texts

/-! ## The first address that works -/

section Addresses

variable {timeout : Millis} {table t : Table} {attempts : List (Text × Answers)}
  {errors : List IoError} {e : IoError} {fd : ℕ}

/-- A connect that does not succeed throws. -/
theorem exists_error_iff (x : Text × Answers) :
    (∃ e, (connect x.1 x.2 table).1 = .error e) ↔ ∀ fd flags, ¬Connects x.2 fd flags := by
  rw [exists_fst_eq_error_iff]
  constructor
  · intro hnone fd flags hconnects
    exact hnone fd _ (connect_ok_iff.mpr ⟨flags, hconnects, rfl⟩)
  · intro hnone fd t hok
    obtain ⟨flags, hconnects, -⟩ := connect_ok_iff.mp hok
    exact hnone fd flags hconnects

/-- The errors are timeouts where the attempts are. -/
theorem all_isTimedOut
    (h : List.Forall₂ (fun x e => (connect x.1 x.2 table).1 = .error e) attempts errors) :
    errors.all IoError.isTimedOut = true ↔ ∀ x ∈ attempts, TimesOut x.2 := by
  induction h with
  | nil => simp
  | @cons x e attempts errors hfailed _ ih =>
    have hone : e.isTimedOut = true ↔
        ∃ what, (connect x.1 x.2 table).1 = .error (.timedOut what) := by
      rw [hfailed]
      cases e <;> simp [IoError.isTimedOut]
    rw [List.all_cons, Bool.and_eq_true, hone, connect_timedOut_iff, ih, List.forall_mem_cons]

theorem connectAny_ok_iff : connectAny attempts table = (.ok fd, t) ↔
    FirstThatWorks.first (fun x => connect x.1 x.2) Failures.note {} attempts table =
      (.ok fd, t) := by
  rw [connectAny]
  split
  · next h => simp [h]
  · next h => simp [h]

theorem connectAny_error_iff : connectAny attempts table = (.error e, t) ↔
    ∃ failures, FirstThatWorks.first (fun x => connect x.1 x.2) Failures.note {} attempts table =
      (.error failures, t) ∧ failures.thrown = e := by
  rw [connectAny]
  split
  · next h => simp [h]
  · next failures t' h => simp [h, and_comm]

/-- `connect_any` is the connect to the first address that works, and adds its descriptor only. When
it throws, each address has failed and the descriptors are as they were. It says what each of them
said, in order, and has timed out exactly if each of them has. -/
theorem connectAny_spec (timeout : Millis) (attempts : List (Text × Answers)) (table : Table)
    (hpossible : ∀ x ∈ attempts, Possible timeout table x.1 x.2) :
    (∀ fd t, connectAny attempts table = (.ok fd, t) ↔
      ∃ before address answers after flags, attempts = before ++ (address, answers) :: after ∧
        (∀ x ∈ before, ∀ fd flags, ¬Connects x.2 fd flags) ∧ Connects answers fd flags ∧
        t = Function.update table fd (some (connectedTo address flags))) ∧
      ∀ e t, connectAny attempts table = (.error e, t) →
        t = table ∧ (∀ x ∈ attempts, ∀ fd flags, ¬Connects x.2 fd flags) ∧
        (e.isTimedOut = true ↔ ∀ x ∈ attempts, TimesOut x.2) ∧
        ∃ errors, List.Forall₂ (fun x e => (connect x.1 x.2 table).1 = .error e) attempts errors ∧
          e.what = "; ".toList.intercalate (errors.map IoError.what) := by
  have hclean : ∀ x ∈ attempts,
      FirstThatWorks.Clean (fun x : Text × Answers => connect x.1 x.2) table x :=
    fun x hx _ _ => connect_error (hpossible x hx).fresh
  refine ⟨fun fd t => ?_, fun e t h => ?_⟩
  · rw [connectAny_ok_iff, FirstThatWorks.first_eq_ok_iff hclean]
    constructor
    · rintro ⟨before, ⟨address, answers⟩, after, rfl, hbefore, hok⟩
      obtain ⟨flags, hconnects, rfl⟩ := connect_ok_iff.mp hok
      exact ⟨before, address, answers, after, flags, rfl,
        fun x hx => (exists_error_iff x).mp (hbefore x hx), hconnects, rfl⟩
    · rintro ⟨before, address, answers, after, flags, rfl, hbefore, hconnects, rfl⟩
      exact ⟨before, (address, answers), after, rfl,
        fun x hx => (exists_error_iff x).mpr (hbefore x hx),
        connect_ok_iff.mpr ⟨flags, hconnects, rfl⟩⟩
  · obtain ⟨failures, hfirst, rfl⟩ := connectAny_error_iff.mp h
    obtain ⟨rfl, errors, hall, rfl⟩ := (FirstThatWorks.first_eq_error_iff hclean).mp hfirst
    have hnote := foldl_note (says_of_forall₂ (fun x hx => Says.connect (hpossible x hx)) hall)
    refine ⟨rfl, fun x hx => ?_, ?_, errors, hall, ?_⟩
    · obtain ⟨e, he⟩ := FirstThatWorks.exists_error_of_mem hall hx
      exact (exists_error_iff x).mp ⟨e, he⟩
    · rw [thrown_isTimedOut, hnote]
      exact all_isTimedOut hall
    · rw [thrown_what, hnote]

/-- Two addresses of a name, the first of which refuses. -/
theorem connectAny_spec_refused :
    connectAny
        [("[::1]:80".toList,
          { socket := .descriptor 3 2
            connect := .inProgress
            soError := some "Connection refused".toList }),
        ("127.0.0.1:80".toList,
          { socket := .descriptor 3 2
            connect := .inProgress })]
      (fun _ => none) =
      (.ok 3, Function.update (fun _ => none) 3 (some (connectedTo "127.0.0.1:80".toList 2))) := by
  have hrun (address : Text) :
      AwaitWritable.Run address 5 0 [⟨0, .ready, 0⟩]
        ((AwaitWritable.enter 5 0).turn address 5 ⟨0, .ready, 0⟩) :=
    AwaitWritable.Run.enter.turn rfl (by decide)
  refine ((connectAny_spec 5 _ _ ?_).1 3 _).mpr ⟨[_], _, _, [], 2, rfl, ?_, ?_, rfl⟩
  · intro x hx
    rw [List.mem_pair] at hx
    rcases hx with rfl | rfl
    · exact ⟨rfl, fun _ => ⟨0, _, _, 0, hrun _, rfl⟩⟩
    · exact ⟨rfl, fun _ => ⟨0, _, _, 0, hrun _, rfl⟩⟩
  · intro x hx fd flags hconnects
    rw [List.mem_singleton.mp hx] at hconnects
    simpa using hconnects.resolved
  · exact ⟨⟨rfl, rfl, rfl⟩, .inr ⟨rfl, rfl, rfl, rfl⟩, rfl⟩

end Addresses

end Core

end Dariyanaap

import Dariyanaap.Core.Connect

/-!
# Listening

`Listener` (`core/listener.cpp`): its socket is bound to the first address that works, as
`connect_any` connects to it, and its port is the one that the kernel gave it.
-/

namespace Dariyanaap

namespace Core

/-- The answers to the calls that bind one address. -/
structure BindAnswers where
  socket : Opened
  sigpipe : Option Text := none
  reuse : Option Text := none
  bind : Option Text := none
  /-- The port that the kernel chooses if it is asked for one. -/
  chosen : UInt16 := 0
  listen : Option Text := none
  getsockname : Option Text := none
  deriving DecidableEq

/-- `Listener`. -/
structure Listener where
  fd : ℕ
  address : SocketAddress
  port : UInt16
  deriving DecidableEq

/-- The port that `::bind` gives a socket. -/
def granted (address : SocketAddress) (answers : BindAnswers) : UInt16 :=
  if address.port = 0 then answers.chosen else address.port

/-- `bind_one`, from `adopt` on. -/
def bindOne (backlog : ℤ) (fd : ℕ) (address : SocketAddress) (answers : BindAnswers) :
    Syscalls Unit :=
  andThen (disableSigpipe fd answers.sigpipe) fun _ =>
    andThen (orThrow fd "setsockopt(SO_REUSEADDR)".toList
      (fun d => { d with reuseAddress := true }) answers.reuse) fun _ =>
      andThen (orThrow fd ("cannot bind ".toList ++ address.str)
        (fun d => { d with bound := some { address with port := granted address answers } })
        answers.bind) fun _ =>
        orThrow fd ("cannot listen on ".toList ++ address.str)
          (fun d => { d with backlog := some backlog }) answers.listen

/-- `bound_port`. -/
def boundPort (fd : ℕ) : Option Text → Syscalls UInt16
  | some strerror, table => (.error (.io ("getsockname: ".toList ++ strerror)), table)
  | none, table =>
      match (table fd).bind Descriptor.bound with
      | some ⟨.inet, _, port⟩ | some ⟨.inet6, _, port⟩ => (.ok port, table)
      | some ⟨.other _, _, _⟩ =>
          (.error (.io "bound an address family with no port".toList), table)
      -- a socket that is not bound yet
      | none => (.ok 0, table)

/-- What is done for one address. -/
def bindAddress (backlog : ℤ) (address : SocketAddress) (answers : BindAnswers) :
    Syscalls Listener :=
  match answers.socket with
  | .failed strerror => fun table =>
      (.error (.io (describe "cannot create a socket for".toList address.str strerror)), table)
  | .descriptor fd flags =>
      owning fd flags <| andThen (bindOne backlog fd address answers) fun _ =>
        andThen (boundPort fd answers.getsockname) fun port table =>
          match address.withPort port with
          | .ok address => (.ok ⟨fd, address, port⟩, table)
          | .error e => (.error e, table)

/-- `bind_first_that_works`, of addresses with the answers to their calls. -/
def bindFirstThatWorks (backlog : ℤ) (attempts : List (SocketAddress × BindAnswers)) :
    Syscalls Listener := fun table =>
  match FirstThatWorks.first (fun x => bindAddress backlog x.1 x.2)
      (fun failures e => addText failures e.what) [] attempts table with
  | (.ok listener, table) => (.ok listener, table)
  | (.error failures, table) => (.error (.io failures), table)

/-- `bind_ephemeral`, of the addresses of its host. -/
def bindEphemeral (backlog : ℤ) (attempts : List (SocketAddress × BindAnswers)) :
    Syscalls Listener := fun table =>
  match attempts.mapM fun x => (x.1.withPort 0).map fun address => (address, x.2) with
  | .ok attempts => bindFirstThatWorks backlog attempts table
  | .error e => (.error e, table)

/-- `accept`, given what the calls of `::accept` return: nothing if they are interrupted. -/
def accept (listener : Listener) (sigpipe : Option Text) :
    List (Option Opened) → Syscalls (Option ℕ)
  | [] => fun table => (.ok none, table)
  | none :: answers => accept listener sigpipe answers
  | some (.failed strerror) :: _ => fun table =>
      (.error (.io (describe "accept on".toList listener.address.str strerror)), table)
  | some (.descriptor fd flags) :: _ =>
      andThen (owning fd flags (disableSigpipe fd sigpipe)) fun _ table => (.ok (some fd), table)

/-! ## One address -/

/-- The answers to the calls for an address that works. -/
structure Binds (address : SocketAddress) (answers : BindAnswers) (fd : ℕ) (flags : BitVec 32) :
    Prop where
  socket : answers.socket = .descriptor fd flags
  sigpipe : answers.sigpipe = none
  reuse : answers.reuse = none
  bind : answers.bind = none
  listen : answers.listen = none
  getsockname : answers.getsockname = none
  family : address.family.hasPort = true

/-- A descriptor with these flags listens on an address, raises no signal and may take the address
of a connection that is about to be forgotten. -/
def listeningOn (backlog : ℤ) (address : SocketAddress) (flags : BitVec 32) : Descriptor where
  flags := flags
  noSigpipe := true
  reuseAddress := true
  bound := some address
  backlog := some backlog

section OneAddress

variable {backlog : ℤ} {fd : ℕ} {flags : BitVec 32} {table t : Table} {address : SocketAddress}
  {answers : BindAnswers} {answer : Option Text} {listener : Listener} {e : IoError} {u : Unit}
  {port : UInt16}

theorem bindOne_ok_iff :
    bindOne backlog fd address answers (Function.update table fd (some { flags := flags })) =
        (.ok u, t) ↔
      (answers.sigpipe = none ∧ answers.reuse = none ∧ answers.bind = none ∧
        answers.listen = none) ∧
        t = Function.update table fd (some (listeningOn backlog
          { address with port := granted address answers } flags)) := by
  rw [bindOne, andThen_ok_iff]
  simp only [disableSigpipe_ok_iff, andThen_ok_iff, orThrow_ok_iff]
  constructor
  · rintro ⟨_, _, ⟨hsigpipe, rfl⟩, _, _, ⟨hreuse, rfl⟩, _, _, ⟨hbind, rfl⟩, hlisten, rfl⟩
    exact ⟨⟨hsigpipe, hreuse, hbind, hlisten⟩, by simp [listeningOn]⟩
  · rintro ⟨⟨hsigpipe, hreuse, hbind, hlisten⟩, rfl⟩
    exact ⟨(), _, ⟨hsigpipe, rfl⟩, (), _, ⟨hreuse, rfl⟩, (), _, ⟨hbind, rfl⟩, hlisten,
      by simp [listeningOn]⟩

/-- The port of a bound descriptor is its own. -/
theorem boundPort_ok_iff (hbound : (table fd).bind Descriptor.bound = some address) :
    boundPort fd answer table = (.ok port, t) ↔
      answer = none ∧ address.family.hasPort = true ∧ address.port = port ∧ t = table := by
  obtain ⟨family, host, bound⟩ := address
  cases answer with
  | some strerror => simp [boundPort]
  | none =>
    cases family <;> simp [boundPort, hbound, Family.hasPort, eq_comm]

theorem Only.bindOne : Only fd (bindOne backlog fd address answers) :=
  .andThen (.orThrow _ _ _) fun _ => .andThen (.orThrow _ _ _) fun _ =>
    .andThen (.orThrow _ _ _) fun _ => .orThrow _ _ _

/-- An address works with its answers, and then one descriptor is added, which listens on it. -/
theorem bindAddress_ok_iff : bindAddress backlog address answers table = (.ok listener, t) ↔
    ∃ flags, Binds address answers listener.fd flags ∧
      listener.address = { address with port := granted address answers } ∧
      listener.port = granted address answers ∧
      t = Function.update table listener.fd
        (some (listeningOn backlog listener.address flags)) := by
  cases hsocket : answers.socket with
  | failed strerror =>
    rw [bindAddress, hsocket]
    refine iff_of_false (by simp) ?_
    rintro ⟨flags, hbinds, -⟩
    rw [hbinds.socket] at hsocket
    cases hsocket
  | descriptor fd flags =>
    rw [bindAddress, hsocket]
    dsimp only
    have hbound : (Function.update table fd (some (listeningOn backlog
        { address with port := granted address answers } flags)) fd).bind Descriptor.bound =
          some { address with port := granted address answers } := by
      rw [Function.update_self]
      rfl
    rw [owning_ok_iff, andThen_ok_iff]
    simp only [bindOne_ok_iff, andThen_ok_iff]
    constructor
    · rintro ⟨_, _, ⟨⟨hsigpipe, hreuse, hbind, hlisten⟩, rfl⟩, port, _, hport, h⟩
      obtain ⟨hgetsockname, hfamily, rfl, rfl⟩ := (boundPort_ok_iff hbound).mp hport
      have hfamily : address.family.hasPort = true := hfamily
      rw [SocketAddress.withPort_of_hasPort hfamily] at h
      cases h
      exact ⟨flags, ⟨hsocket, hsigpipe, hreuse, hbind, hlisten, hgetsockname, hfamily⟩, rfl, rfl,
        rfl⟩
    · obtain ⟨fd', address', port'⟩ := listener
      rintro ⟨flags', hbinds, rfl, rfl, rfl⟩
      obtain ⟨rfl, rfl⟩ : fd = fd' ∧ flags = flags' := by simpa [hsocket] using hbinds.socket
      refine ⟨(), _, ⟨⟨hbinds.sigpipe, hbinds.reuse, hbinds.bind, hbinds.listen⟩, rfl⟩, _, _,
        (boundPort_ok_iff hbound).mpr ⟨hbinds.getsockname, hbinds.family, rfl, rfl⟩, ?_⟩
      rw [SocketAddress.withPort_of_hasPort hbinds.family]

theorem Only.boundPort : Only fd (boundPort fd answer) := by
  intro table result t h other hne
  cases answer with
  | some strerror => cases h; rfl
  | none =>
    rw [Core.boundPort] at h
    split at h <;> cases h <;> rfl

/-- An address that does not work leaves the descriptors as they were. -/
theorem bindAddress_error (hfresh : answers.socket.Fresh table)
    (h : bindAddress backlog address answers table = (.error e, t)) : t = table := by
  cases hsocket : answers.socket with
  | failed strerror =>
    rw [bindAddress, hsocket] at h
    cases h
    rfl
  | descriptor fd flags =>
    rw [bindAddress, hsocket] at h
    rw [hsocket] at hfresh
    refine owning_error hfresh (.andThen .bindOne fun _ => .andThen .boundPort fun port => ?_) h
    intro table result t h other hne
    dsimp only at h
    split at h <;> cases h <;> rfl

theorem Says.boundPort : Says (boundPort fd answer) := by
  intro table e t h
  cases answer with
  | some strerror => cases h; simp [IoError.what]
  | none =>
    rw [Core.boundPort] at h
    split at h <;> cases h
    simp [IoError.what]

theorem Says.bindAddress : Says (bindAddress backlog address answers) := by
  intro table e t h
  cases hsocket : answers.socket with
  | failed strerror =>
    rw [Core.bindAddress, hsocket] at h
    cases h
    simp [IoError.what, describe]
  | descriptor fd flags =>
    rw [Core.bindAddress, hsocket] at h
    have hone : Says (bindOne backlog fd address answers) :=
      .andThen (.orThrow _ _ _) fun _ => .andThen (.orThrow _ _ _) fun _ =>
        .andThen (.orThrow _ _ _) fun _ => .orThrow _ _ _
    refine Says.owning (.andThen hone fun _ => .andThen .boundPort fun port => ?_) _ _ _ h
    intro table e t h
    dsimp only at h
    split at h
    · cases h
    · next e' hport =>
      cases h
      rw [SocketAddress.withPort] at hport
      split at hport <;> cases hport
      simp [IoError.what]

end OneAddress

/-! ## The first address that works -/

section Addresses

variable {backlog : ℤ} {table t : Table} {attempts : List (SocketAddress × BindAnswers)}
  {e : IoError} {listener : Listener}

/-- An address that does not work throws. -/
theorem exists_bind_error_iff (x : SocketAddress × BindAnswers) :
    (∃ e, (bindAddress backlog x.1 x.2 table).1 = .error e) ↔
      ∀ fd flags, ¬Binds x.1 x.2 fd flags := by
  rw [exists_fst_eq_error_iff]
  constructor
  · intro hnone fd flags hbinds
    exact hnone ⟨fd, _, _⟩ _ (bindAddress_ok_iff.mpr ⟨flags, hbinds, rfl, rfl, rfl⟩)
  · intro hnone listener t hok
    obtain ⟨flags, hbinds, -⟩ := bindAddress_ok_iff.mp hok
    exact hnone _ flags hbinds

theorem bindFirstThatWorks_ok_iff :
    bindFirstThatWorks backlog attempts table = (.ok listener, t) ↔
      FirstThatWorks.first (fun x => bindAddress backlog x.1 x.2)
        (fun failures e => addText failures e.what) [] attempts table = (.ok listener, t) := by
  rw [bindFirstThatWorks]
  split
  · next h => simp [h]
  · next h => simp [h]

theorem bindFirstThatWorks_error_iff :
    bindFirstThatWorks backlog attempts table = (.error e, t) ↔
      ∃ failures, FirstThatWorks.first (fun x => bindAddress backlog x.1 x.2)
        (fun failures e => addText failures e.what) [] attempts table = (.error failures, t) ∧
        .io failures = e := by
  rw [bindFirstThatWorks]
  split
  · next h => simp [h]
  · next failures t' h => simp [h, and_comm]

/-- With addresses that have a port, the placeholder of `bind_ephemeral` reaches no call. -/
theorem bindEphemeral_eq (hport : ∀ x ∈ attempts, x.1.family.hasPort = true) :
    bindEphemeral backlog attempts table =
      bindFirstThatWorks backlog (attempts.map fun x => ({ x.1 with port := 0 }, x.2)) table := by
  have hreplaced : (attempts.mapM fun x => (x.1.withPort 0).map fun address => (address, x.2)) =
      Except.ok (attempts.map fun x => ({ x.1 with port := 0 }, x.2)) := by
    induction attempts with
    | nil => rfl
    | cons x attempts ih =>
      obtain ⟨hx, hrest⟩ := List.forall_mem_cons.mp hport
      rw [List.mapM_cons, SocketAddress.withPort_of_hasPort hx, ih hrest]
      rfl
  rw [bindEphemeral, hreplaced]

/-- An `accept` returns the first connection that is not interrupted, which raises no signal, or
leaves the descriptors as they were. -/
theorem accept_spec {sigpipe : Option Text} {answers : List (Option Opened)} {n : ℕ}
    {opened : Opened} (hfresh : opened.Fresh table) :
    (∀ fd, accept listener sigpipe (List.replicate n none ++ some opened :: answers) table =
        (.ok (some fd), t) ↔
      sigpipe = none ∧ ∃ flags, opened = .descriptor fd flags ∧
        t = Function.update table fd (some { flags := flags, noSigpipe := true })) ∧
      ∀ e, accept listener sigpipe (List.replicate n none ++ some opened :: answers) table =
        (.error e, t) → t = table := by
  have hinterrupted : accept listener sigpipe (List.replicate n none ++ some opened :: answers) =
      accept listener sigpipe (some opened :: answers) := by
    induction n with
    | zero => rfl
    | succ n ih =>
      rw [List.replicate_succ, List.cons_append, accept, ih]
  rw [hinterrupted]
  cases opened with
  | failed strerror => simp [accept, eq_comm]
  | descriptor fd flags =>
    simp only [accept, andThen_error_iff, andThen_ok_iff, owning_ok_iff, disableSigpipe_ok_iff]
    refine ⟨fun fd' => ?_, ?_⟩
    · constructor
      · rintro ⟨_, _, ⟨hsigpipe, rfl⟩, h⟩
        cases h
        exact ⟨hsigpipe, flags, rfl, change_update⟩
      · rintro ⟨hsigpipe, _, h, rfl⟩
        cases h
        exact ⟨(), _, ⟨hsigpipe, rfl⟩, by rw [change_update]⟩
    · rintro e (h | ⟨_, _, -, h⟩)
      · exact owning_error hfresh (.orThrow _ _ _) h
      · cases h

/-- A listener is bound to the first address that works, at the port the kernel gave it, and adds
its descriptor only, which listens there. When there is none, each address has failed, the
descriptors are as they were, and the error says what each of them said, in order. `bind_ephemeral`
does so with port 0 in every address, and `accept` adds the descriptor of a connection only. -/
theorem bind_spec (backlog : ℤ) (attempts : List (SocketAddress × BindAnswers)) (table : Table)
    (hfresh : ∀ x ∈ attempts, x.2.socket.Fresh table) :
    (∀ listener t, bindFirstThatWorks backlog attempts table = (.ok listener, t) ↔
      ∃ before address answers after flags, attempts = before ++ (address, answers) :: after ∧
        (∀ x ∈ before, ∀ fd flags, ¬Binds x.1 x.2 fd flags) ∧
        Binds address answers listener.fd flags ∧
        listener.address = { address with port := granted address answers } ∧
        listener.port = granted address answers ∧
        t = Function.update table listener.fd
          (some (listeningOn backlog listener.address flags))) ∧
      (∀ e t, bindFirstThatWorks backlog attempts table = (.error e, t) →
        t = table ∧ (∀ x ∈ attempts, ∀ fd flags, ¬Binds x.1 x.2 fd flags) ∧
        e.isTimedOut = false ∧
        ∃ errors, List.Forall₂ (fun x e => (bindAddress backlog x.1 x.2 table).1 = .error e)
            attempts errors ∧
          e.what = "; ".toList.intercalate (errors.map IoError.what)) ∧
      ((∀ x ∈ attempts, x.1.family.hasPort = true) →
        bindEphemeral backlog attempts table =
          bindFirstThatWorks backlog (attempts.map fun x => ({ x.1 with port := 0 }, x.2)) table) ∧
      ∀ listener sigpipe n opened answers t, opened.Fresh table →
        (∀ fd, accept listener sigpipe (List.replicate n none ++ some opened :: answers) table =
            (.ok (some fd), t) ↔
          sigpipe = none ∧ ∃ flags, opened = .descriptor fd flags ∧
            t = Function.update table fd (some { flags := flags, noSigpipe := true })) ∧
        ∀ e, accept listener sigpipe (List.replicate n none ++ some opened :: answers) table =
          (.error e, t) → t = table := by
  have hclean : ∀ x ∈ attempts, FirstThatWorks.Clean
      (fun x : SocketAddress × BindAnswers => bindAddress backlog x.1 x.2) table x :=
    fun x hx _ _ => bindAddress_error (hfresh x hx)
  refine ⟨fun listener t => ?_, fun e t h => ?_, bindEphemeral_eq, ?_⟩
  · rw [bindFirstThatWorks_ok_iff, FirstThatWorks.first_eq_ok_iff hclean]
    constructor
    · rintro ⟨before, ⟨address, answers⟩, after, rfl, hbefore, hok⟩
      obtain ⟨flags, hbinds, haddress, hport, ht⟩ := bindAddress_ok_iff.mp hok
      exact ⟨before, address, answers, after, flags, rfl,
        fun x hx => (exists_bind_error_iff x).mp (hbefore x hx), hbinds, haddress, hport, ht⟩
    · rintro ⟨before, address, answers, after, flags, rfl, hbefore, hbinds⟩
      exact ⟨before, (address, answers), after, rfl,
        fun x hx => (exists_bind_error_iff x).mpr (hbefore x hx),
        bindAddress_ok_iff.mpr ⟨flags, hbinds⟩⟩
  · obtain ⟨failures, hfirst, rfl⟩ := bindFirstThatWorks_error_iff.mp h
    obtain ⟨rfl, errors, hall, rfl⟩ := (FirstThatWorks.first_eq_error_iff hclean).mp hfirst
    refine ⟨rfl, fun x hx => ?_, rfl, errors, hall, ?_⟩
    · obtain ⟨e, he⟩ := FirstThatWorks.exists_error_of_mem hall hx
      exact (exists_bind_error_iff x).mp ⟨e, he⟩
    · exact foldl_addText (says_of_forall₂ (fun _ _ => Says.bindAddress) hall)
  · exact fun _ _ _ _ _ _ hfresh => accept_spec hfresh

/-- A host with two addresses, the first of which is in use, and a port that the kernel chooses. -/
theorem bind_spec_ephemeral :
    bindEphemeral 128
        [(⟨.inet6, "::1".toList, 1⟩,
          { socket := .descriptor 3 2
            bind := some "Address already in use".toList }),
        (⟨.inet, "127.0.0.1".toList, 1⟩,
          { socket := .descriptor 3 2
            chosen := 49152 })]
      (fun _ => none) =
      (.ok ⟨3, ⟨.inet, "127.0.0.1".toList, 49152⟩, 49152⟩,
        Function.update (fun _ => none) 3
          (some (listeningOn 128 ⟨.inet, "127.0.0.1".toList, 49152⟩ 2))) := by
  refine ((bind_spec 128 _ _ ?_).2.2.1 ?_).trans
    (((bind_spec 128 _ _ ?_).1 _ _).mpr
      ⟨[_], _, _, [], 2, rfl, ?_, ⟨rfl, rfl, rfl, rfl, rfl, rfl, rfl⟩, rfl, rfl, rfl⟩)
  · simp [Opened.Fresh]
  · simp [Family.hasPort]
  · simp [Opened.Fresh]
  · intro x hx fd flags hbinds
    rw [List.mem_singleton.mp hx] at hbinds
    cases hbinds.bind

end Addresses

end Core

end Dariyanaap

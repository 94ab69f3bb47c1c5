import Dariyanaap.Library.Ledger

/-!
# Who owns a descriptor

The ownership side of `Socket` (`core/socket.hpp`, `core/socket.cpp`): six operations on objects
that each hold a descriptor or nothing. A process is its objects and a record of what became of
the descriptors; what it does to them is a step of a `Ledger` (`ledger_step`), so that no two
objects ever hold one descriptor, and every descriptor is closed once or released
(`owned_once_closed_once`).
-/

namespace Dariyanaap

namespace Core

/-- `Socket`. -/
structure Socket where
  /-- `fd_`. -/
  fd : ℤ
  deriving DecidableEq

namespace Socket

/-- `valid`. -/
def valid (s : Socket) : Bool := decide (0 ≤ s.fd)

/-- `close`: the object afterwards, and the descriptor given to `::close`. -/
def close (s : Socket) : Socket × Option ℤ := if 0 ≤ s.fd then (⟨-1⟩, some s.fd) else (s, none)

/-- `release`: the object afterwards, and the descriptor returned. -/
def release (s : Socket) : Socket × ℤ := (⟨-1⟩, s.fd)

/-- The move constructor: the new object, and the old one afterwards. -/
def moveConstruct (other : Socket) : Socket × Socket := (⟨other.fd⟩, ⟨-1⟩)

/-- The move assignment from another object: both of them afterwards, and the descriptor given to
`::close`. -/
def moveAssign (self other : Socket) : Socket × Socket × Option ℤ :=
  -- what is held is closed first
  (⟨other.fd⟩, ⟨-1⟩, self.close.2)

/-- The descriptor an object owns. -/
def owned (s : Socket) : Option ℤ := if 0 ≤ s.fd then some s.fd else none

end Socket

/-- The objects of a process, those that were destroyed included, and what became of the
descriptors. -/
structure Process where
  sockets : List (Option Socket) := []
  /-- The descriptors objects were constructed from. -/
  handed : List ℤ := []
  /-- The arguments of `::close`. -/
  closed : List ℤ := []
  /-- What `release` returned of descriptors. -/
  released : List ℤ := []
  deriving DecidableEq

/-- An operation on objects, which are named by the order they were made in. -/
inductive Operation where
  | construct (fd : ℤ)
  | moveConstruct (source : ℕ)
  | moveAssign (target source : ℕ)
  | close (object : ℕ)
  | release (object : ℕ)
  | destroy (object : ℕ)
  deriving DecidableEq

namespace Process

/-- An object that was not destroyed. -/
def object (p : Process) (i : ℕ) : Option Socket := (p.sockets[i]?).join

/-- What an object owns, which is nothing once it is destroyed. -/
def ownedBy (o : Option Socket) : Option ℤ := o.bind Socket.owned

/-- The descriptors that are held. -/
def held (p : Process) : List ℤ := p.sockets.filterMap ownedBy

/-- An operation. A constructor asserts that its descriptor is one, and the kernel does not hand
out a descriptor that is open. -/
def step (p : Process) : Operation → Option Process
  | .construct fd =>
      if 0 ≤ fd ∧ fd ∉ p.held then
        some { p with sockets := p.sockets ++ [some ⟨fd⟩], handed := p.handed ++ [fd] }
      else none
  | .moveConstruct source =>
      (p.object source).map fun other =>
        let (self, other) := other.moveConstruct
        { p with sockets := p.sockets.set source (some other) ++ [some self] }
  | .moveAssign target source =>
      (p.object target).bind fun self => (p.object source).map fun other =>
        if target ≠ source then
          let (self, other, closed) := self.moveAssign other
          { p with
            sockets := (p.sockets.set target (some self)).set source (some other)
            closed := p.closed ++ closed.toList }
        else p
  | .close i =>
      (p.object i).map fun s =>
        { p with
          sockets := p.sockets.set i (some s.close.1)
          closed := p.closed ++ s.close.2.toList }
  | .release i =>
      (p.object i).map fun s =>
        { p with
          sockets := p.sockets.set i (some s.release.1)
          released := p.released ++ [s.release.2].filter fun fd => decide (0 ≤ fd) }
  | .destroy i =>
      (p.object i).map fun s =>
        { p with
          sockets := p.sockets.set i none
          closed := p.closed ++ s.close.2.toList }

/-- A sequence of operations. -/
def run (operations : List Operation) : Option Process := operations.foldlM step {}

/-- The ledger of the descriptors. -/
def ledger (p : Process) : Ledger ℤ where
  handed := p.handed
  held := p.held
  disposed := p.closed
  surrendered := p.released

/-! ## What the operations do to the ledger -/

variable {p p' : Process} {i : ℕ} {s : Socket} {operation : Operation}

theorem ownedBy_close (s : Socket) : ownedBy (some s.close.1) = none := by
  unfold ownedBy Socket.close Socket.owned
  split
  · rfl
  · next hneg => simp [hneg]

theorem closed_eq (s : Socket) : s.close.2 = s.owned := by
  unfold Socket.close Socket.owned
  split <;> rfl

theorem released_eq (s : Socket) :
    [s.release.2].filter (fun fd => decide (0 ≤ fd)) = s.owned.toList := by
  unfold Socket.release Socket.owned
  by_cases hpos : 0 ≤ s.fd
  · simp [hpos]
  · simp [hpos]

theorem getElem?_of_object (h : p.object i = some s) : p.sockets[i]? = some (some s) :=
  Option.join_eq_some_iff.mp h

/-- Replacing an object by one that owns nothing takes what it owned from what is held. -/
theorem held_set (h : p.object i = some s) {o : Option Socket} (ho : ownedBy o = none) :
    (s.owned.toList : Multiset ℤ) + ((p.sockets.set i o).filterMap ownedBy : List ℤ) =
      (p.held : Multiset ℤ) := by
  have hset := Ledger.filterMap_set ownedBy o (getElem?_of_object h)
  rwa [ho, Option.toList_none, Multiset.coe_nil, zero_add] at hset

/-- Moving a descriptor into a new object changes nothing about what is held. -/
theorem held_moveConstruct (h : p.object i = some s) :
    ((p.sockets.set i (some ⟨-1⟩) ++ [some s]).filterMap ownedBy : Multiset ℤ) =
      (p.held : Multiset ℤ) := by
  have hnew : [some s].filterMap ownedBy = s.owned.toList := by
    cases hs : s.owned <;> simp [ownedBy, hs]
  rw [List.filterMap_append, hnew, ← Multiset.coe_add, add_comm]
  exact held_set h rfl

/-- Moving it into another object takes what that one owned from what is held. -/
theorem held_moveAssign {j : ℕ} {other : Socket} (hself : p.object i = some s)
    (hother : p.object j = some other) (hne : i ≠ j) :
    (s.owned.toList : Multiset ℤ) +
        (((p.sockets.set i (some other)).set j (some ⟨-1⟩)).filterMap ownedBy : List ℤ) =
      (p.held : Multiset ℤ) := by
  have htarget := Ledger.filterMap_set ownedBy (some other) (getElem?_of_object hself)
  have hsource : (p.sockets.set i (some other))[j]? = some (some other) := by
    rw [List.getElem?_set_ne hne, getElem?_of_object hother]
  have hemptied := Ledger.filterMap_set ownedBy (some ⟨-1⟩) hsource
  rw [show ownedBy (some ⟨-1⟩) = none from rfl, Option.toList_none, Multiset.coe_nil,
    zero_add] at hemptied
  rw [← hemptied, add_left_comm] at htarget
  exact add_left_cancel htarget

/-- What an object owned goes to `::close` when it is closed, and when it is destroyed. -/
theorem ledger_close (h : p.object i = some s) {o : Option Socket} (ho : ownedBy o = none) :
    Ledger.Step p.ledger
      (ledger { p with
        sockets := p.sockets.set i o
        closed := p.closed ++ s.close.2.toList }) := by
  have hstep := Ledger.Step.dispose (l := p.ledger) _ _ (held_set h ho)
  rwa [← closed_eq] at hstep

/-- Every operation is a step of the ledger. -/
theorem ledger_step (h : p.step operation = some p') : Ledger.Step p.ledger p'.ledger := by
  cases operation with
  | construct fd =>
    obtain ⟨⟨hpos, hfresh⟩, hsome⟩ := Option.ite_none_right_eq_some.mp h
    obtain rfl := Option.some.inj hsome
    have hheld : (p.sockets ++ [some (Socket.mk fd)]).filterMap ownedBy = p.held ++ [fd] := by
      simp [held, ownedBy, Socket.owned, hpos]
    have hstep := Ledger.Step.handIn (l := p.ledger) fd hfresh
    change Ledger.Step p.ledger
      ⟨_, ((p.sockets ++ [some (Socket.mk fd)]).filterMap ownedBy : List ℤ), _, _⟩
    rwa [hheld]
  | moveConstruct source =>
    obtain ⟨other, hother, rfl⟩ := Option.map_eq_some_iff.mp h
    have hstep := Ledger.Step.refl p.ledger
    change Ledger.Step p.ledger
      ⟨_, ((p.sockets.set source (some ⟨-1⟩) ++ [some other]).filterMap ownedBy : List ℤ), _, _⟩
    rwa [held_moveConstruct hother]
  | moveAssign target source =>
    obtain ⟨self, hself, hmap⟩ := Option.bind_eq_some_iff.mp h
    obtain ⟨other, hother, rfl⟩ := Option.map_eq_some_iff.mp hmap
    split
    · next hne =>
      have hstep := Ledger.Step.dispose (l := p.ledger) _ _ (held_moveAssign hself hother hne)
      rwa [← closed_eq] at hstep
    · exact Ledger.Step.refl p.ledger
  | close i =>
    obtain ⟨s, hs, rfl⟩ := Option.map_eq_some_iff.mp h
    exact ledger_close hs (ownedBy_close s)
  | release i =>
    obtain ⟨s, hs, rfl⟩ := Option.map_eq_some_iff.mp h
    have hstep := Ledger.Step.surrender (l := p.ledger) _ _
      (held_set hs (rfl : ownedBy (some s.release.1) = none))
    rwa [← released_eq] at hstep
  | destroy i =>
    obtain ⟨s, hs, rfl⟩ := Option.map_eq_some_iff.mp h
    exact ledger_close hs rfl

/-- A run of operations leaves the ledger sound. -/
theorem ledger_run {operations : List Operation} (hsound : p.ledger.Sound)
    (hrun : operations.foldlM step p = some p') : p'.ledger.Sound := by
  induction operations generalizing p with
  | nil =>
    obtain rfl := Option.some.inj hrun
    exact hsound
  | cons operation operations ih =>
    rw [List.foldlM_cons] at hrun
    obtain ⟨next, hnext, hrun⟩ := Option.bind_eq_some_iff.mp hrun
    exact ih (hsound.step (ledger_step hnext)) hrun

/-- At every moment no two objects hold one descriptor. Once all objects are destroyed, every
descriptor was given to `::close` as often as it was handed in and not released: exactly once if
it was handed in once, and never if it was then released. -/
theorem owned_once_closed_once {operations : List Operation} (hrun : run operations = some p) :
    (∀ i j s t, p.object i = some s → p.object j = some t → s.valid = true → s.fd = t.fd →
        i = j) ∧
      ((∀ i, p.object i = none) → ∀ fd,
        p.handed.count fd = p.closed.count fd + p.released.count fd ∧
          (p.handed.count fd = 1 → p.closed.count fd = if fd ∈ p.released then 0 else 1)) := by
  have hempty : (ledger {}).Sound := Ledger.sound_empty
  have hsound := ledger_run hempty hrun
  constructor
  · intro i j s t hs ht hvalid hfd
    have hpos : 0 ≤ s.fd := of_decide_eq_true hvalid
    refine Ledger.eq_of_nodup (Multiset.coe_nodup.mp hsound.nodup) (getElem?_of_object hs)
      (getElem?_of_object ht) (b := s.fd) (if_pos hpos) ?_
    rw [hfd] at hpos ⊢
    exact if_pos hpos
  · intro hdestroyed fd
    -- destroyed objects hold nothing
    have hheld : p.held = [] := by
      refine List.filterMap_eq_nil_iff.mpr fun o ho => ?_
      obtain ⟨i, hi⟩ := List.mem_iff_getElem?.mp ho
      have hnone := hdestroyed i
      rw [object, hi] at hnone
      cases o with
      | none => rfl
      | some s => cases hnone
    have hcount : p.handed.count fd = p.closed.count fd + p.released.count fd := by
      have h := hsound.settled (congrArg _ hheld) fd
      simpa only [ledger, Multiset.coe_count] using h
    refine ⟨hcount, fun hone => ?_⟩
    rw [hone] at hcount
    split
    · next hreleased =>
      have := List.count_pos_iff.mpr hreleased
      omega
    · next hkept =>
      rw [List.count_eq_zero.mpr hkept] at hcount
      omega

/-- Two descriptors: the first is closed by the move assignment onto its second owner, the second
is assigned to itself and released. -/
theorem owned_once_closed_once_two :
    ∃ p, run [.construct 3, .moveConstruct 0, .construct 4, .moveAssign 1 2, .moveAssign 1 1,
          .close 0, .release 1, .destroy 2, .destroy 1, .destroy 0] = some p ∧
      p.handed = [3, 4] ∧ p.released = [4] ∧ p.closed.count 3 = 1 ∧ p.closed.count 4 = 0 := by
  obtain ⟨p, hrun, hhanded, hreleased, hdestroyed⟩ : ∃ p, run [.construct 3, .moveConstruct 0,
      .construct 4, .moveAssign 1 2, .moveAssign 1 1, .close 0, .release 1, .destroy 2,
      .destroy 1, .destroy 0] = some p ∧ p.handed = [3, 4] ∧ p.released = [4] ∧
      p.sockets = [none, none, none] := ⟨_, rfl, rfl, rfl, rfl⟩
  have hnone : ∀ i, p.object i = none := by
    intro i
    rw [object, hdestroyed]
    rcases i with _ | _ | _ | i <;> rfl
  have hclosed := (owned_once_closed_once hrun).2 hnone
  refine ⟨p, hrun, hhanded, hreleased, ?_, ?_⟩
  · have h := (hclosed 3).2 (by rw [hhanded]; decide)
    rw [hreleased] at h
    exact h
  · have h := (hclosed 4).2 (by rw [hhanded]; decide)
    rw [hreleased] at h
    exact h

end Process

end Core

end Dariyanaap

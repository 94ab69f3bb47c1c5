import Dariyanaap.Fault.Command
import Dariyanaap.Library.AllOrNothing

/-!
# What a command may change

A command of the control socket reads all its arguments before it calls a setter, and a setter
refuses before it makes its first store. So a command that throws leaves every knob and both
flags where they were, and one that returns has changed the knobs its verb names and recomputed
the flags (`applyCommand_frame`).
-/

namespace Dariyanaap

namespace Fault

open AllOrNothing

/-! ## Knobs by name -/

/-- The knobs, without the flags that are computed from them. -/
inductive Knob where
  | latency
  | jitter
  | drop
  | hanging
  | identity
  | partitions
  deriving DecidableEq

/-- A knob holds in one state what it holds in another. The flag of the partition set goes with
the set. -/
def Knob.Same (k k' : Knobs) : Knob → Prop
  | latency => k'.latencyNs = k.latencyNs
  | jitter => k'.jitterNs = k.jitterNs
  | drop => k'.dropPpm = k.dropPpm
  | hanging => k'.hanging = k.hanging
  | identity => k'.identity = k.identity
  | partitions => k'.partitions = k.partitions ∧ k'.anyPartition = k.anyPartition

/-- Nothing but the named knobs has changed. -/
def Frame (named : List Knob) (k k' : Knobs) : Prop := ∀ knob ∉ named, knob.Same k k'

/-- The knobs that a verb of the control socket names. -/
def verbKnobs (verb : Text) : List Knob :=
  if verb = "latency".toList then [.latency, .jitter]
  else if verb = "drop".toList then [.drop]
  else if verb = "hang".toList then [.hanging]
  else if verb = "identity".toList then [.identity]
  else if verb = "partition".toList ∨ verb = "heal".toList then [.partitions]
  else if verb = "clear".toList then [.latency, .jitter, .drop, .hanging, .partitions]
  else []

/-- The knob a store is made into. -/
def Store.knob : Store → Knob
  | latency _ => .latency
  | jitter _ => .jitter
  | drop _ => .drop
  | hanging _ => .hanging
  | cut _ | mend _ | mendAll => .partitions

/-- The knobs a setter stores into. -/
def Setter.knobs : Setter → List Knob
  | setLatency _ _ => [.latency, .jitter]
  | setDropProbability _ => [.drop]
  | setHangForever _ => [.hanging]
  | partition _ _ | heal _ _ => [.partitions]
  | clear => [.latency, .jitter, .drop, .hanging, .partitions]

section Knobs

variable {k k' k'' : Knobs} {knob : Knob}

theorem Knob.Same.refl (knob : Knob) (k : Knobs) : knob.Same k k := by
  cases knob <;> simp [Same]

theorem Knob.Same.trans (h : knob.Same k k') (h' : knob.Same k' k'') : knob.Same k k'' := by
  cases knob <;> simp_all [Same]

/-- A store leaves the other knobs alone. -/
theorem Store.same (s : Store) (k : Knobs) (h : knob ≠ s.knob) : knob.Same k (s.apply k) := by
  cases s <;> cases knob <;> simp_all [Store.knob, Knob.Same, Store.apply]

/-- And so does a sequence of stores. -/
theorem Store.same_foldl (stores : List Store) (k : Knobs) (h : ∀ s ∈ stores, knob ≠ s.knob) :
    knob.Same k (stores.foldl Store.apply k) := by
  induction stores generalizing k with
  | nil => exact .refl knob k
  | cons s stores ih =>
    rw [List.forall_mem_cons] at h
    exact (s.same k h.1).trans (ih _ h.2)

/-- No knob but those of the setter is stored into. -/
theorem Setter.knob_mem (fl : Rounding) (s : Setter) : ∀ st ∈ s.stores fl, st.knob ∈ s.knobs := by
  cases s with
  | setDropProbability probability =>
    rw [stores]
    cases asFraction probability <;> simp [knobs, Store.knob]
  | setLatency mean jitter => simp [stores, knobs, Store.knob]
  | setHangForever hanging => simp [stores, knobs, Store.knob]
  | partition a b => simp [stores, knobs, Store.knob]
  | heal a b => simp [stores, knobs, Store.knob]
  | clear => simp [stores, knobs, Store.knob]

/-- The last store of a setter that changes the partition set leaves its flag right. -/
theorem Setter.anyPartition_stores (fl : Rounding) (s : Setter) (k : Knobs)
    (h : Knob.partitions ∈ s.knobs) :
    ((s.stores fl).foldl Store.apply k).anyPartition = true ↔
      ((s.stores fl).foldl Store.apply k).partitions ≠ ∅ := by
  cases s <;> simp_all [knobs, stores, Store.apply]

/-- A setter refuses where it started, or makes its stores and refreshes the gate. -/
theorem Setter.ends (fl : Rounding) (s : Setter) :
    Ends (fun k _ k' => s.refusal = none ∧ k' = ((s.stores fl).foldl Store.apply k).refreshed)
      (s.call fl) := by
  intro k
  rw [s.call_eq]
  cases s.refusal with
  | some e => rfl
  | none => exact ⟨rfl, rfl⟩

/-- A setter leaves the knobs alone that it does not store into, whether it returns or throws. -/
theorem Setter.same (fl : Rounding) (s : Setter) (k : Knobs) (h : knob ∉ s.knobs) :
    knob.Same k ((s.call fl).run.run k).2 := by
  rcases hrun : (s.call fl).run.run k with ⟨e | a, k'⟩
  · obtain rfl : k' = k := (s.ends fl).of_error hrun
    exact .refl knob k'
  · obtain ⟨-, rfl⟩ := (s.ends fl).of_ok hrun
    have hsame : knob.Same k ((s.stores fl).foldl Store.apply k) := by
      refine Store.same_foldl _ k ?_
      rintro st hst rfl
      exact h (s.knob_mem fl st hst)
    -- the refresh writes the gate, which is no knob
    cases knob <;> exact hsame

end Knobs

/-! ## What is understood -/

/-- The words of a command that returns, and the request it makes. -/
inductive Understood (fl : Rounding) : List Text → Request → Prop
  | latency {mean jitter : Text} {m j : ℤ} (hmean : extractInteger mean = some m)
      (hjitter : extractInteger jitter = some j) :
      Understood fl ["latency".toList, mean, jitter] (.setter (.setLatency m j))
  | drop {probability : Text} {p : Double} (hp : extractDouble fl probability = some p) :
      Understood fl ["drop".toList, probability] (.setter (.setDropProbability p))
  | hang (word : Text) :
      Understood fl ["hang".toList, word] (.setter (.setHangForever (saysYes word)))
  | identity (name : Text) : Understood fl ["identity".toList, name] (.identity name)
  | partition (a b : Text) :
      Understood fl ["partition".toList, a, b] (.setter (.partition a b))
  | heal (a b : Text) : Understood fl ["heal".toList, a, b] (.setter (.heal a b))
  | clear : Understood fl ["clear".toList] (.setter .clear)
  | status : Understood fl ["status".toList] .nothing

/-- Why a request is refused, if it is. -/
def Request.refusal : Request → Option UsageError
  | setter s => s.refusal
  | identity _ | nothing => none

/-- A setter that is not refused makes its stores and refreshes the gate. -/
theorem Request.apply_setter {s : Setter} (h : s.refusal = none) (fl : Rounding) (k : Knobs) :
    (setter s).apply fl k = ((s.stores fl).foldl Store.apply k).refreshed := by
  rw [apply, s.call_eq, h]

/-- The pairs of names that can be cut. -/
theorem refusal_partition_eq_none_iff (x y : Text) :
    Setter.refusal (.partition x y) = none ↔ x ≠ [] ∧ y ≠ [] ∧ x ≠ y := by
  rw [Setter.refusal]
  split_ifs with hempty hself
  · exact iff_of_false (by simp) fun h => hempty.elim h.1 h.2.1
  · exact iff_of_false (by simp) fun h => h.2.2 hself
  · exact iff_of_true rfl ⟨fun h => hempty (.inl h), fun h => hempty (.inr h), hself⟩

section Reading

/-- The arguments are counted before anything else. -/
theorem reads_expect (verb : Text) (words : List Text) (count : ℕ) :
    Reads (fun _ => words.length = count + 1) (expect verb words count) := by
  unfold expect
  by_cases hcount : words.length = count + 1
  · rw [if_pos hcount]
    exact .pure hcount
  · rw [if_neg hcount]
    exact .throw _

/-- A duration is read without a store. -/
theorem reads_asMillis (text what : Text) :
    Reads (fun value => extractInteger text = some value) (asMillis text what) := by
  unfold asMillis
  cases extractInteger text with
  | none => exact .throw _
  | some value => exact .pure rfl

/-- A probability is read without a store. -/
theorem reads_asProbability (fl : Rounding) (text what : Text) :
    Reads (fun value => extractDouble fl text = some value) (asProbability fl text what) := by
  unfold asProbability
  cases extractDouble fl text with
  | none => exact .throw _
  | some value => exact .pure rfl

/-- Two words are a verb and one argument, -/
theorem args_eq_one {verb : Text} {args : List Text} (h : (verb :: args).length = 1 + 1) :
    args = [args.getD 0 []] := by
  obtain ⟨a, rfl⟩ := List.length_eq_one_iff.mp (Nat.succ.inj h)
  rfl

/-- and three words a verb and two. -/
theorem args_eq_two {verb : Text} {args : List Text} (h : (verb :: args).length = 2 + 1) :
    args = [args.getD 0 [], args.getD 1 []] := by
  obtain ⟨a, b, rfl⟩ := List.length_eq_two.mp (Nat.succ.inj h)
  rfl

end Reading

/-- How a command ends that returns: it was understood, and what it asked for is done. -/
def Done (fl : Rounding) (words : List Text) (k k' : Knobs) : Prop :=
  ∃ r, Understood fl words r ∧ r.refusal = none ∧ k' = r.apply fl k

/-- A setter that was asked for is called, whatever the command answers. -/
theorem ends_setter {fl : Rounding} {words : List Text} (reply : Text) (s : Setter)
    (h : Understood fl words (.setter s)) :
    Ends (fun k _ k' => Done fl words k k') (s.call fl >>= fun _ => pure reply) := by
  refine (s.ends fl).answer ?_
  rintro k _ k' ⟨hrefusal, rfl⟩
  exact ⟨.setter s, h, hrefusal, (Request.apply_setter hrefusal fl k).symm⟩

/-- A command throws where it started, or does what it was understood to ask for. -/
theorem applyCommand_ends (fl : Rounding) (line : Text) :
    Ends (fun k _ k' => Done fl (splitOn line ' ') k k') (applyCommand fl line) := by
  unfold applyCommand
  rcases splitOn line ' ' with _ | ⟨verb, args⟩
  · exact .throw _
  -- the verbs in the order the command is compared with them
  refine .ite (fun h => ?latency) fun _ => .ite (fun h => ?drop) fun _ => .ite (fun h => ?hang)
    fun _ => .ite (fun h => ?identity) fun _ => .ite (fun h => ?partition) fun _ =>
      .ite (fun h => ?heal) fun _ => .ite (fun h => ?clear) fun _ => .ite (fun h => ?status)
        fun _ => .throw _
  case latency =>
    -- once the words are counted, they are the verb and what was read
    refine .bind (reads_expect _ _ _) fun _ hwords => .bind (reads_asMillis _ _) fun mean hmean =>
      .bind (reads_asMillis _ _) fun jitter hjitter => ends_setter _ (.setLatency mean jitter) ?_
    rw [h, args_eq_two hwords]
    exact .latency hmean hjitter
  case drop =>
    refine .bind (reads_expect _ _ _) fun _ hwords =>
      .bind (reads_asProbability fl _ _) fun probability hp =>
        ends_setter _ (.setDropProbability probability) ?_
    rw [h, args_eq_one hwords]
    exact .drop hp
  case hang =>
    refine .bind (reads_expect _ _ _) fun _ hwords => ends_setter _ (.setHangForever _) ?_
    rw [h, args_eq_one hwords]
    exact .hang _
  case identity =>
    refine .bind (reads_expect _ _ _) fun _ hwords k => ⟨.identity _, ?_, rfl, rfl⟩
    rw [h, args_eq_one hwords]
    exact .identity _
  case partition =>
    refine .bind (reads_expect _ _ _) fun _ hwords => ends_setter _ (.partition _ _) ?_
    rw [h, args_eq_two hwords]
    exact .partition _ _
  case heal =>
    refine .bind (reads_expect _ _ _) fun _ hwords => ends_setter _ (.heal _ _) ?_
    rw [h, args_eq_two hwords]
    exact .heal _ _
  case clear =>
    refine .bind (reads_expect _ _ _) fun _ hwords => ends_setter _ .clear ?_
    rw [h, List.length_eq_zero_iff.mp (Nat.succ.inj hwords)]
    exact .clear
  case status =>
    refine .bind (reads_expect _ _ _) fun _ hwords => .bind .get fun _ _ => .pure fun k =>
      ⟨.nothing, ?_, rfl, rfl⟩
    rw [h, List.length_eq_zero_iff.mp (Nat.succ.inj hwords)]
    exact .status

/-! ## What is changed -/

/-- What a command with this verb may change: the knobs the verb names and the flags, which are
recomputed, and `status` nothing at all. -/
structure Changed (verb : Text) (k k' : Knobs) : Prop where
  frame : Frame (verbKnobs verb) k k'
  status : verb = "status".toList → k' = k
  any : k'.any = k.any ∨ k'.any = k'.enabled
  anyPartition : Knob.partitions ∈ verbKnobs verb → (k'.anyPartition = true ↔ k'.partitions ≠ ∅)

/-- A setter of the knobs that the verb names. -/
theorem Changed.setter {fl : Rounding} {s : Setter} {verb : Text} (k : Knobs)
    (hrefusal : s.refusal = none) (hknobs : s.knobs = verbKnobs verb)
    (hverb : verb ≠ "status".toList) : Changed verb k ((Request.setter s).apply fl k) := by
  have hstate := Request.apply_setter hrefusal fl k
  refine ⟨fun knob hknob => s.same fl k (hknobs ▸ hknob), fun h => absurd h hverb, ?_, ?_⟩
  · rw [hstate]
    exact .inr rfl
  · rw [hstate]
    exact fun h => s.anyPartition_stores fl k (hknobs ▸ h)

/-- A command that throws leaves every knob and both flags as they were; one that returns has
changed nothing but what its verb names. -/
theorem applyCommand_frame (fl : Rounding) (line : Text) (k : Knobs) :
    (∀ (e : UsageError) k', (applyCommand fl line).run.run k = (.error e, k') → k' = k) ∧
      ∀ reply k', (applyCommand fl line).run.run k = (.ok reply, k') →
        ∃ verb args, splitOn line ' ' = verb :: args ∧ Changed verb k k' := by
  refine ⟨fun e k' hrun => (applyCommand_ends fl line).of_error hrun, fun reply k' hrun => ?_⟩
  obtain ⟨r, hr, hrefusal, rfl⟩ := (applyCommand_ends fl line).of_ok hrun
  generalize splitOn line ' ' = words at hr
  cases hr with
  | latency hmean hjitter => exact ⟨_, _, rfl, .setter k hrefusal rfl (by decide)⟩
  | drop hp => exact ⟨_, _, rfl, .setter k hrefusal rfl (by decide)⟩
  | hang word => exact ⟨_, _, rfl, .setter k hrefusal rfl (by decide)⟩
  | partition a b => exact ⟨_, _, rfl, .setter k hrefusal rfl (by decide)⟩
  | heal a b => exact ⟨_, _, rfl, .setter k hrefusal rfl (by decide)⟩
  | clear => exact ⟨_, _, rfl, .setter k hrefusal rfl (by decide)⟩
  | identity name =>
    refine ⟨_, _, rfl, fun knob hknob => ?_, fun h => absurd h (by decide), .inl rfl,
      fun h => absurd h (by decide)⟩
    cases knob with
    | identity => exact absurd List.mem_cons_self hknob
    | latency | jitter | drop | hanging => rfl
    | partitions => exact ⟨rfl, rfl⟩
  | status =>
    exact ⟨_, _, rfl, fun knob _ => .refl knob k, fun _ => rfl, .inl rfl,
      fun h => absurd h (by decide)⟩

end Fault

end Dariyanaap

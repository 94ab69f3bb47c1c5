import Dariyanaap.Fault.FastPath
import Dariyanaap.Fault.Frame
import Dariyanaap.Library.Register
import Mathlib.Data.Char
import Mathlib.Data.List.Lex

/-!
# What was said last about a pair

A pair of nodes is cut or not, whoever named it and in whatever order. Of a history of calls,
the ones that say something about a pair are the partitions and heals that name it and every
`clear`; whether it is cut is what the last of them said (`mem_partitions_iff`).

`blocked` asks this for the pair of the identity and the peer, so it is the last word about that
pair under the name the node has now (`blocked_iff_last_word`).
-/

namespace Dariyanaap

namespace Fault

open Register

/-- Two names make the same pair as two others. -/
def SamePair (x y a b : Text) : Prop := (x = a ∧ y = b) ∨ (x = b ∧ y = a)

instance (x y a b : Text) : Decidable (SamePair x y a b) :=
  inferInstanceAs (Decidable (_ ∨ _))

/-- What a request says about a pair of nodes: whether it is cut, or nothing. A partition is
refused, and says nothing, unless it has two different names. -/
def Request.word (a b : Text) : Request → Option Bool
  | setter (.partition x y) =>
      if x ≠ [] ∧ y ≠ [] ∧ x ≠ y ∧ SamePair x y a b then some true else none
  | setter (.heal x y) => if SamePair x y a b then some false else none
  | setter .clear => some false
  | _ => none

/-- The name a request gives this node. -/
def Request.names : Request → Option Text
  | identity name => some name
  | _ => none

section Words

variable (fl : Rounding) (calls : List Call)

/-- The last word of a history about a pair of nodes. -/
def lastWord (a b : Text) : Option Bool := lastSaid (fun c => (c.request fl).word a b) calls

/-- The name this node has after a history. -/
def lastIdentity : Text := (lastSaid (fun c => (c.request fl).names) calls).getD []

end Words

section Pairs

variable {x y a b : Text}

/-- `ordered` forgets which name came first, and nothing else. -/
theorem ordered_eq_iff : ordered x y = ordered a b ↔ SamePair x y a b := by
  have hboth : ∀ {u w : Text}, ¬w < u → ¬u < w → u = w := fun h h' =>
    le_antisymm (not_lt.mp h) (not_lt.mp h')
  rw [ordered, ordered, SamePair]
  by_cases hxy : y < x
  · by_cases hab : b < a
    · rw [if_pos hxy, if_pos hab, Prod.mk.injEq]
      refine ⟨fun ⟨hb, ha⟩ => .inl ⟨ha, hb⟩, ?_⟩
      rintro (⟨rfl, rfl⟩ | ⟨rfl, rfl⟩)
      · exact ⟨rfl, rfl⟩
      · exact absurd hab (lt_asymm hxy)
    · rw [if_pos hxy, if_neg hab, Prod.mk.injEq]
      refine ⟨fun ⟨ha, hb⟩ => .inr ⟨hb, ha⟩, ?_⟩
      rintro (⟨rfl, rfl⟩ | ⟨rfl, rfl⟩)
      · exact absurd hxy hab
      · exact ⟨rfl, rfl⟩
  · by_cases hab : b < a
    · rw [if_neg hxy, if_pos hab, Prod.mk.injEq]
      refine ⟨fun ⟨hb, ha⟩ => .inr ⟨hb, ha⟩, ?_⟩
      rintro (⟨rfl, rfl⟩ | ⟨rfl, rfl⟩)
      · exact absurd hab hxy
      · exact ⟨rfl, rfl⟩
    · rw [if_neg hxy, if_neg hab, Prod.mk.injEq]
      refine ⟨.inl, ?_⟩
      rintro (⟨rfl, rfl⟩ | ⟨rfl, rfl⟩)
      · exact ⟨rfl, rfl⟩
      · obtain rfl := hboth hxy hab
        exact ⟨rfl, rfl⟩

/-- What is said about a pair is said about it in either order. -/
theorem samePair_comm : SamePair x y a b ↔ SamePair x y b a := Or.comm

theorem Request.word_comm (r : Request) (a b : Text) : r.word a b = r.word b a := by
  unfold word
  split <;> simp only [samePair_comm (a := a) (b := b)]

/-- Nothing cuts a node from itself. -/
theorem Request.word_self (r : Request) (a : Text) : r.word a a ≠ some true := by
  unfold word
  split
  · next x y =>
    -- both names would be the one name
    refine fun h => ?_
    split at h
    · next hpair =>
      obtain ⟨-, -, hne, ⟨rfl, rfl⟩ | ⟨rfl, rfl⟩⟩ := hpair
      · exact hne rfl
      · exact hne rfl
    · cases h
  · split <;> simp
  · simp
  · simp

/-- A pair is cut after a request when the request cuts it, or when it was cut and the request
does not mend it. -/
theorem Request.mem_partitions (r : Request) (fl : Rounding) (k : Knobs) (a b : Text) :
    decide (ordered a b ∈ (r.apply fl k).partitions) =
      (r.word a b).getD (decide (ordered a b ∈ k.partitions)) := by
  have hframe : ∀ s : Setter, Knob.partitions ∉ s.knobs →
      decide (ordered a b ∈ ((setter s).apply fl k).partitions) =
        decide (ordered a b ∈ k.partitions) := fun s hs => by
    rw [apply, (s.same fl k hs).1]
  cases r with
  | identity name => rfl
  | nothing => rfl
  | setter s =>
    cases s with
    | setLatency mean jitter => exact hframe _ (by simp [Setter.knobs])
    | setDropProbability probability => exact hframe _ (by simp [Setter.knobs])
    | setHangForever hanging => exact hframe _ (by simp [Setter.knobs])
    | partition x y =>
      rw [apply, Setter.call_eq, word]
      by_cases hnames : x ≠ [] ∧ y ≠ [] ∧ x ≠ y
      · rw [(refusal_partition_eq_none_iff x y).mpr hnames]
        show decide (ordered a b ∈ insert (ordered x y) k.partitions) = _
        by_cases hpair : SamePair x y a b
        · -- the pair of the call, in either order, is stored as one
          rw [if_pos ⟨hnames.1, hnames.2.1, hnames.2.2, hpair⟩, ordered_eq_iff.mpr hpair]
          simp
        · have hne : ordered a b ≠ ordered x y := fun h => hpair (ordered_eq_iff.mp h.symm)
          rw [if_neg fun h => hpair h.2.2.2]
          simp [hne]
      · -- a partition that throws says nothing
        rw [if_neg fun h => hnames ⟨h.1, h.2.1, h.2.2.1⟩]
        cases hrefusal : Setter.refusal (.partition x y) with
        | none => exact absurd ((refusal_partition_eq_none_iff x y).mp hrefusal) hnames
        | some e => rfl
    | heal x y =>
      rw [apply, Setter.call_eq, word]
      show decide (ordered a b ∈ k.partitions.erase (ordered x y)) = _
      by_cases hpair : SamePair x y a b
      · rw [if_pos hpair, ordered_eq_iff.mpr hpair]
        simp
      · have hne : ordered a b ≠ ordered x y := fun h => hpair (ordered_eq_iff.mp h.symm)
        rw [if_neg hpair]
        simp [hne]
    | clear =>
      show decide (ordered a b ∈ (∅ : Finset (Text × Text))) = false
      simp

/-- A request gives this node a name, or leaves it the one it has. -/
theorem Request.identity_apply (r : Request) (fl : Rounding) (k : Knobs) :
    (r.apply fl k).identity = r.names.getD k.identity := by
  cases r with
  | identity name => rfl
  | nothing => rfl
  | setter s =>
    have hknob : Knob.identity ∉ s.knobs := by cases s <;> simp [Setter.knobs]
    exact s.same fl k hknob

/-- What a history leaves of a pair is its last word about it. -/
theorem mem_partitions_iff (fl : Rounding) (calls : List Call) (a b : Text) :
    ordered a b ∈ (reached fl calls).partitions ↔ lastWord fl calls a b = some true := by
  have hregister : decide (ordered a b ∈ (reached fl calls).partitions) =
      (lastWord fl calls a b).getD (decide (ordered a b ∈ ({} : Knobs).partitions)) := by
    have hstep : ∀ (k : Knobs) (c : Call), decide (ordered a b ∈ (c.apply fl k).partitions) =
        ((c.request fl).word a b).getD (decide (ordered a b ∈ k.partitions)) := fun k c => by
      rw [c.apply_eq]
      exact Request.mem_partitions _ fl k a b
    exact read_foldl (fun k : Knobs => decide (ordered a b ∈ k.partitions)) hstep calls {}
  rw [← decide_eq_true_iff (p := ordered a b ∈ _), hregister]
  -- at start-up nothing is cut
  cases lastWord fl calls a b with
  | none => simp
  | some cut => simp

/-- What a history leaves of the identity is the last name given. -/
theorem identity_reached (fl : Rounding) (calls : List Call) :
    (reached fl calls).identity = lastIdentity fl calls := by
  have hstep : ∀ (k : Knobs) (c : Call),
      (c.apply fl k).identity = (c.request fl).names.getD k.identity := fun k c => by
    rw [c.apply_eq]
    exact Request.identity_apply _ fl k
  exact read_foldl Knobs.identity hstep calls {}

/-- After any history a peer is blocked when this node has a name and the last word about the
two of them is a partition that did not throw. The two names of a cut can be exchanged, a cut
between others changes nothing, no node is cut from itself, and a new name is judged by the same
history. -/
theorem blocked_iff_last_word (fl : Rounding) (calls : List Call) :
    (∀ peer, (reached fl calls).blocked peer = true ↔
      lastIdentity fl calls ≠ [] ∧
        lastWord fl calls (lastIdentity fl calls) peer = some true) ∧
    (∀ a b, lastWord fl calls a b = lastWord fl calls b a) ∧
    (∀ x y peer, ¬SamePair x y (lastIdentity fl calls) peer →
      (reached fl (calls ++ [.setter (.partition x y)])).blocked peer =
        (reached fl calls).blocked peer) ∧
    (reached fl calls).blocked (lastIdentity fl calls) = false ∧
    ∀ name peer, (reached fl (calls ++ [.setIdentity name])).blocked peer = true ↔
      name ≠ [] ∧ lastWord fl calls name peer = some true := by
  have hblocked : ∀ (calls : List Call) peer, (reached fl calls).blocked peer = true ↔
      lastIdentity fl calls ≠ [] ∧
        lastWord fl calls (lastIdentity fl calls) peer = some true := by
    intro calls peer
    rw [(gated_reached fl calls).checksAgree.blocked, Knobs.blockedUngated, identity_reached,
      ← mem_partitions_iff]
    by_cases hname : lastIdentity fl calls = []
    · simp [hname]
    · simp [hname]
  refine ⟨hblocked calls, fun a b => ?_, fun x y peer hpair => ?_, ?_, fun name peer => ?_⟩
  · exact lastSaid_congr (fun c => (c.request fl).word_comm a b) calls
  · -- the new call neither renames this node nor speaks of the pair
    have hidentity : lastIdentity fl (calls ++ [.setter (.partition x y)]) =
        lastIdentity fl calls := by
      rw [lastIdentity, lastSaid_append_singleton]
      rfl
    have hword : lastWord fl (calls ++ [.setter (.partition x y)]) (lastIdentity fl calls) peer =
        lastWord fl calls (lastIdentity fl calls) peer := by
      rw [lastWord, lastSaid_append_singleton]
      show (if _ then some true else none).or _ = _
      rw [if_neg fun h => hpair h.2.2.2]
      rfl
    rw [Bool.eq_iff_iff, hblocked, hblocked, hidentity, hword]
  · -- no partition of a node from itself is accepted
    have hself : ∀ a, lastWord fl calls a a ≠ some true := fun a h => by
      obtain ⟨c, -, hword⟩ := exists_of_lastSaid h
      exact (c.request fl).word_self a hword
    by_contra hblocks
    rw [Bool.not_eq_false, hblocked] at hblocks
    exact hself _ hblocks.2
  · have hidentity : lastIdentity fl (calls ++ [.setIdentity name]) = name := by
      rw [lastIdentity, lastSaid_append_singleton]
      rfl
    have hword : ∀ a b, lastWord fl (calls ++ [.setIdentity name]) a b = lastWord fl calls a b := by
      intro a b
      rw [lastWord, lastSaid_append_singleton]
      rfl
    rw [hblocked, hidentity, hword]

end Pairs

end Fault

end Dariyanaap

import Mathlib.Algebra.Order.Group.Multiset

/-!
# Ledgers of what is owned

Something is handed in, held, and at last disposed of or surrendered. A ledger says what was
handed in and what became of it. It is sound when it is balanced and nothing is held twice, and
every step of it keeps that (`Sound.step`). Once nothing is held, all that was handed in was
disposed of as often as it was not surrendered (`Sound.settled`).

What a list of holders has in hand changes by what one of them gains and loses
(`filterMap_set`).
-/

variable {α β : Type*}

/-- What was handed in, and what became of it. -/
structure Ledger (α : Type*) where
  handed : Multiset α
  held : Multiset α
  disposed : Multiset α
  surrendered : Multiset α

namespace Ledger

/-- The ledger before anything was handed in. -/
def empty : Ledger α := ⟨0, 0, 0, 0⟩

/-- A step of the ledger. -/
inductive Step (l : Ledger α) : Ledger α → Prop
  /-- Something is handed in that is not held. -/
  | handIn (a : α) : a ∉ l.held →
      Step l { l with handed := l.handed + {a}, held := l.held + {a} }
  /-- Some of what is held is disposed of. -/
  | dispose (gone held : Multiset α) : gone + held = l.held →
      Step l { l with held := held, disposed := l.disposed + gone }
  /-- Some of what is held is surrendered. -/
  | surrender (gone held : Multiset α) : gone + held = l.held →
      Step l { l with held := held, surrendered := l.surrendered + gone }

/-- Everything is accounted for, and nothing is held twice. -/
structure Sound (l : Ledger α) : Prop where
  balanced : l.handed = l.held + l.disposed + l.surrendered
  nodup : l.held.Nodup

variable {l l' : Ledger α}

theorem sound_empty : Sound (empty : Ledger α) := ⟨rfl, Multiset.nodup_zero⟩

/-- Nothing happens when nothing goes. -/
theorem Step.refl (l : Ledger α) : Step l l := by
  have h := Step.dispose (l := l) 0 l.held (zero_add _)
  rwa [add_zero] at h

/-- A step keeps the ledger sound. -/
theorem Sound.step (h : Sound l) (hstep : Step l l') : Sound l' := by
  obtain ⟨hbalanced, hnodup⟩ := h
  cases hstep with
  | handIn a ha =>
    refine ⟨?_, ?_⟩
    · dsimp only
      rw [hbalanced]
      ac_rfl
    · exact Multiset.nodup_add.mpr ⟨hnodup, Multiset.nodup_singleton a,
        Multiset.disjoint_singleton.mpr ha⟩
  | dispose gone held hgone =>
    rw [← hgone] at hbalanced hnodup
    refine ⟨?_, (Multiset.nodup_add.mp hnodup).2.1⟩
    dsimp only
    rw [hbalanced]
    ac_rfl
  | surrender gone held hgone =>
    rw [← hgone] at hbalanced hnodup
    refine ⟨?_, (Multiset.nodup_add.mp hnodup).2.1⟩
    dsimp only
    rw [hbalanced]
    ac_rfl

/-- Once nothing is held, everything was disposed of or surrendered. -/
theorem Sound.settled [DecidableEq α] (h : Sound l) (hheld : l.held = 0) (a : α) :
    l.handed.count a = l.disposed.count a + l.surrendered.count a := by
  rw [h.balanced, hheld, zero_add, Multiset.count_add]

end Ledger

/-- What a list of holders holds, one of them after the other. -/
theorem Ledger.coe_filterMap_cons (f : α → Option β) (x : α) (holders : List α) :
    (((x :: holders).filterMap f : List β) : Multiset β) =
      ((f x).toList : Multiset β) + (holders.filterMap f : List β) := by
  rw [Multiset.coe_add, List.filterMap_cons]
  cases f x <;> rfl

/-- Replacing one holder takes what it held from what all of them hold, and adds what the new one
holds. -/
theorem Ledger.filterMap_set {holders : List α} {i : ℕ} {x : α} (f : α → Option β) (y : α)
    (hi : holders[i]? = some x) :
    ((f x).toList : Multiset β) + ((holders.set i y).filterMap f : List β) =
      ((f y).toList : Multiset β) + (holders.filterMap f : List β) := by
  induction holders generalizing i with
  | nil => cases hi
  | cons first holders ih =>
    rcases i with _ | i
    · obtain rfl : first = x := Option.some.inj hi
      rw [List.set_cons_zero, coe_filterMap_cons, coe_filterMap_cons]
      ac_rfl
    · have hrest := ih hi
      rw [List.set_cons_succ, coe_filterMap_cons, coe_filterMap_cons, add_left_comm, hrest]
      ac_rfl

/-- Of holders that hold nothing twice, two that hold the same are one. -/
theorem Ledger.eq_of_nodup {holders : List α} {f : α → Option β} {i j : ℕ} {x y : α} {b : β}
    (h : (holders.filterMap f).Nodup) (hi : holders[i]? = some x) (hj : holders[j]? = some y)
    (hx : f x = some b) (hy : f y = some b) : i = j := by
  obtain ⟨hi', rfl⟩ := List.getElem?_eq_some_iff.mp hi
  obtain ⟨hj', rfl⟩ := List.getElem?_eq_some_iff.mp hj
  have hdistinct := List.pairwise_iff_getElem.mp (List.pairwise_filterMap.mp h)
  rcases lt_trichotomy i j with hlt | heq | hlt
  · exact absurd rfl (hdistinct i j hi' hj' hlt b hx b hy)
  · exact heq
  · exact absurd rfl (hdistinct j i hj' hi' hlt b hy b hx)

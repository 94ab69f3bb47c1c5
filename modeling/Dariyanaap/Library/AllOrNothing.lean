import Mathlib.Logic.Basic

/-!
# Computations that throw before they change anything

A computation over a state may throw, and what it changed before stays changed. `Ends R m` says
that `m` throws only where it started, and that it ends as `R` says when it returns. The rules
follow the syntax: a part that only reads may stand in front, with what it is known to return,
and what a computation answers may be replaced behind it.

A longer computation may throw halfway. What it `Keeps` holds of its state even then.
-/

namespace AllOrNothing

variable {σ ε α β : Type} {m : ExceptT ε (StateM σ) α} {next : α → ExceptT ε (StateM σ) β}
  {R : σ → α → σ → Prop} {S : σ → β → σ → Prop} {Q : α → Prop}

/-- A computation that throws where it started, or ends as `R` says. -/
def Ends (R : σ → α → σ → Prop) (m : ExceptT ε (StateM σ) α) : Prop :=
  ∀ s, match m.run.run s with
    | (.ok a, s') => R s a s'
    | (.error _, s') => s' = s

/-- A computation that leaves the state alone, and returns what satisfies `Q` or throws. -/
def Reads (Q : α → Prop) (m : ExceptT ε (StateM σ) α) : Prop :=
  Ends (fun s a s' => Q a ∧ s' = s) m

/-- The first part throws, or the second goes on from where it ended. -/
theorem run_bind (m : ExceptT ε (StateM σ) α) (next : α → ExceptT ε (StateM σ) β) (s : σ) :
    (m >>= next).run.run s =
      match m.run.run s with
      | (.ok a, s') => (next a).run.run s'
      | (.error e, s') => (.error e, s') := by
  rw [ExceptT.run_bind, StateT.run_bind]
  rcases m.run.run s with ⟨_ | a, s'⟩ <;> rfl

/-- What returned went through its first part, and on from there. -/
theorem exists_of_bind_ok {s s'' : σ} {b : β} (h : (m >>= next).run.run s = (.ok b, s'')) :
    ∃ a s', m.run.run s = (.ok a, s') ∧ (next a).run.run s' = (.ok b, s'') := by
  rw [run_bind] at h
  rcases hrun : m.run.run s with ⟨e | a, s'⟩
  · rw [hrun] at h
    cases h
  · rw [hrun] at h
    exact ⟨a, s', rfl, h⟩

namespace Ends

theorem throw (e : ε) : Ends R (MonadExcept.throw e : ExceptT ε (StateM σ) α) := fun _ => rfl

theorem pure {a : α} (h : ∀ s, R s a s) : Ends R (Pure.pure a : ExceptT ε (StateM σ) α) := h

/-- What only reads may stand in front. -/
theorem bind (hm : Reads Q m) (hnext : ∀ a, Q a → Ends S (next a)) : Ends S (m >>= next) := by
  intro s
  have hread := hm s
  rw [run_bind]
  rcases hrun : m.run.run s with ⟨e | a, s'⟩
  · rw [hrun] at hread
    exact hread
  · rw [hrun] at hread
    obtain ⟨hQ, rfl⟩ : Q a ∧ s' = s := hread
    exact hnext a hQ s'

/-- What is answered may be replaced behind. -/
theorem answer {b : β} (hm : Ends R m) (h : ∀ s a s', R s a s' → S s b s') :
    Ends S (m >>= fun _ => Pure.pure b) := by
  intro s
  have hfirst := hm s
  rw [run_bind]
  rcases hrun : m.run.run s with ⟨e | a, s'⟩
  · rw [hrun] at hfirst
    exact hfirst
  · rw [hrun] at hfirst
    exact h s a s' hfirst

/-- The branches may be looked at apart. -/
theorem ite {p : Prop} [Decidable p] {yes no : ExceptT ε (StateM σ) α} (hyes : p → Ends R yes)
    (hno : ¬p → Ends R no) : Ends R (if p then yes else no) := by
  by_cases hp : p
  · rw [if_pos hp]
    exact hyes hp
  · rw [if_neg hp]
    exact hno hp

/-- How a computation ended when it returned. -/
theorem of_ok (hm : Ends R m) {s s' : σ} {a : α} (h : m.run.run s = (.ok a, s')) : R s a s' := by
  have hs := hm s
  rw [h] at hs
  exact hs

/-- Where a computation ended when it threw. -/
theorem of_error (hm : Ends R m) {s s' : σ} {e : ε} (h : m.run.run s = (.error e, s')) :
    s' = s := by
  have hs := hm s
  rw [h] at hs
  exact hs

end Ends

namespace Reads

theorem pure {a : α} (h : Q a) : Reads Q (Pure.pure a : ExceptT ε (StateM σ) α) := fun _ => ⟨h, rfl⟩

theorem throw (e : ε) : Reads Q (MonadExcept.throw e : ExceptT ε (StateM σ) α) := fun _ => rfl

theorem get : Reads (fun _ => True) (MonadState.get : ExceptT ε (StateM σ) σ) :=
  fun _ => ⟨trivial, rfl⟩

end Reads

/-- What holds of the state still holds when the computation returns or throws. -/
def Keeps (P : σ → Prop) (m : ExceptT ε (StateM σ) α) : Prop := ∀ s, P s → P (m.run.run s).2

namespace Keeps

variable {P : σ → Prop}

theorem bind (hm : Keeps P m) (hnext : ∀ a, Keeps P (next a)) : Keeps P (m >>= next) := by
  intro s hs
  have hfirst := hm s hs
  rw [run_bind]
  rcases hrun : m.run.run s with ⟨e | a, s'⟩
  · rwa [hrun] at hfirst
  · rw [hrun] at hfirst
    exact hnext a s' hfirst

theorem pure {a : α} : Keeps P (Pure.pure a : ExceptT ε (StateM σ) α) := fun _ hs => hs

/-- What leaves the state alone keeps everything. -/
theorem of_reads (hm : Reads Q m) : Keeps P m := by
  intro s hs
  rcases hrun : m.run.run s with ⟨e | a, s'⟩
  · exact (hm.of_error hrun).symm ▸ hs
  · exact (hm.of_ok hrun).2.symm ▸ hs

end Keeps

end AllOrNothing

import Mathlib.Data.List.Induction

/-!
# Runs of a system

A system takes labelled steps, each of them a partial function of its state; the label is who
moves and what the environment answers. A run takes one step after the other (`run`).

* `run_invariant` and `run_history` are the induction rules, for the state alone and for the state
  with the labels that led to it.
* `exists_add_countP_le` counts the steps that do some work: a potential that each of them raises is
  at the end at least their number.
* `run_append_eq_some_iff` puts two runs together.
-/

namespace Transition

variable {S A : Type*} (step : S → A → Option S)

/-- The steps of some labels, one after the other. -/
def run (s : S) (labels : List A) : Option S := labels.foldlM step s

variable {step} {s t t' : S} {a : A} {labels later : List A}

@[simp]
theorem run_nil : run step s [] = some s := rfl

/-- The first step, and the others from where it leads. -/
theorem run_cons_eq_some_iff :
    run step s (a :: labels) = some t' ↔ ∃ t, step s a = some t ∧ run step t labels = some t' := by
  rw [run, List.foldlM_cons]
  exact Option.bind_eq_some_iff

/-- Two runs, one after the other. -/
theorem run_append_eq_some_iff :
    run step s (labels ++ later) = some t' ↔
      ∃ t, run step s labels = some t ∧ run step t later = some t' := by
  rw [run, List.foldlM_append]
  exact Option.bind_eq_some_iff

/-- The last step of a run. -/
theorem run_append_singleton_eq_some_iff :
    run step s (labels ++ [a]) = some t' ↔
      ∃ t, run step s labels = some t ∧ step t a = some t' := by
  rw [run_append_eq_some_iff]
  simp [run_cons_eq_some_iff]

/-- What holds at the start and is kept by every step holds at the end of every run, also of the
labels so far. -/
theorem run_history {P : List A → S → Prop}
    (hstep : ∀ past t a t', P past t → step t a = some t' → P (past ++ [a]) t')
    (hinit : P [] s) (hrun : run step s labels = some t) : P labels t := by
  induction labels using List.reverseRecOn generalizing t with
  | nil => exact Option.some.inj hrun ▸ hinit
  | append_singleton labels a ih =>
    obtain ⟨before, hbefore, hlast⟩ := run_append_singleton_eq_some_iff.mp hrun
    exact hstep _ _ _ _ (ih hbefore) hlast

/-- The rule for the state alone. -/
theorem run_invariant {P : S → Prop} (hstep : ∀ t a t', P t → step t a = some t' → P t')
    (hinit : P s) (hrun : run step s labels = some t) : P t :=
  run_history (P := fun _ => P) (fun _ t a t' => hstep t a t') hinit hrun

/-- The rule for runs whose labels all meet a condition. -/
theorem run_invariant_of_forall {P : S → Prop} {ok : A → Prop}
    (hstep : ∀ t a t', P t → ok a → step t a = some t' → P t') (hinit : P s)
    (hok : ∀ a ∈ labels, ok a) (hrun : run step s labels = some t) : P t := by
  have hrule := run_history (P := fun past t => (∀ a ∈ past, ok a) → P t) ?_ (fun _ => hinit) hrun
  · exact hrule hok
  · intro past t a t' ih ht hpast
    obtain ⟨hpast, ha⟩ := List.forall_mem_append.mp hpast
    exact hstep t a t' (ih hpast) (List.forall_mem_singleton.mp ha) ht

/-- A potential that every step of some work raises, and that no step lowers, is raised as often as
work is done. States are related to the values of their potential. -/
theorem exists_add_countP_le {P : S → ℕ → Prop} {ok : A → Prop} (work : A → Bool) {value : ℕ}
    (hstep : ∀ t a t' value, P t value → ok a → step t a = some t' →
      ∃ value', P t' value' ∧ value + (if work a then 1 else 0) ≤ value')
    (hinit : P s value) (hok : ∀ a ∈ labels, ok a) (hrun : run step s labels = some t) :
    ∃ value', P t value' ∧ value + labels.countP work ≤ value' := by
  have hrule := run_history
    (P := fun past t => (∀ a ∈ past, ok a) →
      ∃ value', P t value' ∧ value + past.countP work ≤ value')
    ?_ (fun _ => ⟨value, hinit, Nat.le_refl _⟩) hrun
  · exact hrule hok
  · intro past t a t' ih ht hpast
    obtain ⟨hpast, ha⟩ := List.forall_mem_append.mp hpast
    obtain ⟨before, hbefore, hcount⟩ := ih hpast
    obtain ⟨after, hafter, hraised⟩ :=
      hstep t a t' before hbefore (List.forall_mem_singleton.mp ha) ht
    refine ⟨after, hafter, ?_⟩
    rw [List.countP_append, List.countP_singleton]
    omega

end Transition

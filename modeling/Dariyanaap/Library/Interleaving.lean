import Mathlib.Data.List.Basic
import Mathlib.Data.List.Perm.Basic
import Mathlib.Algebra.BigOperators.Group.List.Basic
import Mathlib.Algebra.GroupWithZero.Nat
import Mathlib.Order.Monotone.Basic

/-!
# Interleaved threads over a shared store

Threads take atomic steps, one thread at a time and in any order, over a store they share. A
step is a partial function of the store, the thread's own state and a label; the label is what
the environment answers in that step, and the step may report observations. A configuration
keeps, next to each thread's state, the labels the thread has consumed and the observations it
has reported, so a statement about a whole run is a statement about the configuration it ends
in.

* `run_invariant` is the induction rule: an invariant that relates the store (`J`) and each
  thread with its own past (`I`) holds at the end of every run if every step keeps it;
  `run_local_invariant` is the same for threads alone.
* `run_ledger` is the rule for a shared counter: when each step hands out exactly what it
  reports, what all threads were handed is what the store has issued, in some order.
* `run_account` is the rule for a shared store that takes in what the threads have buffered: it
  holds what all threads have handed over.
* `run_induction_along` is the induction rule for the runs whose steps all meet a condition on
  the configuration they are taken from.
* `countP_add_sum_le` bounds what a run can do by what its threads had left. A `Fair` execution goes
  on as long as a thread is busy: `Fair.exists_rest` is its end, when every step leaves its thread
  less, and `exists_fair` says that there is one.
* `exists_run_to_rest` lets the threads take turns until none has work left, when every step
  leaves the thread that takes it less work.
-/

namespace Interleaving

/-- One thread: its state, the labels it has consumed and what it has reported. -/
structure Thread (L A O : Type*) where
  state : L
  labels : List A
  past : List O

/-- A store and the threads that share it. -/
structure Config (S L A O : Type*) where
  shared : S
  threads : List (Thread L A O)

/-- A thread that has not run yet. -/
def Thread.fresh {L A O : Type*} (l : L) : Thread L A O := ⟨l, [], []⟩

/-- `n` threads that start in the same state. -/
def Config.init {S L A O : Type*} (s : S) (l : L) (n : ℕ) : Config S L A O :=
  ⟨s, List.replicate n (.fresh l)⟩

variable {S L A O : Type*} (step : S → L → A → Option (S × L × List O))

/-- Thread `i` takes a step labelled `a`. -/
def Config.move (c : Config S L A O) (i : ℕ) (a : A) : Option (Config S L A O) :=
  match c.threads[i]? with
  | none => none
  | some t =>
      match step c.shared t.state a with
      | none => none
      | some (s, l, out) => some ⟨s, c.threads.set i ⟨l, t.labels ++ [a], t.past ++ out⟩⟩

/-- A schedule: which thread moves, and with which label. -/
def Config.run (c : Config S L A O) : List (ℕ × A) → Option (Config S L A O)
  | [] => some c
  | (i, a) :: schedule => (c.move step i a).bind fun c' => c'.run schedule

variable {step} {c c' : Config S L A O} {i : ℕ} {a : A} {schedule : List (ℕ × A)}

/-- What a step of the configuration does. -/
theorem step_cases (h : c.move step i a = some c') :
    ∃ t s l out, c.threads[i]? = some t ∧ step c.shared t.state a = some (s, l, out) ∧
      c' = ⟨s, c.threads.set i ⟨l, t.labels ++ [a], t.past ++ out⟩⟩ := by
  unfold Config.move at h
  split at h
  · cases h
  · next t ht =>
    split at h
    · cases h
    · next s l out hs => exact ⟨t, s, l, out, ht, hs, (Option.some.inj h).symm⟩

/-- A thread that can take a step takes it. -/
theorem move_eq {t : Thread L A O} {s : S} {l : L} {out : List O}
    (ht : c.threads[i]? = some t) (hs : step c.shared t.state a = some (s, l, out)) :
    c.move step i a = some ⟨s, c.threads.set i ⟨l, t.labels ++ [a], t.past ++ out⟩⟩ := by
  rw [Config.move, ht]
  dsimp only
  rw [hs]

theorem isSome_move {t : Thread L A O} (ht : c.threads[i]? = some t)
    (hstep : (step c.shared t.state a).isSome) : (c.move step i a).isSome := by
  obtain ⟨⟨s, l, out⟩, hs⟩ := Option.isSome_iff_exists.mp hstep
  rw [move_eq ht hs]
  rfl

/-- Induction over a run: `P` holds at its end if it holds of the start and every step keeps
it. -/
theorem run_induction {P : Config S L A O → Prop}
    (hstep : ∀ c i a c', P c → c.move step i a = some c' → P c')
    (hinit : P c) (hrun : c.run step schedule = some c') : P c' := by
  induction schedule generalizing c with
  | nil => exact Option.some.inj hrun ▸ hinit
  | cons next schedule ih =>
    obtain ⟨d, hd, hrest⟩ := Option.bind_eq_some_iff.mp hrun
    exact ih (hstep _ _ _ _ hinit hd) hrest

/-- An invariant of the store and of each thread with its past holds after every run. -/
theorem run_invariant {J : S → Prop} {I : L → List A → List O → Prop}
    (hstep : ∀ s l as past a s' l' out, J s → I l as past → step s l a = some (s', l', out) →
      J s' ∧ I l' (as ++ [a]) (past ++ out))
    (hshared : J c.shared) (hthreads : ∀ t ∈ c.threads, I t.state t.labels t.past)
    (hrun : c.run step schedule = some c') :
    J c'.shared ∧ ∀ t ∈ c'.threads, I t.state t.labels t.past := by
  refine run_induction
    (P := fun d => J d.shared ∧ ∀ t ∈ d.threads, I t.state t.labels t.past) ?_
    ⟨hshared, hthreads⟩ hrun
  intro d i a d' hd hs
  obtain ⟨t, s, l, out, ht, hts, rfl⟩ := step_cases hs
  obtain ⟨hJ, hI⟩ := hstep _ _ _ _ _ _ _ _ hd.1 (hd.2 t (List.mem_of_getElem? ht)) hts
  refine ⟨hJ, fun u hu => ?_⟩
  rcases List.mem_or_eq_of_mem_set hu with hu | rfl
  · exact hd.2 u hu
  · exact hI

/-- The threads of an initial configuration satisfy what the initial state does. -/
theorem forall_init {s : S} {l : L} {n : ℕ} {I : L → List A → List O → Prop} (h : I l [] []) :
    ∀ t ∈ (Config.init s l n : Config S L A O).threads, I t.state t.labels t.past := by
  intro t ht
  rw [List.eq_of_mem_replicate ht]
  exact h

/-- An invariant of each thread alone, from a common start and whatever the store holds. -/
theorem run_local_invariant {s : S} {l : L} {n : ℕ} {I : L → List A → List O → Prop}
    (hstep : ∀ s l as past a s' l' out, I l as past → step s l a = some (s', l', out) →
      I l' (as ++ [a]) (past ++ out))
    (hinit : I l [] []) (hrun : (Config.init s l n).run step schedule = some c') :
    ∀ t ∈ c'.threads, I t.state t.labels t.past := by
  refine (run_invariant (J := fun _ => True) ?_ trivial (forall_init hinit) hrun).2
  intro s l as past a s' l' out _ hI hs
  exact ⟨trivial, hstep s l as past a s' l' out hI hs⟩

/-- Extending one list of a family extends the concatenation by the same elements. -/
theorem flatMap_set_perm {α β : Type*} (f : α → List β) {xs : List α} {x y : α} {extra : List β}
    (hi : xs[i]? = some x) (hy : f y = f x ++ extra) :
    ((xs.set i y).flatMap f).Perm (xs.flatMap f ++ extra) := by
  induction xs generalizing i with
  | nil => simp at hi
  | cons z xs ih =>
    cases i with
    | zero =>
      obtain rfl : z = x := by simpa using hi
      -- the extension moves behind what the later lists contribute
      simp only [List.set_cons_zero, List.flatMap_cons, hy, List.append_assoc]
      exact (List.perm_append_comm).append_left _
    | succ i =>
      simp only [List.set_cons_succ, List.flatMap_cons, List.append_assoc]
      exact (ih (by simpa using hi)).append_left _

/-- When every step hands out exactly what it reports, the threads together were handed what
the store has issued. -/
theorem run_ledger {β : Type*} {J : S → Prop} (issued : S → List β) (handed : O → Option β)
    (hstep : ∀ s l a s' l' out, J s → step s l a = some (s', l', out) →
      J s' ∧ issued s' = issued s ++ out.filterMap handed)
    (hshared : J c.shared)
    (hinit : (c.threads.flatMap fun t => t.past.filterMap handed).Perm (issued c.shared))
    (hrun : c.run step schedule = some c') :
    (c'.threads.flatMap fun t => t.past.filterMap handed).Perm (issued c'.shared) := by
  refine (run_induction (P := fun d => J d.shared ∧
    (d.threads.flatMap fun t => t.past.filterMap handed).Perm (issued d.shared)) ?_
    ⟨hshared, hinit⟩ hrun).2
  -- what this step hands out is what the store issues in it
  intro d i a d' hd hs
  obtain ⟨t, s, l, out, ht, hts, rfl⟩ := step_cases hs
  obtain ⟨hJ, hissued⟩ := hstep _ _ _ _ _ _ hd.1 hts
  refine ⟨hJ, ?_⟩
  rw [hissued]
  exact (flatMap_set_perm _ ht (List.filterMap_append ..)).trans (hd.2.append_right _)

/-- When what every thread has handed over only grows, and the store takes in what a step hands
over, the store at the end holds what all threads have handed over, in some order. -/
theorem run_account {β : Type*} {s₀ : S} {l₀ : L} {n : ℕ} {J : S → Prop}
    {I : L → List A → List O → Prop} (handed : L → List A → List O → List β)
    {R : S → List β → Prop} (hperm : ∀ s xs ys, R s xs → xs.Perm ys → R s ys)
    (hstep : ∀ s l as past a s' l' out, J s → I l as past → step s l a = some (s', l', out) →
      J s' ∧ I l' (as ++ [a]) (past ++ out) ∧
        ∃ extra, handed l' (as ++ [a]) (past ++ out) = handed l as past ++ extra ∧
          ∀ xs, R s xs → R s' (xs ++ extra))
    (hshared : J s₀) (hstart : I l₀ [] []) (hnothing : handed l₀ [] [] = []) (hempty : R s₀ [])
    (hrun : (Config.init s₀ l₀ n).run step schedule = some c') :
    J c'.shared ∧ (∀ t ∈ c'.threads, I t.state t.labels t.past) ∧
      R c'.shared (c'.threads.flatMap fun t => handed t.state t.labels t.past) := by
  have hnil : ((Config.init s₀ l₀ n : Config S L A O).threads.flatMap fun t =>
      handed t.state t.labels t.past) = [] := by
    rw [List.flatMap_eq_nil_iff]
    intro t ht
    rw [List.eq_of_mem_replicate ht]
    exact hnothing
  refine run_induction (P := fun d => J d.shared ∧ (∀ t ∈ d.threads, I t.state t.labels t.past) ∧
    R d.shared (d.threads.flatMap fun t => handed t.state t.labels t.past)) ?_
    ⟨hshared, forall_init hstart, hnil ▸ hempty⟩ hrun
  intro d i a d' hd hs
  obtain ⟨t, s, l, out, ht, hts, rfl⟩ := step_cases hs
  obtain ⟨hJ, hI, extra, hextra, htaken⟩ :=
    hstep _ _ _ _ _ _ _ _ hd.1 (hd.2.1 t (List.mem_of_getElem? ht)) hts
  refine ⟨hJ, fun u hu => ?_, ?_⟩
  · rcases List.mem_or_eq_of_mem_set hu with hu | rfl
    · exact hd.2.1 u hu
    · exact hI
  · -- only this thread has handed anything over
    exact hperm _ _ _ (htaken _ hd.2.2)
      (flatMap_set_perm (fun t => handed t.state t.labels t.past) ht hextra).symm

/-- Every step of a schedule meets a condition on the configuration it is taken from. -/
def Config.Along (step : S → L → A → Option (S × L × List O))
    (ok : Config S L A O → ℕ → A → Prop) (c : Config S L A O) : List (ℕ × A) → Prop
  | [] => True
  | (i, a) :: schedule =>
      ok c i a ∧ ∀ c' ∈ c.move step i a, c'.Along step ok schedule

instance Config.decidableAlong {ok : Config S L A O → ℕ → A → Prop}
    [∀ c i a, Decidable (ok c i a)] :
    ∀ (schedule : List (ℕ × A)) (c : Config S L A O), Decidable (c.Along step ok schedule)
  | [], _ => .isTrue trivial
  | (i, a) :: schedule, c =>
      have (c' : Config S L A O) : Decidable (c'.Along step ok schedule) :=
        decidableAlong schedule c'
      inferInstanceAs (Decidable (ok c i a ∧ ∀ c' ∈ c.move step i a, c'.Along step ok schedule))

/-- Induction over a run whose steps all meet a condition. -/
theorem run_induction_along {ok : Config S L A O → ℕ → A → Prop} {P : Config S L A O → Prop}
    (hstep : ∀ c i a c', P c → ok c i a → c.move step i a = some c' → P c')
    (hinit : P c) (halong : c.Along step ok schedule) (hrun : c.run step schedule = some c') :
    P c' := by
  induction schedule generalizing c with
  | nil => exact Option.some.inj hrun ▸ hinit
  | cons next schedule ih =>
    obtain ⟨d, hd, hrest⟩ := Option.bind_eq_some_iff.mp hrun
    exact ih (hstep _ _ _ _ hinit halong.1 hd) (halong.2 d hd) hrest

/-- Making one value of a family smaller makes the sum smaller. -/
theorem sum_map_set_lt {α : Type*} (f : α → ℕ) {xs : List α} {x y : α}
    (hi : xs[i]? = some x) (hless : f y < f x) :
    ((xs.set i y).map f).sum < (xs.map f).sum := by
  induction xs generalizing i with
  | nil => simp at hi
  | cons z xs ih =>
    cases i with
    | zero =>
      obtain rfl : z = x := by simpa using hi
      simpa using hless
    | succ i => simpa using ih (by simpa using hi)

/-- Replacing one value of a family by one that is smaller by `n` makes the sum smaller by it. -/
theorem sum_map_set_add_le {α : Type*} (f : α → ℕ) {xs : List α} {x y : α} {n : ℕ}
    (hi : xs[i]? = some x) (hless : f y + n ≤ f x) :
    ((xs.set i y).map f).sum + n ≤ (xs.map f).sum := by
  induction xs generalizing i with
  | nil => simp at hi
  | cons z xs ih =>
    cases i with
    | zero =>
      obtain rfl : z = x := by simpa using hi
      simp only [List.set_cons_zero, List.map_cons, List.sum_cons]
      omega
    | succ i =>
      have hrest := ih (by simpa using hi)
      simp only [List.set_cons_succ, List.map_cons, List.sum_cons]
      omega

/-- When every step with a label of some kind takes what it does from what its thread has `left`, a
run of such steps does no more than the threads had left. -/
theorem countP_add_sum_le (left : L → ℕ) (work : A → Bool) {ok : A → Prop}
    (hstep : ∀ s l a s' l' out, ok a → step s l a = some (s', l', out) →
      left l' + (if work a then 1 else 0) ≤ left l)
    (hok : ∀ turn ∈ schedule, ok turn.2) (hrun : c.run step schedule = some c') :
    schedule.countP (fun turn => work turn.2) + (c'.threads.map fun t => left t.state).sum ≤
      (c.threads.map fun t => left t.state).sum := by
  induction schedule generalizing c with
  | nil =>
    obtain rfl := Option.some.inj hrun
    exact Nat.le_of_eq (Nat.zero_add _)
  | cons turn schedule ih =>
    obtain ⟨hturn, hlater⟩ := List.forall_mem_cons.mp hok
    obtain ⟨d, hd, hrest⟩ := Option.bind_eq_some_iff.mp hrun
    obtain ⟨t, s, l, out, ht, hs, rfl⟩ := step_cases hd
    have hbound := ih hlater hrest
    have hset := sum_map_set_add_le (fun t : Thread L A O => left t.state) ht
      (y := ⟨l, t.labels ++ [turn.2], t.past ++ out⟩) (hstep _ _ _ _ _ _ hturn hs)
    rw [List.countP_cons]
    dsimp only at hbound hset
    omega

/-- An execution without end: in each step a thread moves, with a label that is `ok`, or none does;
and a thread that is `busy` moves sooner or later. -/
structure Fair (step : S → L → A → Option (S × L × List O)) (ok : A → Prop) (busy : L → Prop)
    (execution : ℕ → Config S L A O) : Prop where
  next : ∀ k, execution (k + 1) = execution k ∨
    ∃ i a, ok a ∧ (execution k).move step i a = some (execution (k + 1))
  moves : ∀ k i t, (execution k).threads[i]? = some t → busy t.state →
    ∃ j ≥ k, ∃ a, ok a ∧ (execution j).move step i a = some (execution (j + 1))

section Fair

variable {ok : A → Prop} {busy : L → Prop} {execution : ℕ → Config S L A O} (left : L → ℕ)

/-- A step that leaves its thread less leaves all of them less. -/
theorem sum_left_lt
    (hstep : ∀ s l a s' l' out, ok a → step s l a = some (s', l', out) → left l' < left l)
    (ha : ok a) (hmove : c.move step i a = some c') :
    (c'.threads.map fun t => left t.state).sum < (c.threads.map fun t => left t.state).sum := by
  obtain ⟨t, s, l, out, ht, hs, rfl⟩ := step_cases hmove
  exact sum_map_set_lt (fun t => left t.state) (y := ⟨l, t.labels ++ [a], t.past ++ out⟩) ht
    (hstep _ _ _ _ _ _ ha hs)

/-- When every step leaves its thread less, a fair execution gets to where no thread is busy. -/
theorem Fair.exists_rest
    (hstep : ∀ s l a s' l' out, ok a → step s l a = some (s', l', out) → left l' < left l)
    (h : Fair step ok busy execution) : ∃ k, ∀ t ∈ (execution k).threads, ¬busy t.state := by
  -- what is left never grows
  have hle : Antitone fun k => ((execution k).threads.map fun t => left t.state).sum := by
    refine antitone_nat_of_succ_le fun k => ?_
    rcases h.next k with heq | ⟨i, a, ha, hmove⟩
    · rw [heq]
    · exact (sum_left_lt left hstep ha hmove).le
  -- by induction on what is left, from any place of the execution on
  suffices hfrom : ∀ n k, ((execution k).threads.map fun t => left t.state).sum = n →
      ∃ j, ∀ t ∈ (execution j).threads, ¬busy t.state from hfrom _ 0 rfl
  intro n
  induction n using Nat.strongRecOn with
  | _ n ih =>
    intro k hn
    by_cases hrest : ∀ t ∈ (execution k).threads, ¬busy t.state
    · exact ⟨k, hrest⟩
    · obtain ⟨t, hmem, hbusy⟩ : ∃ t ∈ (execution k).threads, busy t.state := by simpa using hrest
      obtain ⟨i, ht⟩ := List.mem_iff_getElem?.mp hmem
      obtain ⟨j, hj, a, ha, hmove⟩ := h.moves k i t ht hbusy
      exact ih _ (hn ▸ (sum_left_lt left hstep ha hmove).trans_le (hle hj)) (j + 1) rfl

/-- When some thread can take a step as long as one is busy, there is a fair execution. -/
theorem exists_fair {P : Config S L A O → Prop}
    (hstep : ∀ s l a s' l' out, ok a → step s l a = some (s', l', out) → left l' < left l)
    (hkeep : ∀ c i a c', P c → c.move step i a = some c' → P c')
    (hmore : ∀ c, P c → (∃ t ∈ c.threads, busy t.state) →
      ∃ i a c', ok a ∧ c.move step i a = some c')
    (hc : P c) : ∃ execution, execution 0 = c ∧ Fair step ok busy execution := by
  induction htotal : (c.threads.map fun t => left t.state).sum using Nat.strongRecOn
    generalizing c with
  | _ total ih =>
    by_cases hrest : ∃ t ∈ c.threads, busy t.state
    · obtain ⟨i, a, d, ha, hmove⟩ := hmore c hc hrest
      obtain ⟨later, hstart, hfair⟩ :=
        ih _ (htotal ▸ sum_left_lt left hstep ha hmove) (hkeep c i a d hc hmove) rfl
      subst hstart
      refine ⟨fun k => k.casesOn c later, rfl, ?_, ?_⟩
      · rintro (_ | k)
        · exact .inr ⟨i, a, ha, hmove⟩
        · exact hfair.next k
      · rintro (_ | k) i' t ht hbusy
        · by_cases hi : i' = i
          · subst hi
            exact ⟨0, Nat.zero_le _, a, ha, hmove⟩
          · -- another thread is where it was
            obtain ⟨_, s, l, out, -, -, hd⟩ := step_cases hmove
            have ht' : (later 0).threads[i']? = some t := by
              rw [hd, ← ht]
              exact List.getElem?_set_ne (Ne.symm hi)
            obtain ⟨j, -, a', ha', hmove'⟩ := hfair.moves 0 i' t ht' hbusy
            exact ⟨j + 1, Nat.zero_le _, a', ha', hmove'⟩
        · obtain ⟨j, hj, a', ha', hmove'⟩ := hfair.moves k i' t ht hbusy
          exact ⟨j + 1, Nat.succ_le_succ hj, a', ha', hmove'⟩
    · refine ⟨fun _ => c, rfl, fun _ => .inl rfl, fun _ i t ht hbusy => ?_⟩
      exact absurd ⟨t, List.mem_of_getElem? ht, hbusy⟩ hrest

end Fair

/-- When every thread with work `left` can take a step labelled `a` that leaves it less, and
such steps keep `P`, the threads can take turns until none has work left. -/
theorem exists_run_to_rest {P : Config S L A O → Prop} (left : L → ℕ) (a : A)
    (hstep : ∀ c i t, P c → c.threads[i]? = some t → left t.state ≠ 0 →
      ∃ s l out, step c.shared t.state a = some (s, l, out) ∧ left l < left t.state ∧
        P ⟨s, c.threads.set i ⟨l, t.labels ++ [a], t.past ++ out⟩⟩)
    (h : P c) :
    ∃ (turns : List ℕ) (c' : Config S L A O), c.run step (turns.map (·, a)) = some c' ∧
      P c' ∧ ∀ t ∈ c'.threads, left t.state = 0 := by
  -- by induction on the work all threads have left
  induction htotal : (c.threads.map fun t => left t.state).sum using Nat.strongRecOn
    generalizing c with
  | _ total ih =>
    by_cases hrest : ∀ t ∈ c.threads, left t.state = 0
    · exact ⟨[], c, rfl, h, hrest⟩
    · obtain ⟨t, hmem, hleft⟩ : ∃ t ∈ c.threads, left t.state ≠ 0 := by simpa using hrest
      obtain ⟨i, ht⟩ := List.mem_iff_getElem?.mp hmem
      obtain ⟨s, l, out, hs, hless, hP⟩ := hstep c i t h ht hleft
      have hmove : c.move step i a =
          some ⟨s, c.threads.set i ⟨l, t.labels ++ [a], t.past ++ out⟩⟩ := move_eq ht hs
      obtain ⟨turns, c', hrun, hc', hdone⟩ :=
        ih _ (htotal ▸ sum_map_set_lt (fun t => left t.state) ht hless) hP rfl
      refine ⟨i :: turns, c', ?_, hc', hdone⟩
      rw [List.map_cons, Config.run, hmove, Option.bind_some, hrun]

/-- A run whose end is known through a computed value `f` of it. -/
theorem exists_run_eq {B : Type*} {P : Config S L A O → Prop} (f : Config S L A O → B) (b : B)
    (hcomputed : (c.run step schedule).map f = some b)
    (h : ∀ d, c.run step schedule = some d → f d = b → P d) :
    ∃ d, c.run step schedule = some d ∧ P d := by
  obtain ⟨d, hrun, hd⟩ := Option.map_eq_some_iff.mp hcomputed
  exact ⟨d, hrun, h d hrun hd⟩

end Interleaving

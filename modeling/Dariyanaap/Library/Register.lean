import Mathlib.Data.List.Induction

/-!
# Registers

Something that can be read off a state, and events of which some say what it is from now on. If
every step leaves it at what the event says, or where it was, then after a run it is what was
said last, and what it was at the start if nothing was said.
-/

namespace Register

variable {σ ε β : Type*} (said : ε → Option β)

/-- What the events of a log said last. -/
def lastSaid (log : List ε) : Option β := (log.filterMap said).getLast?

@[simp]
theorem lastSaid_nil : lastSaid said [] = none := rfl

/-- The last event decides, or the ones before it do. -/
@[simp]
theorem lastSaid_append_singleton (log : List ε) (e : ε) :
    lastSaid said (log ++ [e]) = (said e).or (lastSaid said log) := by
  rw [lastSaid, List.filterMap_append, List.filterMap_cons, List.filterMap_nil]
  cases said e with
  | none => simp [lastSaid]
  | some b => simp

/-- What is said the same way is said last the same way. -/
theorem lastSaid_congr {said said' : ε → Option β} (h : ∀ e, said e = said' e) (log : List ε) :
    lastSaid said log = lastSaid said' log := by
  rw [funext h]

variable {said}

/-- What was said last was said by some event. -/
theorem exists_of_lastSaid {log : List ε} {b : β} (h : lastSaid said log = some b) :
    ∃ e ∈ log, said e = some b :=
  List.mem_filterMap.mp (List.mem_of_getLast? h)

/-- A register holds what was said last. -/
theorem read_foldl (read : σ → β) {step : σ → ε → σ}
    (hstep : ∀ s e, read (step s e) = (said e).getD (read s)) (log : List ε) (s : σ) :
    read (log.foldl step s) = (lastSaid said log).getD (read s) := by
  induction log using List.reverseRecOn with
  | nil => rfl
  | append_singleton log e ih =>
    rw [List.foldl_append, List.foldl_cons, List.foldl_nil, hstep, ih, lastSaid_append_singleton]
    cases said e <;> rfl

end Register

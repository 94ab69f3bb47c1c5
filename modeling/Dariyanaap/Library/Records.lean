import Mathlib.Data.List.Basic

/-!
# Terminated records

A stream of records, each ended by a separator. `ended` are the records that are complete,
`unended` is what stands behind the last separator. A reader that keeps the unended part and
works on it with what comes next reads the same records however the stream was cut
(`ended_append`, `unended_append`).
-/

namespace Records

variable {α : Type*} [DecidableEq α] (sep : α)

/-- The records of a stream that have ended, in order. -/
def ended (stream : List α) : List (List α) := (stream.splitOn sep).dropLast

/-- What stands behind the last separator. -/
def unended (stream : List α) : List α :=
  (stream.splitOn sep).getLast (List.splitOn_ne_nil sep stream)

variable {sep} {xs u w : List α}

@[simp]
theorem ended_of_notMem (h : sep ∉ xs) : ended sep xs = [] := by
  rw [ended, List.splitOn_eq_singleton h]
  rfl

@[simp]
theorem unended_of_notMem (h : sep ∉ xs) : unended sep xs = xs := by
  unfold unended
  simp only [List.splitOn_eq_singleton h, List.getLast_singleton]

/-- A separator ends the record before it, -/
@[simp]
theorem ended_append_cons (h : sep ∉ u) (w : List α) :
    ended sep (u ++ sep :: w) = u :: ended sep w := by
  rw [ended, List.splitOn_append_cons_self_of_not_mem h,
    List.dropLast_cons_of_ne_nil (List.splitOn_ne_nil sep w), ended]

/-- and leaves what comes after it. -/
@[simp]
theorem unended_append_cons (h : sep ∉ u) (w : List α) :
    unended sep (u ++ sep :: w) = unended sep w := by
  unfold unended
  simp only [List.splitOn_append_cons_self_of_not_mem h]
  exact List.getLast_cons (List.splitOn_ne_nil sep w)

/-- A stream of records that have all ended, -/
theorem ended_flatMap {records : List (List α)} (h : ∀ r ∈ records, sep ∉ r) :
    ended sep (records.flatMap (· ++ [sep])) = records := by
  induction records with
  | nil => exact ended_of_notMem List.not_mem_nil
  | cons r records ih =>
    obtain ⟨hr, hrest⟩ := List.forall_mem_cons.mp h
    rw [List.flatMap_cons, List.append_assoc, List.singleton_append, ended_append_cons hr, ih hrest]

/-- which leaves nothing behind the last separator. -/
theorem unended_flatMap {records : List (List α)} (h : ∀ r ∈ records, sep ∉ r) :
    unended sep (records.flatMap (· ++ [sep])) = [] := by
  induction records with
  | nil => exact unended_of_notMem List.not_mem_nil
  | cons r records ih =>
    obtain ⟨hr, hrest⟩ := List.forall_mem_cons.mp h
    rw [List.flatMap_cons, List.append_assoc, List.singleton_append, unended_append_cons hr,
      ih hrest]

/-- Induction over the records of a stream. -/
@[elab_as_elim]
theorem record_induction (sep : α) {motive : List α → Prop}
    (rest : ∀ xs, sep ∉ xs → motive xs)
    (record : ∀ u w, sep ∉ u → motive w → motive (u ++ sep :: w)) (xs : List α) : motive xs := by
  induction hlength : xs.length using Nat.strongRecOn generalizing xs with
  | _ length ih =>
    -- split at the first separator: what follows it is shorter
    by_cases hsep : sep ∈ xs
    · obtain ⟨u, w, rfl, hu⟩ := List.eq_append_cons_of_mem hsep
      refine record u w hu (ih w.length ?_ w rfl)
      rw [← hlength, List.length_append, List.length_cons]
      omega
    · exact rest xs hsep

/-- No record and no rest has a separator in it. -/
theorem notMem_unended (xs : List α) : sep ∉ unended sep xs := by
  induction xs using record_induction sep with
  | rest xs h => rwa [unended_of_notMem h]
  | record u w hu ih => rwa [unended_append_cons hu]

theorem notMem_of_mem_ended (xs : List α) : ∀ r ∈ ended sep xs, sep ∉ r := by
  induction xs using record_induction sep with
  | rest xs h =>
    rw [ended_of_notMem h]
    exact List.forall_mem_nil _
  | record u w hu ih =>
    rw [ended_append_cons hu]
    exact List.forall_mem_cons.mpr ⟨hu, ih⟩

/-- More of the stream ends the records of what was unended and of what has come. -/
theorem ended_append (xs ys : List α) :
    ended sep (xs ++ ys) = ended sep xs ++ ended sep (unended sep xs ++ ys) := by
  induction xs using record_induction sep with
  | rest xs h => rw [ended_of_notMem h, unended_of_notMem h, List.nil_append]
  | record u w hu ih =>
    rw [List.append_assoc, List.cons_append, ended_append_cons hu, ended_append_cons hu,
      unended_append_cons hu, ih, List.cons_append]

theorem unended_append (xs ys : List α) :
    unended sep (xs ++ ys) = unended sep (unended sep xs ++ ys) := by
  induction xs using record_induction sep with
  | rest xs h => rw [unended_of_notMem h]
  | record u w hu ih =>
    rw [List.append_assoc, List.cons_append, unended_append_cons hu, unended_append_cons hu, ih]

end Records

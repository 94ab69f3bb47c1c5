import Mathlib.Data.List.Forall2

/-!
# The first attempt that works

A list of attempts, each of which changes a state and may fail. They are made one after the other
until one succeeds; every failure is noted, and the notes are what is left when all have failed.

When a failed attempt leaves the state as it was, each attempt is made in the state of the start. So
the first one that succeeds there decides (`first_eq_ok_iff`), and if there is none the notes of all
failures are left, in order, with the state of the start (`first_eq_error_iff`).
-/

namespace FirstThatWorks

variable {A S E B N : Type*} (attempt : A → S → Except E B × S) (note : N → E → N)

/-- The attempts, with what has been noted so far. -/
def first (notes : N) : List A → S → Except N B × S
  | [], s => (.error notes, s)
  | a :: rest, s =>
      match attempt a s with
      | (.ok b, s) => (.ok b, s)
      | (.error e, s) => first (note notes e) rest s

/-- An attempt that fails leaves the state as it was. -/
def Clean (s : S) (a : A) : Prop := ∀ e t, attempt a s = (.error e, t) → t = s

variable {attempt note} {notes notes' : N} {attempts : List A} {s t : S} {a : A} {b : B} {e : E}

/-- The first attempt succeeds. -/
theorem first_cons_of_ok (h : attempt a s = (.ok b, t)) :
    first attempt note notes (a :: attempts) s = (.ok b, t) := by
  rw [first, h]

/-- The first attempt fails. -/
theorem first_cons_of_error (hclean : Clean attempt s a) (h : (attempt a s).1 = .error e) :
    first attempt note notes (a :: attempts) s =
      first attempt note (note notes e) attempts s := by
  obtain ⟨result, t, hresult⟩ : ∃ result t, attempt a s = (result, t) := ⟨_, _, rfl⟩
  rw [hresult] at h
  obtain rfl : result = .error e := h
  rw [first, hresult, hclean e t hresult]

/-- Attempts that all fail leave their notes. -/
theorem first_of_forall {errors : List E} (hclean : ∀ a ∈ attempts, Clean attempt s a)
    (h : List.Forall₂ (fun a e => (attempt a s).1 = .error e) attempts errors) :
    first attempt note notes attempts s = (.error (errors.foldl note notes), s) := by
  induction h generalizing notes with
  | nil => rfl
  | cons hfailed _ ih =>
    obtain ⟨hclean, hrest⟩ := List.forall_mem_cons.mp hclean
    rw [first_cons_of_error hclean hfailed, ih hrest, List.foldl_cons]

/-- Each attempt of a list that fails is one that fails. -/
theorem exists_error_of_mem {errors : List E}
    (h : List.Forall₂ (fun a e => (attempt a s).1 = .error e) attempts errors)
    (ha : a ∈ attempts) : ∃ e, (attempt a s).1 = .error e := by
  induction h with
  | nil => cases ha
  | cons hfailed _ ih =>
    rcases List.mem_cons.mp ha with rfl | ha
    · exact ⟨_, hfailed⟩
    · exact ih ha

/-- Attempts that fail before one that succeeds. -/
theorem first_append_of_ok {before after : List A} (hclean : ∀ a ∈ before, Clean attempt s a)
    (hfailed : ∀ x ∈ before, ∃ e, (attempt x s).1 = .error e) (h : attempt a s = (.ok b, t)) :
    first attempt note notes (before ++ a :: after) s = (.ok b, t) := by
  induction before generalizing notes with
  | nil => exact first_cons_of_ok h
  | cons x before ih =>
    obtain ⟨hclean, hrest⟩ := List.forall_mem_cons.mp hclean
    obtain ⟨⟨e, he⟩, hfailed⟩ := List.forall_mem_cons.mp hfailed
    rw [List.cons_append, first_cons_of_error hclean he]
    exact ih hrest hfailed

variable (attempt) in
/-- Either all attempts fail, or there is a first one that does not. -/
theorem forall_error_or_exists_ok (attempts : List A) (s : S) :
    (∃ errors, List.Forall₂ (fun a e => (attempt a s).1 = .error e) attempts errors) ∨
      ∃ before a after b t, attempts = before ++ a :: after ∧
        (∀ x ∈ before, ∃ e, (attempt x s).1 = .error e) ∧ attempt a s = (.ok b, t) := by
  induction attempts with
  | nil => exact .inl ⟨[], .nil⟩
  | cons x attempts ih =>
    obtain ⟨result, t, hresult⟩ : ∃ result t, attempt x s = (result, t) := ⟨_, _, rfl⟩
    cases result with
    | ok b => exact .inr ⟨[], x, attempts, b, t, rfl, by simp, hresult⟩
    | error e =>
      have hfailed : (attempt x s).1 = .error e := by rw [hresult]
      rcases ih with ⟨errors, hall⟩ | ⟨before, a, after, b, t, rfl, hbefore, hok⟩
      · exact .inl ⟨e :: errors, .cons hfailed hall⟩
      · exact .inr ⟨x :: before, a, after, b, t, rfl,
          List.forall_mem_cons.mpr ⟨⟨e, hfailed⟩, hbefore⟩, hok⟩

/-- The first attempt that succeeds decides. -/
theorem first_eq_ok_iff (hclean : ∀ a ∈ attempts, Clean attempt s a) :
    first attempt note notes attempts s = (.ok b, t) ↔
      ∃ before a after, attempts = before ++ a :: after ∧
        (∀ x ∈ before, ∃ e, (attempt x s).1 = .error e) ∧ attempt a s = (.ok b, t) := by
  constructor
  · intro h
    rcases forall_error_or_exists_ok attempt attempts s with
      ⟨errors, hall⟩ | ⟨before, a, after, b', t', rfl, hbefore, hok⟩
    · rw [first_of_forall hclean hall] at h
      cases h
    · rw [first_append_of_ok (fun x hx => hclean x (List.mem_append_left _ hx)) hbefore hok] at h
      cases h
      exact ⟨before, a, after, rfl, hbefore, hok⟩
  · rintro ⟨before, a, after, rfl, hbefore, hok⟩
    exact first_append_of_ok (fun x hx => hclean x (List.mem_append_left _ hx)) hbefore hok

/-- If there is none, the notes of all failures are left. -/
theorem first_eq_error_iff (hclean : ∀ a ∈ attempts, Clean attempt s a) :
    first attempt note notes attempts s = (.error notes', t) ↔
      t = s ∧ ∃ errors, List.Forall₂ (fun a e => (attempt a s).1 = .error e) attempts errors ∧
        errors.foldl note notes = notes' := by
  constructor
  · intro h
    rcases forall_error_or_exists_ok attempt attempts s with
      ⟨errors, hall⟩ | ⟨before, a, after, b', t', rfl, hbefore, hok⟩
    · rw [first_of_forall hclean hall] at h
      cases h
      exact ⟨rfl, errors, hall, rfl⟩
    · rw [first_append_of_ok (fun x hx => hclean x (List.mem_append_left _ hx)) hbefore hok] at h
      cases h
  · rintro ⟨rfl, errors, hall, rfl⟩
    exact first_of_forall hclean hall

end FirstThatWorks

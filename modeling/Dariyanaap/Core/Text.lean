import Mathlib.Algebra.Group.Nat.Defs
import Mathlib.Data.List.Infix
import Mathlib.Data.List.TakeDrop
import Mathlib.Data.List.TakeWhile

/-!
# Texts

The `std::string`, `std::string_view` and `span<const char>` of the source are lists of
characters; a byte is the character of its code. `find` is `string_view::find`. The facts
about it are the ones an incremental reader rests on: an occurrence that is there stays the
first one when more bytes arrive (`find_append`), and a shorter buffer that already holds the
whole occurrence finds the same one (`find_of_append`).
-/

namespace Dariyanaap

/-- A string of the source. -/
abbrev Text : Type := List Char

/-- `UINT64_MAX`, the largest number that the readers of numbers accept. -/
def uint64Max : ℕ := 2 ^ 64 - 1

/-- `UsageError`, with its text. -/
structure UsageError where
  what : Text
  deriving DecidableEq

/-- `InvalidEndpoint`, which is a `UsageError`. -/
structure InvalidEndpoint extends UsageError where
  deriving DecidableEq

/-- What does not return throws. -/
theorem exists_error {ε α : Type*} {result : Except ε α} (h : ∀ a, result ≠ .ok a) :
    ∃ e, result = .error e := by
  cases result with
  | error e => exact ⟨e, rfl⟩
  | ok a => exact absurd rfl (h a)

namespace Text

/-- `string_view::find`: the position of the first occurrence. -/
def find (needle : Text) : Text → Option ℕ
  | [] => if needle = [] then some 0 else none
  | c :: cs =>
      if needle.isPrefixOf (c :: cs) then some 0 else (find needle cs).map (· + 1)

/-- `string_view::find` with a starting position. -/
def findFrom (needle hay : Text) (start : ℕ) : Option ℕ :=
  (find needle (hay.drop start)).map (· + start)

/-- `string_view::rfind` of one character: the position of its last occurrence. -/
def rfind (c : Char) : Text → Option ℕ
  | [] => none
  | d :: ds =>
      match rfind c ds with
      | some k => some (k + 1)
      | none => if d = c then some 0 else none

variable {needle hay u w : Text} {k : ℕ}

/-- The occurrence lies inside the text. -/
theorem find_add_length_le (h : find needle hay = some k) : k + needle.length ≤ hay.length := by
  induction hay generalizing k with
  | nil =>
    unfold find at h
    split at h
    · next hnil =>
      obtain rfl : 0 = k := Option.some.inj h
      simp [hnil]
    · cases h
  | cons c cs ih =>
    unfold find at h
    split at h
    · next hpre =>
      obtain rfl : 0 = k := Option.some.inj h
      simpa using (List.isPrefixOf_iff_prefix.mp hpre).length_le
    · obtain ⟨j, hj, rfl⟩ := Option.map_eq_some_iff.mp h
      have := ih hj
      simp only [List.length_cons]
      omega

/-- At an occurrence stands the needle. -/
theorem drop_find (h : find needle hay = some k) :
    hay.drop k = needle ++ hay.drop (k + needle.length) := by
  induction hay generalizing k with
  | nil =>
    unfold find at h
    split at h
    · next hnil => simp [hnil]
    · cases h
  | cons c cs ih =>
    unfold find at h
    split at h
    · next hpre =>
      obtain rfl : 0 = k := Option.some.inj h
      obtain ⟨rest, hrest⟩ := List.isPrefixOf_iff_prefix.mp hpre
      rw [List.drop_zero, Nat.zero_add, ← hrest, List.drop_left]
    · obtain ⟨j, hj, rfl⟩ := Option.map_eq_some_iff.mp h
      rw [List.drop_succ_cons, ih hj, Nat.add_right_comm, List.drop_succ_cons]

/-- A search is in vain when the needle stands nowhere. -/
theorem find_eq_none_iff : find needle hay = none ↔ ¬needle <:+: hay := by
  induction hay with
  | nil =>
    rw [find, List.infix_nil]
    split <;> simp [*]
  | cons c cs ih =>
    rw [find, List.infix_cons_iff, not_or, ← List.isPrefixOf_iff_prefix, ← ih]
    split <;> simp [*]

/-- More bytes do not move an occurrence that is already there. -/
theorem find_append (h : find needle u = some k) (w : Text) : find needle (u ++ w) = some k := by
  induction u generalizing k with
  | nil =>
    unfold find at h
    split at h
    · next hnil =>
      obtain rfl : 0 = k := Option.some.inj h
      cases w <;> simp [find, hnil]
    · cases h
  | cons c cs ih =>
    unfold find at h
    split at h
    · next hpre =>
      have hpre' : needle.isPrefixOf (c :: (cs ++ w)) :=
        List.isPrefixOf_iff_prefix.mpr
          ((List.isPrefixOf_iff_prefix.mp hpre).trans (List.prefix_append (c :: cs) w))
      rw [List.cons_append, find, if_pos hpre']
      exact h
    · next hpre =>
      obtain ⟨j, hj, rfl⟩ := Option.map_eq_some_iff.mp h
      have hlen := find_add_length_le hj
      -- the needle fits in `c :: cs`, so it cannot start at `c` only once `w` is there
      have hpre' : ¬needle.isPrefixOf (c :: (cs ++ w)) := by
        intro hw
        refine hpre (List.isPrefixOf_iff_prefix.mpr ?_)
        refine List.prefix_of_prefix_length_le (List.isPrefixOf_iff_prefix.mp hw)
          (List.prefix_append (c :: cs) w) ?_
        simp only [List.length_cons]
        omega
      rw [List.cons_append, find, if_neg hpre', ih hj]
      rfl

/-- A buffer that holds the whole occurrence finds it without the bytes after it. -/
theorem find_of_append (h : find needle (u ++ w) = some k) (hfit : k + needle.length ≤ u.length) :
    find needle u = some k := by
  induction u generalizing k with
  | nil =>
    rw [List.length_nil, Nat.le_zero, Nat.add_eq_zero_iff, List.length_eq_zero_iff] at hfit
    rw [find, if_pos hfit.2, hfit.1]
  | cons c cs ih =>
    rw [List.cons_append, find] at h
    by_cases hpre : needle.isPrefixOf (c :: (cs ++ w))
    · rw [if_pos hpre] at h
      obtain rfl : 0 = k := Option.some.inj h
      -- the needle fits into what is there already
      have hpre' : needle.isPrefixOf (c :: cs) :=
        List.isPrefixOf_iff_prefix.mpr (List.prefix_of_prefix_length_le
          (List.isPrefixOf_iff_prefix.mp hpre) (List.prefix_append (c :: cs) w)
          (by simpa using hfit))
      rw [find, if_pos hpre']
    · rw [if_neg hpre] at h
      obtain ⟨j, hj, rfl⟩ := Option.map_eq_some_iff.mp h
      have hpre' : ¬needle.isPrefixOf (c :: cs) := fun hcs =>
        hpre (List.isPrefixOf_iff_prefix.mpr
          ((List.isPrefixOf_iff_prefix.mp hcs).trans (List.prefix_append (c :: cs) w)))
      rw [find, if_neg hpre', ih hj (by simp only [List.length_cons] at hfit; omega)]
      rfl

/-- A buffer too short for the first occurrence finds none. -/
theorem find_eq_none_of_append (h : find needle (u ++ w) = some k)
    (hshort : u.length < k + needle.length) : find needle u = none := by
  cases hu : find needle u with
  | none => rfl
  | some j =>
    have hj := find_append hu w
    rw [h] at hj
    obtain rfl := Option.some.inj hj
    exact absurd (find_add_length_le hu) (not_le.mpr hshort)

/-- A needle stands at the start of what it begins. -/
theorem find_self_append (needle w : Text) : find needle (needle ++ w) = some 0 := by
  cases h : needle ++ w with
  | nil =>
    rw [find, if_pos (List.append_eq_nil_iff.mp h).1]
  | cons c cs =>
    have hpre : needle.isPrefixOf (c :: cs) :=
      List.isPrefixOf_iff_prefix.mpr (h ▸ List.prefix_append needle w)
    rw [find, if_pos hpre]

/-- The search skips a text without the needle's first character. -/
theorem find_append_of_notMem {c : Char} (h : c ∉ u) (w : Text) :
    find (c :: needle) (u ++ w) = (find (c :: needle) w).map (· + u.length) := by
  induction u with
  | nil => simp
  | cons d u ih =>
    rw [List.mem_cons, not_or] at h
    have hpre : ¬(c :: needle).isPrefixOf (d :: (u ++ w)) := by
      simp [List.isPrefixOf, h.1]
    rw [List.cons_append, find, if_neg hpre, ih h.2, Option.map_map]
    refine congrArg (fun f => Option.map f _) (funext fun k => ?_)
    simp [Nat.add_assoc]

/-- A text without the needle's first character does not hold it. -/
theorem find_eq_none_of_notMem {c : Char} (h : c ∉ u) : find (c :: needle) u = none := by
  have happend : find (c :: needle) (u ++ []) = none := by
    rw [find_append_of_notMem h]
    rfl
  rwa [List.append_nil] at happend

/-- A character is found where it stands for the first time. -/
theorem find_append_cons {c : Char} (h : c ∉ u) (w : Text) :
    find [c] (u ++ c :: w) = some u.length := by
  have hskip : find [c] (u ++ c :: w) = (find [c] (c :: w)).map (· + u.length) :=
    find_append_of_notMem h _
  rw [hskip, show c :: w = [c] ++ w from rfl, find_self_append]
  simp

/-- The last occurrence is searched in vain where there is none. -/
theorem rfind_eq_none_of_notMem {c : Char} (h : c ∉ u) : rfind c u = none := by
  induction u with
  | nil => rfl
  | cons d u ih =>
    rw [List.mem_cons, not_or] at h
    rw [rfind, ih h.2]
    exact if_neg (Ne.symm h.1)

/-- A character is found where it stands for the last time. -/
theorem rfind_append_cons {c : Char} (u : Text) (h : c ∉ w) :
    rfind c (u ++ c :: w) = some u.length := by
  induction u with
  | nil =>
    rw [List.nil_append, rfind, rfind_eq_none_of_notMem h]
    exact if_pos rfl
  | cons d u ih => rw [List.cons_append, rfind, ih, List.length_cons]

/-! ## Characters of one kind in front -/

variable {p : Char → Bool} {text : Text}

/-- The characters in front that satisfy `p`, and what follows them. -/
theorem span_eq_iff :
    text.span p = (u, w) ↔
      text = u ++ w ∧ (∀ c ∈ u, p c = true) ∧ ∀ c ∈ w.head?, p c = false := by
  rw [List.span_eq_takeWhile_dropWhile, Prod.mk.injEq]
  constructor
  · rintro ⟨rfl, rfl⟩
    refine ⟨List.takeWhile_append_dropWhile.symm, fun c hc => List.mem_takeWhile_imp hc, ?_⟩
    intro c hc
    have hnot := List.head?_dropWhile_not p text
    rw [Option.mem_def.mp hc] at hnot
    simpa using hnot
  · rintro ⟨rfl, hu, hw⟩
    rw [List.takeWhile_append_of_pos hu, List.dropWhile_append_of_pos hu]
    -- the first character of the rest stops both loops
    cases w with
    | nil => exact ⟨List.append_nil u, rfl⟩
    | cons c w =>
      have hc : ¬p c = true := by simp [hw c rfl]
      rw [List.takeWhile_cons_of_neg hc, List.dropWhile_cons_of_neg hc, List.append_nil]
      exact ⟨rfl, rfl⟩

/-- What is left behind the characters in front. -/
theorem dropWhile_append_of_head (hu : ∀ c ∈ u, p c = true) (hw : ∀ c ∈ w.head?, p c = false) :
    (u ++ w).dropWhile p = w := by
  have hspan : (u ++ w).span p = (u, w) := span_eq_iff.mpr ⟨rfl, hu, hw⟩
  rw [List.span_eq_takeWhile_dropWhile] at hspan
  exact (Prod.mk.inj hspan).2

/-- A text is characters that satisfy `p` in front of what is left. -/
theorem exists_append_dropWhile (p : Char → Bool) (text : Text) :
    ∃ u, text = u ++ text.dropWhile p ∧ (∀ c ∈ u, p c = true) ∧
      ∀ c ∈ (text.dropWhile p).head?, p c = false :=
  ⟨text.takeWhile p, span_eq_iff.mp (List.span_eq_takeWhile_dropWhile p text)⟩

end Text

end Dariyanaap

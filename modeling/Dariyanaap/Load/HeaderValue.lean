import Dariyanaap.Load.Lines

/-!
# The header that is found

`header_value` is a loop over positions, with a search that may fail and a step that may pass the
end of the headers. `Scan` is that loop turn by turn, without a bound on the turns: it ends from
every position, with one result (`scan_iff`). The result is the value of the first header line of
the name, and of no other text (`headerValue_spec`).
-/

namespace Dariyanaap

namespace Http

open Text

/-- The first of some lines that is a header line of the name has the value. -/
def FirstOf (name : Text) (lines : List Text) (value : Text) : Prop :=
  ∃ (before after : List Text) (line : Text), lines = before ++ line :: after ∧
    HeaderLine name line value ∧ ∀ other ∈ before, ∀ value, ¬HeaderLine name other value

/-- The loop of `header_value` from a position to its end. -/
inductive Scan (headers name : Text) : (lineBegins : ℕ) → Option Text → Prop
  /-- The position is past the end. -/
  | past {lineBegins : ℕ} : headers.length ≤ lineBegins → Scan headers name lineBegins none
  /-- The line has the name. -/
  | found {lineBegins lineEnds : ℕ} {value : Text} :
      lineBegins < headers.length →
        (findFrom crlf headers lineBegins).getD headers.length = lineEnds →
          lineValue name ((headers.drop lineBegins).take (lineEnds - lineBegins)) = some value →
            Scan headers name lineBegins (some value)
  /-- The line has another name, or none. -/
  | next {lineBegins lineEnds : ℕ} {result : Option Text} :
      lineBegins < headers.length →
        (findFrom crlf headers lineBegins).getD headers.length = lineEnds →
          lineValue name ((headers.drop lineBegins).take (lineEnds - lineBegins)) = none →
            Scan headers name (lineEnds + 2) result → Scan headers name lineBegins result

section Scanning

variable {headers name : Text} {lineBegins : ℕ} {result : Option Text}

/-- No line ends before it begins. -/
theorem le_lineEnds (hin : lineBegins < headers.length) :
    lineBegins ≤ (findFrom crlf headers lineBegins).getD headers.length := by
  rw [findFrom]
  cases find crlf (headers.drop lineBegins) with
  | none => exact hin.le
  | some k => exact Nat.le_add_left _ _

/-- With turns enough the loop comes to its end. -/
theorem scan_headerLines {fuel : ℕ} (hfuel : headers.length - lineBegins ≤ fuel) :
    Scan headers name lineBegins (headerLines headers name fuel lineBegins) := by
  induction fuel generalizing lineBegins with
  | zero => exact .past (by omega)
  | succ fuel ih =>
    by_cases hin : lineBegins < headers.length
    · have hends := le_lineEnds hin
      rw [headerLines_turn hin rfl rfl]
      cases hvalue : lineValue name ((headers.drop lineBegins).take
          ((findFrom crlf headers lineBegins).getD headers.length - lineBegins)) with
      | none => exact .next hin rfl hvalue (ih (by omega))
      | some value => exact .found hin rfl hvalue
    · rw [headerLines_of_length_le _ _ _ (not_lt.mp hin)]
      exact .past (not_lt.mp hin)

/-- The loop has one result. -/
theorem Scan.unique {other : Option Text} (h : Scan headers name lineBegins result)
    (hother : Scan headers name lineBegins other) : result = other := by
  induction h with
  | past hpast =>
    cases hother with
    | past => rfl
    | found hin => exact absurd hin (not_lt.mpr hpast)
    | next hin => exact absurd hin (not_lt.mpr hpast)
  | found hin hends hvalue =>
    cases hother with
    | past hpast => exact absurd hin (not_lt.mpr hpast)
    | found _ hends' hvalue' =>
      subst hends hends'
      exact hvalue.symm.trans hvalue'
    | next _ hends' hvalue' =>
      subst hends hends'
      cases hvalue.symm.trans hvalue'
  | next hin hends hvalue _ ih =>
    cases hother with
    | past hpast => exact absurd hin (not_lt.mpr hpast)
    | found _ hends' hvalue' =>
      subst hends hends'
      cases hvalue.symm.trans hvalue'
    | next _ hends' _ hrest =>
      subst hends hends'
      exact ih hrest

/-- The loop ends after the first line, with what `header_value` returns. -/
theorem scan_iff {k : ℕ} (hfind : find crlf headers = some k) :
    Scan headers name (k + 2) result ↔ result = headerValue headers name := by
  have hscan : Scan headers name (k + 2) (headerValue headers name) := by
    rw [headerValue, hfind]
    exact scan_headerLines (Nat.sub_le _ _)
  constructor
  · intro h
    exact h.unique hscan
  · rintro rfl
    exact hscan

end Scanning

/-- The search for the first line of a name. -/
theorem findSome?_lineValue_eq_some_iff (name : Text) (lines : List Text) (value : Text) :
    lines.findSome? (lineValue name) = some value ↔ FirstOf name lines value := by
  rw [List.findSome?_eq_some_iff]
  constructor
  · rintro ⟨before, line, after, rfl, hline, hbefore⟩
    refine ⟨before, after, line, rfl, (lineValue_eq_some_iff _ _ _).mp hline, ?_⟩
    intro other hother value hvalue
    have hnone := hbefore other hother
    rw [(lineValue_eq_some_iff _ _ _).mpr hvalue] at hnone
    cases hnone
  · rintro ⟨before, after, line, rfl, hline, hbefore⟩
    refine ⟨before, line, after, rfl, (lineValue_eq_some_iff _ _ _).mpr hline, ?_⟩
    intro other hother
    rw [Option.eq_none_iff_forall_ne_some]
    exact fun value hvalue => hbefore other hother value ((lineValue_eq_some_iff _ _ _).mp hvalue)

/-- Any bytes are lines with line ends between them, in one way, a first line and others. The loop
of `header_value` comes to an end, and its result is the value of the first of the others that is a
header line of the name, if there is one. -/
theorem headerValue_spec (headers name : Text) :
    (∀ k, find crlf headers = some k →
        ∀ result, Scan headers name (k + 2) result ↔ result = headerValue headers name) ∧
      ∃ (first : Text) (lines : List Text),
        (∀ cut, cut ≠ [] ∧ joinLines cut = headers ∧ (∀ line ∈ cut, ¬crlf <:+: line) ↔
          cut = first :: lines) ∧
        (∀ value, headerValue headers name = some value ↔ FirstOf name lines value) ∧
        (headerValue headers name = none ↔
          ∀ line ∈ lines, ∀ value, ¬HeaderLine name line value) := by
  obtain ⟨first, lines, hsplit⟩ := List.exists_cons_of_ne_nil (splitLines_ne_nil headers)
  have hsearch : headerValue headers name = lines.findSome? (lineValue name) := by
    rw [headerValue_eq_findSome?, headerLinesOf, hsplit, List.tail_cons]
  refine ⟨fun k hk result => scan_iff hk, first, lines, fun cut => ?_, fun value => ?_, ?_⟩
  · rw [← splitLines_eq_iff, hsplit]
    exact eq_comm
  · rw [hsearch]
    exact findSome?_lineValue_eq_some_iff name lines value
  · rw [hsearch]
    exact findSome?_lineValue_eq_none_iff name lines

/-- A first line that looks like a header of the name, a header whose name ends in it, and the one
that is found. -/
theorem headerValue_spec_third_line :
    Scan "s: 1\r\nX-S: s: 2\r\nS:\t3 ".toList "s".toList 6 (some ['3']) :=
  ((headerValue_spec _ _).1 4 (by decide +kernel) _).mpr (by decide +kernel)

end Http

end Dariyanaap

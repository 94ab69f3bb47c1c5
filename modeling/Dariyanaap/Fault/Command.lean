import Dariyanaap.Fault.Knobs
import Mathlib.Algebra.Field.Rat

/-!
# Fault commands

`apply_command` (`fault/knobs.cpp`): one line of the control socket, split into words, read and
applied. Numbers are read as an `istringstream` reads them in the C locale, and a text the
extraction fails on or does not use up is refused.

`applyCommand_state` names the one thing a line asks for (`request`), which is all that
reasoning about the knobs needs to know about a command.
-/

namespace Dariyanaap

namespace Fault

/-! ## Reading a line -/

/-- The loop of `split_on`, with the word read so far and the words before it. -/
def splitLoop (separator : Char) : Text → (current : Text) → (parts : List Text) → List Text
  | [], current, parts => if current = [] then parts else parts ++ [current]
  | c :: rest, current, parts =>
      if c = separator then
        splitLoop separator rest [] (if current = [] then parts else parts ++ [current])
      else splitLoop separator rest (current ++ [c]) parts

/-- `split_on`. -/
def splitOn (text : Text) (separator : Char) : List Text := splitLoop separator text [] []

section Splitting

variable {separator : Char} {text piece : Text}

/-- What stands between separators is made of the other characters of the text. -/
theorem mem_of_mem_splitOn (h : piece ∈ text.splitOn separator) :
    ∀ c ∈ piece, c ∈ text ∧ c ≠ separator := by
  induction text generalizing piece with
  | nil =>
    rw [List.splitOn_nil, List.mem_singleton] at h
    rw [h]
    exact List.forall_mem_nil _
  | cons d text ih =>
    have hlater : ∀ piece ∈ text.splitOn separator, ∀ c ∈ piece,
        c ∈ d :: text ∧ c ≠ separator := fun piece hpiece c hc =>
      ⟨List.mem_cons_of_mem _ (ih hpiece c hc).1, (ih hpiece c hc).2⟩
    rw [List.splitOn_cons_eq_if_modifyHead] at h
    split at h
    · rcases List.mem_cons.mp h with rfl | h
      · exact List.forall_mem_nil _
      · exact hlater _ h
    next hd =>
    -- the character goes in front of the first piece
    obtain ⟨first, rest, hpieces⟩ :=
      List.exists_cons_of_ne_nil (List.splitOn_ne_nil separator text)
    rw [hpieces, List.modifyHead_cons] at h
    rw [hpieces, List.forall_mem_cons] at hlater
    rcases List.mem_cons.mp h with rfl | h
    · exact List.forall_mem_cons.mpr ⟨⟨List.mem_cons_self, by simpa using hd⟩, hlater.1⟩
    · exact hlater.2 _ h

/-- No piece between separators holds one. -/
theorem notMem_of_mem_splitOn (h : piece ∈ text.splitOn separator) : separator ∉ piece :=
  fun hmem => (mem_of_mem_splitOn h _ hmem).2 rfl

/-- The loop of `split_on` keeps the pieces that are not empty. -/
theorem splitLoop_eq (separator : Char) (text current : Text) (parts : List Text) :
    splitLoop separator text current parts = parts ++
      ((text.splitOn separator).modifyHead (current ++ ·)).filter fun word => word ≠ [] := by
  induction text generalizing current parts with
  | nil =>
    rw [splitLoop, List.splitOn_nil, List.modifyHead_cons, List.append_nil]
    by_cases hcurrent : current = []
    · simp [hcurrent]
    · simp [hcurrent]
  | cons c text ih =>
    obtain ⟨first, rest, hpieces⟩ :=
      List.exists_cons_of_ne_nil (List.splitOn_ne_nil separator text)
    rw [splitLoop, List.splitOn_cons_eq_if_modifyHead]
    by_cases hc : c = separator
    · -- the word read so far is kept unless it is empty
      rw [if_pos hc, ih, if_pos (beq_iff_eq.mpr hc)]
      by_cases hcurrent : current = []
      · simp [hcurrent, hpieces]
      · simp [hcurrent, hpieces]
    · rw [if_neg hc, ih, if_neg fun h => hc (beq_iff_eq.mp h), hpieces]
      simp

/-- `split_on` returns what stands between the separators, without the empty pieces. -/
theorem splitOn_eq_filter (text : Text) (separator : Char) :
    splitOn text separator = (text.splitOn separator).filter fun word => word ≠ [] := by
  obtain ⟨first, rest, hpieces⟩ :=
    List.exists_cons_of_ne_nil (List.splitOn_ne_nil separator text)
  rw [splitOn, splitLoop_eq, hpieces]
  simp

/-- When nothing is missing between the separators, nothing is dropped. -/
theorem splitOn_eq_of_notMem (h : [] ∉ text.splitOn separator) :
    splitOn text separator = text.splitOn separator := by
  rw [splitOn_eq_filter]
  refine List.filter_eq_self.mpr fun word hword => decide_eq_true ?_
  rintro rfl
  exact h hword

end Splitting

/-- `isspace` of the C locale. -/
def isSpace (c : Char) : Bool := c == ' ' || (decide ('\t' ≤ c) && decide (c ≤ '\r'))

/-- The optional sign of a number, and what follows it. -/
def readSign : Text → Bool × Text
  | '-' :: rest => (true, rest)
  | '+' :: rest => (false, rest)
  | text => (false, text)

/-- The value of some digits. -/
def digitsValue (digits : Text) : ℕ :=
  digits.foldl (fun value c => value * 10 + (c.toNat - '0'.toNat)) 0

/-- A number with its sign. -/
def signed (negative : Bool) (value : ℕ) : ℤ := if negative then -value else value

/-- `in >> value` for a `long long`, if it uses up the text and stays in range. -/
def extractInteger (text : Text) : Option ℤ :=
  let (negative, digits) := readSign (text.dropWhile isSpace)
  if digits = [] ∨ ¬digits.all Char.isDigit then none
  else
    let value := signed negative (digitsValue digits)
    if -2 ^ 63 ≤ value ∧ value < 2 ^ 63 then some value else none

/-- The exponent after the digits of a `double`, zero if there is none. -/
def extractExponent : Text → Option ℤ
  | [] => some 0
  | c :: rest =>
      let (negative, digits) := readSign rest
      if (c = 'e' ∨ c = 'E') ∧ digits ≠ [] ∧ digits.all Char.isDigit then
        some (signed negative (digitsValue digits))
      else none

/-- The digits after the point of a `double`, and what follows them. -/
def readFraction : Text → Text × Text
  | '.' :: rest => rest.span Char.isDigit
  | text => ([], text)

/-- `in >> value` for a `double`, if it uses up the text and stays in range. -/
def extractDouble (fl : Rounding) (text : Text) : Option Double :=
  let (negative, magnitude) := readSign (text.dropWhile isSpace)
  let (whole, afterWhole) := magnitude.span Char.isDigit
  let (fraction, afterFraction) := readFraction afterWhole
  if whole = [] ∧ fraction = [] then none
  else
    match extractExponent afterFraction with
    | none => none
    | some exponent =>
        -- the digits are one integer, scaled by the exponent and the place of the point
        let value : ℚ := signed negative (digitsValue (whole ++ fraction)) *
          10 ^ (exponent - fraction.length)
        if 2 ^ 1024 - 2 ^ 970 ≤ |value| then none else some (.finite (fl value))

/-- `as_millis`. -/
def asMillis (text what : Text) : Effect Millis :=
  match extractInteger text with
  | some value => pure value
  | none =>
      throw ⟨what ++ " must be a whole number of ms, got \"".toList ++ text ++ "\"".toList⟩

/-- `as_probability`. -/
def asProbability (fl : Rounding) (text what : Text) : Effect Double :=
  match extractDouble fl text with
  | some value => pure value
  | none => throw ⟨what ++ " must be a number, got \"".toList ++ text ++ "\"".toList⟩

/-! ## Applying a line -/

/-- The `expect` of `apply_command`. -/
def expect (verb : Text) (words : List Text) (count : ℕ) : Effect Unit :=
  if words.length = count + 1 then pure ()
  else throw ⟨verb ++ " takes ".toList ++ (toString count).toList ++ " argument(s)".toList⟩

/-- How a command says yes. -/
def saysYes (word : Text) : Bool := word == "1".toList || word == "true".toList

/-- `apply_command`. The arguments of `set_latency` are read from left to right. -/
def applyCommand (fl : Rounding) (line : Text) : Effect Text := do
  let words := splitOn line ' '
  match words with
  | [] => throw ⟨"empty command".toList⟩
  | verb :: args =>
      if verb = "latency".toList then
        expect verb words 2
        let mean ← asMillis (args.getD 0 []) "latency".toList
        let jitter ← asMillis (args.getD 1 []) "jitter".toList
        setLatency mean jitter
        return "ok".toList
      else if verb = "drop".toList then
        expect verb words 1
        let probability ← asProbability fl (args.getD 0 []) "drop".toList
        setDropProbability fl probability
        return "ok".toList
      else if verb = "hang".toList then
        expect verb words 1
        setHangForever (saysYes (args.getD 0 []))
        return "ok".toList
      else if verb = "identity".toList then
        expect verb words 1
        setIdentity (args.getD 0 [])
        return "ok".toList
      else if verb = "partition".toList then
        expect verb words 2
        partition (args.getD 0 []) (args.getD 1 [])
        return "ok".toList
      else if verb = "heal".toList then
        expect verb words 2
        heal (args.getD 0 []) (args.getD 1 [])
        return "ok".toList
      else if verb = "clear".toList then
        expect verb words 0
        clear
        return "ok".toList
      else if verb = "status".toList then
        expect verb words 0
        return if (← get).any then "faults active".toList else "no faults".toList
      else
        throw ⟨"unknown command \"".toList ++ verb ++
          "\"; try latency, drop, hang, identity, partition, heal, clear, status".toList⟩

/-- What a line asks for: a setter, a new identity, or nothing that changes a knob. -/
inductive Request where
  | setter (s : Setter)
  | identity (name : Text)
  | nothing

/-- The request of a line, if its words and numbers can be read. -/
def request (fl : Rounding) (line : Text) : Request :=
  match splitOn line ' ' with
  | [] => .nothing
  | verb :: args =>
      if verb = "latency".toList then
        match args with
        | [mean, jitter] =>
            match extractInteger mean, extractInteger jitter with
            | some mean, some jitter => .setter (.setLatency mean jitter)
            | _, _ => .nothing
        | _ => .nothing
      else if verb = "drop".toList then
        match args with
        | [probability] =>
            match extractDouble fl probability with
            | some probability => .setter (.setDropProbability probability)
            | none => .nothing
        | _ => .nothing
      else if verb = "hang".toList then
        match args with
        | [hanging] => .setter (.setHangForever (saysYes hanging))
        | _ => .nothing
      else if verb = "identity".toList then
        match args with
        | [name] => .identity name
        | _ => .nothing
      else if verb = "partition".toList then
        match args with
        | [a, b] => .setter (.partition a b)
        | _ => .nothing
      else if verb = "heal".toList then
        match args with
        | [a, b] => .setter (.heal a b)
        | _ => .nothing
      else if verb = "clear".toList then
        match args with
        | [] => .setter .clear
        | _ => .nothing
      else .nothing

/-- The knobs after a request. -/
def Request.apply (fl : Rounding) (k : Knobs) : Request → Knobs
  | setter s => ((s.call fl).run.run k).2
  | identity name => { k with identity := name }
  | nothing => k

/-- A computation that goes on leaves the knobs where its second half does; one that throws
leaves them where it threw. -/
theorem bind_state {α β : Type} (m : Effect α) (next : α → Effect β) (k : Knobs) :
    ((m >>= next).run.run k).2 =
      match m.run.run k with
      | (.ok a, k') => ((next a).run.run k').2
      | (.error _, k') => k' := by
  rw [ExceptT.run_bind, StateT.run_bind]
  rcases m.run.run k with ⟨_ | a, k'⟩ <;> rfl

/-- A command with another number of arguments throws before it touches a knob. -/
theorem expect_state {α : Type} (verb : Text) (words : List Text) (count : ℕ)
    (next : Unit → Effect α) (k : Knobs) :
    ((expect verb words count >>= next).run.run k).2 =
      if words.length = count + 1 then ((next ()).run.run k).2 else k := by
  unfold expect
  by_cases hcount : words.length = count + 1
  · rw [if_pos hcount, if_pos hcount]
    rfl
  · rw [if_neg hcount, if_neg hcount]
    rfl

/-- What a command answers does not change the knobs. -/
theorem answer_state {α β : Type} (m : Effect α) (b : β) (k : Knobs) :
    ((m >>= fun _ => pure b).run.run k).2 = (m.run.run k).2 := by
  rw [bind_state]
  rcases m.run.run k with ⟨_ | a, k'⟩ <;> rfl

/-- A duration that cannot be read throws before it touches a knob. -/
theorem asMillis_state {α : Type} (text what : Text) (next : Millis → Effect α) (k : Knobs) :
    ((asMillis text what >>= next).run.run k).2 =
      match extractInteger text with
      | some value => ((next value).run.run k).2
      | none => k := by
  unfold asMillis
  cases extractInteger text <;> rfl

/-- A probability that cannot be read throws before it touches a knob. -/
theorem asProbability_state {α : Type} (fl : Rounding) (text what : Text)
    (next : Double → Effect α) (k : Knobs) :
    ((asProbability fl text what >>= next).run.run k).2 =
      match extractDouble fl text with
      | some value => ((next value).run.run k).2
      | none => k := by
  unfold asProbability
  cases extractDouble fl text <;> rfl

/-- A branch of the command and the same branch of the request. -/
theorem branch_state {fl : Rounding} {k : Knobs} {verb word : Text} {yes no : Effect Text}
    {asked other : Request} (hyes : (yes.run.run k).2 = asked.apply fl k)
    (hno : (no.run.run k).2 = other.apply fl k) :
    ((if verb = word then yes else no).run.run k).2 =
      (if verb = word then asked else other).apply fl k := by
  by_cases hverb : verb = word
  · rw [if_pos hverb, if_pos hverb, hyes]
  · rw [if_neg hverb, if_neg hverb, hno]

/-- A command of no argument, and its request. -/
theorem none_state {fl : Rounding} {k : Knobs} {verb : Text} {args : List Text}
    {next : Unit → Effect Text} {asked : Request}
    (h : args = [] → ((next ()).run.run k).2 = asked.apply fl k) :
    ((expect verb (verb :: args) 0 >>= next).run.run k).2 =
      (match args with
        | [] => asked
        | _ => .nothing).apply fl k := by
  rw [expect_state]
  rcases args with _ | ⟨extra, rest⟩
  · exact (if_pos rfl).trans (h rfl)
  · exact if_neg (by simp)

/-- A command of one argument, and its request. -/
theorem one_state {fl : Rounding} {k : Knobs} {verb : Text} {args : List Text}
    {next : Unit → Effect Text} {asked : Text → Request}
    (h : ∀ a, args = [a] → ((next ()).run.run k).2 = (asked a).apply fl k) :
    ((expect verb (verb :: args) 1 >>= next).run.run k).2 =
      (match args with
        | [a] => asked a
        | _ => .nothing).apply fl k := by
  rw [expect_state]
  rcases args with _ | ⟨a, _ | ⟨extra, rest⟩⟩
  · rfl
  · exact (if_pos rfl).trans (h a rfl)
  · exact if_neg (by simp)

/-- A command of two arguments, and its request. -/
theorem two_state {fl : Rounding} {k : Knobs} {verb : Text} {args : List Text}
    {next : Unit → Effect Text} {asked : Text → Text → Request}
    (h : ∀ a b, args = [a, b] → ((next ()).run.run k).2 = (asked a b).apply fl k) :
    ((expect verb (verb :: args) 2 >>= next).run.run k).2 =
      (match args with
        | [a, b] => asked a b
        | _ => .nothing).apply fl k := by
  rw [expect_state]
  rcases args with _ | ⟨a, _ | ⟨b, _ | ⟨extra, rest⟩⟩⟩
  · rfl
  · rfl
  · exact (if_pos rfl).trans (h a b rfl)
  · exact if_neg (by simp)

/-- The knobs after a line are those after its request, whether it throws or not. -/
theorem applyCommand_state (fl : Rounding) (line : Text) (k : Knobs) :
    ((applyCommand fl line).run.run k).2 = (request fl line).apply fl k := by
  unfold applyCommand request
  rcases splitOn line ' ' with _ | ⟨verb, args⟩
  · rfl
  -- one case for each verb; within a case, the number of arguments decides
  refine branch_state (two_state ?latency) <| branch_state (one_state ?drop) <|
    branch_state (one_state ?hang) <| branch_state (one_state ?identity) <|
    branch_state (two_state ?partition) <| branch_state (two_state ?heal) <|
    branch_state (none_state ?clear) ?status
  case latency =>
    rintro mean jitter rfl
    -- both numbers are read before the setter is called
    simp only [List.getD_cons_zero, List.getD_cons_succ]
    rw [asMillis_state]
    cases extractInteger mean with
    | none => rfl
    | some mean =>
      dsimp only
      rw [asMillis_state]
      cases extractInteger jitter with
      | none => rfl
      | some jitter => exact answer_state _ _ k
  case drop =>
    rintro probability rfl
    rw [asProbability_state]
    simp only [List.getD_cons_zero]
    cases extractDouble fl probability with
    | none => rfl
    | some probability => exact answer_state _ _ k
  case hang =>
    rintro hanging rfl
    exact answer_state _ _ k
  case identity =>
    rintro name rfl
    rfl
  case partition | heal =>
    rintro a b rfl
    exact answer_state _ _ k
  case clear => exact fun _ => rfl
  case status =>
    -- the last verb and an unknown one change nothing
    by_cases hstatus : verb = "status".toList
    · rw [if_pos hstatus, expect_state]
      split
      · rfl
      · rfl
    · rw [if_neg hstatus]
      rfl

end Fault

end Dariyanaap

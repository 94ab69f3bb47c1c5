import Dariyanaap.Fault.Command
import Dariyanaap.Library.BoundedNumeral

/-!
# Command-line flags

`Flags` (`core/flags.hpp`, `core/flags.cpp`): pairs of a name and a value, and three ways to read
a value. Reading a number never goes past what 64 bits hold (`number_le`).
-/

namespace Dariyanaap

/-- `Flags`: the given values, the last one first. -/
structure Flags where
  values : List (Text × Text) := []
  deriving DecidableEq

namespace Flags

/-- `Flags::wants_help`, of the arguments after the program's name. -/
def wantsHelp (args : List Text) : Bool :=
  args.any fun argument => argument == "--help".toList || argument == "-h".toList

/-- The name of a flag that is accepted. -/
def flagName (known : List Text) (argument : Text) : Except UsageError Text :=
  if ¬"--".toList.isPrefixOf argument then
    .error ⟨"expected a --flag, got \"".toList ++ argument ++ "\"".toList⟩
  else
    let name := argument.drop 2
    if name = [] then .error ⟨"\"--\" is not a flag name".toList⟩
    else if name ∉ known then
      .error ⟨"unknown flag --".toList ++ name ++ "; accepted flags are".toList ++
        known.flatMap fun accepted => " --".toList ++ accepted⟩
    else .ok name

/-- The loop of `Flags::parse`. -/
def parseFrom (known : List Text) : List Text → Flags → Except UsageError Flags
  | [], flags => .ok flags
  | [argument], _ => do
      -- the name is checked before the missing value
      let name ← flagName known argument
      throw ⟨"--".toList ++ name ++ " needs a value".toList⟩
  | argument :: value :: rest, flags => do
      let name ← flagName known argument
      parseFrom known rest { flags with values := (name, value) :: flags.values }

/-- `Flags::parse`, of the arguments after the program's name. -/
def parse (args known : List Text) : Except UsageError Flags := parseFrom known args {}

/-- `Flags::has`. -/
def has (flags : Flags) (name : Text) : Bool := (flags.values.lookup name).isSome

/-- `Flags::text`. -/
def text (flags : Flags) (name fallback : Text) : Text := (flags.values.lookup name).getD fallback

/-- `Flags::all`, as the map it is. -/
def all (flags : Flags) (name : Text) : Option Text := flags.values.lookup name

/-- The digit loop of `Flags::number`, with the test that keeps it inside 64 bits. -/
def numberDigits (name value : Text) : Text → (parsed : ℕ) → Except UsageError ℕ
  | [], parsed => .ok parsed
  | digit :: rest, parsed =>
      if ¬digit.isDigit then
        .error ⟨"--".toList ++ name ++ " must be a whole number, got \"".toList ++ value ++
          "\"".toList⟩
      else if (uint64Max - (digit.toNat - '0'.toNat)) / 10 < parsed then
        .error ⟨"--".toList ++ name ++ " is too large: \"".toList ++ value ++ "\"".toList⟩
      else numberDigits name value rest (parsed * 10 + (digit.toNat - '0'.toNat))

/-- `Flags::number`. -/
def number (flags : Flags) (name : Text) (fallback : ℕ) : Except UsageError ℕ :=
  match flags.values.lookup name with
  | none => .ok fallback
  | some value =>
      if value = [] then
        .error ⟨"--".toList ++ name ++ " needs a number, got an empty value".toList⟩
      else numberDigits name value value 0

/-- `Flags::real`. What the extraction gives is finite. -/
def real (fl : Rounding) (flags : Flags) (name : Text) (fallback : ℚ) : Except UsageError Double :=
  match flags.values.lookup name with
  | none => .ok (.finite fallback)
  | some value =>
      match Fault.extractDouble fl value with
      | some (.finite parsed) => .ok (.finite parsed)
      | _ =>
          .error ⟨"--".toList ++ name ++ " must be a number, got \"".toList ++ value ++ "\"".toList⟩

section Digits

variable {flags : Flags} {name value digits : Text} {fallback parsed n : ℕ}

/-- The digit loop of `number` reads digits only. -/
theorem isDigit_of_numberDigits (h : numberDigits name value digits parsed = .ok n) :
    ∀ c ∈ digits, c.isDigit = true := by
  induction digits generalizing parsed with
  | nil => exact List.forall_mem_nil _
  | cons digit rest ih =>
    rw [numberDigits] at h
    split_ifs at h with hdigit hlarge
    exact List.forall_mem_cons.mpr ⟨hdigit, ih h⟩

/-- On digits it is the loop that reads a numeral of 64 bits. -/
theorem numberDigits_toOption (hdigits : ∀ c ∈ digits, c.isDigit = true) :
    (numberDigits name value digits parsed).toOption =
      BoundedNumeral.accumulate 10 uint64Max (digits.map fun c => c.toNat - '0'.toNat) parsed := by
  induction digits generalizing parsed with
  | nil => rfl
  | cons digit rest ih =>
    obtain ⟨hdigit, hrest⟩ := List.forall_mem_cons.mp hdigits
    rw [numberDigits, if_neg (not_not.mpr hdigit), List.map_cons, BoundedNumeral.accumulate]
    split
    · rfl
    · exact ih hrest

/-- The digit loop of `number` reads exactly the numbers of 64 bits. -/
theorem numberDigits_eq_ok_iff (hparsed : parsed ≤ uint64Max) :
    numberDigits name value digits parsed = .ok n ↔
      (∀ c ∈ digits, c.isDigit = true) ∧ Nat.ofDigitChars 10 digits parsed = n ∧
        n ≤ uint64Max := by
  by_cases hdigits : ∀ c ∈ digits, c.isDigit = true
  · have hsingle : ∀ d ∈ digits.map fun c => c.toNat - '0'.toNat, d ≤ uint64Max :=
      List.forall_mem_map.mpr fun c hc =>
        (BoundedNumeral.digit_le (hdigits c hc)).trans (by decide)
    have hloop : (numberDigits name value digits parsed).toOption = some n ↔
        Nat.ofDigitChars 10 digits parsed = n ∧ n ≤ uint64Max := by
      rw [numberDigits_toOption hdigits, ← BoundedNumeral.value_digits]
      exact BoundedNumeral.accumulate_eq_some_iff (by decide) hsingle hparsed
    rw [and_iff_right hdigits, ← hloop]
    cases numberDigits name value digits parsed with
    | ok m => simp [Except.toOption]
    | error e => simp [Except.toOption]
  · exact iff_of_false (mt isDigit_of_numberDigits hdigits) fun h => hdigits h.1

/-- `number` on a flag that is given. -/
theorem number_eq_ok_iff (hvalue : flags.all name = some value) :
    flags.number name fallback = .ok n ↔
      value ≠ [] ∧ (∀ c ∈ value, c.isDigit = true) ∧ Nat.ofDigitChars 10 value 0 = n ∧
        n ≤ uint64Max := by
  rw [all] at hvalue
  rw [number, hvalue]
  dsimp only
  by_cases hnil : value = []
  · rw [if_pos hnil]
    exact iff_of_false (by simp) fun h => h.1 hnil
  · rw [if_neg hnil, numberDigits_eq_ok_iff (Nat.zero_le _), and_iff_right hnil]

/-- A number fits 64 bits. -/
theorem number_le (hfallback : fallback ≤ uint64Max) (h : flags.number name fallback = .ok n) :
    n ≤ uint64Max := by
  cases hvalue : flags.all name with
  | none =>
    rw [all] at hvalue
    rw [number, hvalue] at h
    obtain rfl : fallback = n := Except.ok.inj h
    exact hfallback
  | some value => exact ((number_eq_ok_iff hvalue).mp h).2.2.2

end Digits

end Flags

end Dariyanaap

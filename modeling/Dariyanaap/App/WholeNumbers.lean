import Dariyanaap.App.Flags
import Dariyanaap.Load.ContentLength
import Dariyanaap.Load.HeaderValue

/-!
# Whole numbers of 64 bits

`Flags::number` (`core/flags.cpp`) and `http::content_length` (`load/http.cpp`) read a decimal
number digit by digit, and compare before each multiplication. Both accept the same texts: the
whole numbers of 64 bits, with any number of leading zeros (`readers_exact`). Nothing else is read
as a number, and no arithmetic on the way wraps.
-/

namespace Dariyanaap

open Text Http

/-- The text is a whole number of 64 bits in decimal digits. -/
def Whole64 (text : Text) (n : ℕ) : Prop :=
  text ≠ [] ∧ (∀ c ∈ text, c.isDigit = true) ∧ Nat.ofDigitChars 10 text 0 = n ∧ n ≤ 2 ^ 64 - 1

instance (text : Text) (n : ℕ) : Decidable (Whole64 text n) :=
  have : Decidable (∀ c ∈ text, c.isDigit = true) := List.decidableBAll _ text
  inferInstanceAs (Decidable (_ ∧ _ ∧ _ ∧ _))

/-- What a digit loop computes in 64 bits in one turn: the number read so far, the room above the
digit, and if the number passes the test, the product and the sum. -/
structure TurnFits (read digit : ℕ) : Prop where
  reached : read ≤ 2 ^ 64 - 1
  room : digit ≤ 2 ^ 64 - 1
  product : ¬(2 ^ 64 - 1 - digit) / 10 < read → read * 10 ≤ 2 ^ 64 - 1
  sum : ¬(2 ^ 64 - 1 - digit) / 10 < read → read * 10 + digit ≤ 2 ^ 64 - 1

/-- The test is made for what follows it. -/
theorem turnFits {read digit : ℕ} (hread : read ≤ 2 ^ 64 - 1) (hdigit : digit ≤ 9) :
    TurnFits read digit := by
  have hroom : digit ≤ 2 ^ 64 - 1 := hdigit.trans (by decide)
  have hguard : ¬(2 ^ 64 - 1 - digit) / 10 < read → read * 10 + digit ≤ 2 ^ 64 - 1 :=
    (BoundedNumeral.guard_iff (by decide : 0 < 10) hroom).mp
  exact ⟨hread, hroom, fun hpassed => (Nat.le_add_right _ _).trans (hguard hpassed), hguard⟩

/-- What `content_length` takes for a number. -/
theorem decimal_iff (text : Text) (n : ℕ) :
    Decimal text n ∧ n ≤ uint64Max ↔ Whole64 text n := by
  have hvalue : text.foldl (fun value c => value * 10 + digitValue c) 0 =
      Nat.ofDigitChars 10 text 0 := by
    rw [← BoundedNumeral.value_digits, BoundedNumeral.value, List.foldl_map]
    rfl
  simp only [Decimal, Whole64, isDigit_eq, hvalue, and_assoc]
  rfl

/-- `Flags::number` on a flag that is given and `content_length` on a header that is there read the
whole numbers of 64 bits, and refuse every other text. No turn of their loops leaves 64 bits. -/
theorem readers_exact :
    (∀ (flags : Flags) (name : Text) (fallback : ℕ) (text : Text), flags.all name = some text →
        (∀ n, flags.number name fallback = .ok n ↔ Whole64 text n) ∧
          ((∀ n, ¬Whole64 text n) → ∃ e, flags.number name fallback = .error e)) ∧
      (∀ headers text : Text, FirstOf "content-length".toList (headerLinesOf headers) text →
        (∀ n, contentLength headers = some n ↔ Whole64 text n) ∧
          ((∀ n, ¬Whole64 text n) → contentLength headers = none)) ∧
      (∀ (name value seen : Text) (c : Char) (parsed : ℕ),
        Flags.numberDigits name value seen 0 = .ok parsed → c.isDigit = true →
          TurnFits parsed (c.toNat - '0'.toNat)) ∧
      ∀ (seen : Text) (c : Char) (length : ℕ), contentLengthDigits seen 0 = some length →
        Http.isDigit c = true → TurnFits length (digitValue c) := by
  refine ⟨fun flags name fallback text htext => ?_, fun headers text htext => ?_, ?_, ?_⟩
  · have hread : ∀ n, flags.number name fallback = .ok n ↔ Whole64 text n := fun n =>
      Flags.number_eq_ok_iff htext
    exact ⟨hread, fun hnone => exists_error fun n hn => hnone n ((hread n).mp hn)⟩
  · have hread : ∀ n, contentLength headers = some n ↔ Whole64 text n := by
      intro n
      rw [← findSome?_lineValue_eq_some_iff, ← headerValue_eq_findSome?, headerValue_eq] at htext
      rw [contentLength_eq_some_iff, DeclaresLength, htext, ← decimal_iff]
      simp
    refine ⟨hread, fun hnone => Option.eq_none_iff_forall_ne_some.mpr fun n hn => ?_⟩
    exact hnone n ((hread n).mp hn)
  · intro name value seen c parsed hparsed hc
    exact turnFits ((Flags.numberDigits_eq_ok_iff (Nat.zero_le _)).mp hparsed).2.2
      (BoundedNumeral.digit_le hc)
  · intro seen c length hlength hc
    exact turnFits ((contentLengthDigits_eq_some_iff (Nat.zero_le _)).mp hlength).2.2
      (digitValue_le hc)

/-- The largest number, with leading zeros and as a length, and the one after it. -/
theorem readers_exact_largest :
    Flags.number ⟨[("rate".toList, "0018446744073709551615".toList)]⟩ "rate".toList 1 =
        .ok 18446744073709551615 ∧
      (∃ e, Flags.number ⟨[("rate".toList, "18446744073709551616".toList)]⟩ "rate".toList 1 =
        .error e) ∧
      contentLength "HTTP/1.1 200 OK\r\nContent-Length: 18446744073709551615 ".toList =
        some 18446744073709551615 ∧
      TurnFits 1844674407370955161 5 := by
  obtain ⟨hflags, hheaders, hturn, -⟩ := readers_exact
  refine ⟨?_, ?_, ?_, ?_⟩
  · exact ((hflags _ _ 1 _ rfl).1 _).mpr (by decide +kernel)
  · refine (hflags _ _ 1 _ rfl).2 ?_
    rintro n ⟨-, -, rfl, hle⟩
    exact absurd hle (by decide +kernel)
  · refine ((hheaders _ "18446744073709551615".toList ?_).1 _).mpr (by decide +kernel)
    exact (findSome?_lineValue_eq_some_iff _ _ _).mp (by decide +kernel)
  · have hread : Flags.numberDigits "rate".toList [] "1844674407370955161".toList 0 =
        .ok 1844674407370955161 := by
      decide +kernel
    exact hturn _ _ _ '5' _ hread rfl

end Dariyanaap

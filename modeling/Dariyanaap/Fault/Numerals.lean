import Dariyanaap.Fault.Command

/-!
# Numbers as they are written

`in >> value` on an `istringstream` of the C locale, when it uses up its text. `Whole` is a whole
number and `Numeral` one with a point or an exponent, as they are written: white space in front,
a sign, digits. `extractInteger_eq_some_iff` and `extractDouble_eq_some_iff` say that the
extractions read these numbers, as far as they are in range, and no other text.
-/

namespace Dariyanaap

namespace Fault

open Text

/-! ## The notation -/

/-- A sign, which may be missing, and whether it is a minus. -/
inductive Sign : Text → Bool → Prop
  | missing : Sign [] false
  | plus : Sign ['+'] false
  | minus : Sign ['-'] true

/-- Decimal digits, perhaps none. -/
def Digits (text : Text) : Prop := ∀ c ∈ text, c.isDigit = true

/-- White space, perhaps none. -/
def Blanks (text : Text) : Prop := ∀ c ∈ text, isSpace c = true

/-- A whole number. -/
inductive Whole : Text → ℤ → Prop
  | mk {blanks sign digits : Text} {negative : Bool} (hblanks : Blanks blanks)
      (hsign : Sign sign negative) (hne : digits ≠ []) (hdigits : Digits digits) :
      Whole (blanks ++ (sign ++ digits)) (signed negative (Nat.ofDigitChars 10 digits 0))

/-- A point and the digits behind it, or nothing. -/
inductive Fraction : Text → Text → Prop
  | missing : Fraction [] []
  | mk {digits : Text} (hdigits : Digits digits) : Fraction ('.' :: digits) digits

/-- An exponent, or nothing. -/
inductive Exponent : Text → ℤ → Prop
  | missing : Exponent [] 0
  | mk {c : Char} {sign digits : Text} {negative : Bool} (hc : c = 'e' ∨ c = 'E')
      (hsign : Sign sign negative) (hne : digits ≠ []) (hdigits : Digits digits) :
      Exponent (c :: (sign ++ digits)) (signed negative (Nat.ofDigitChars 10 digits 0))

/-- A number, with a point and an exponent if it has them. -/
inductive Numeral : Text → ℚ → Prop
  | mk {blanks sign whole point fraction power : Text} {negative : Bool} {e : ℤ}
      (hblanks : Blanks blanks) (hsign : Sign sign negative) (hwhole : Digits whole)
      (hpoint : Fraction point fraction) (hpower : Exponent power e)
      (hne : ¬(whole = [] ∧ fraction = [])) :
      Numeral (blanks ++ (sign ++ (whole ++ (point ++ power))))
        (signed negative (Nat.ofDigitChars 10 (whole ++ fraction) 0) * 10 ^ (e - fraction.length))

/-! ## Reading it -/

section Reading

variable {text rest sign digits : Text} {negative : Bool}

theorem digitsValue_eq (digits : Text) : digitsValue digits = Nat.ofDigitChars 10 digits 0 := by
  rw [digitsValue, Nat.ofDigitChars_eq_foldl]
  exact congrArg (fun f => List.foldl f 0 digits) (funext fun value => funext fun c =>
    congrArg (· + (c.toNat - '0'.toNat)) (Nat.mul_comm value 10))

/-- No digit is white space, and neither is a point nor a sign. -/
theorem not_isSpace_of_isDigit {c : Char} (h : c.isDigit = true) : isSpace c = false := by
  have hzero : '0' ≤ c := by
    simp only [Char.isDigit, Bool.and_eq_true, decide_eq_true_eq] at h
    exact h.1
  have hreturn : ¬c ≤ '\r' := fun hle =>
    absurd (Char.le_trans hzero hle) (by decide)
  have hspace : c ≠ ' ' := by
    rintro rfl
    cases h
  simp [isSpace, hreturn, hspace]

/-- A text that begins like the digits of a number, or is empty. -/
def Begins (text : Text) : Prop := ∀ c ∈ text.head?, c.isDigit = true ∨ c = '.'

/-- One sign is read, and no more. -/
theorem readSign_append (hsign : Sign sign negative) (hrest : Begins rest) :
    readSign (sign ++ rest) = (negative, rest) := by
  cases hsign with
  | missing =>
    rw [List.nil_append]
    unfold readSign
    split
    · exact absurd (hrest '-' rfl) (by decide)
    · exact absurd (hrest '+' rfl) (by decide)
    · rfl
  | plus => rfl
  | minus => rfl

/-- What is read in front is a sign. -/
theorem exists_append_readSign (text : Text) :
    ∃ sign, text = sign ++ (readSign text).2 ∧ Sign sign (readSign text).1 := by
  unfold readSign
  split
  · exact ⟨['-'], rfl, .minus⟩
  · exact ⟨['+'], rfl, .plus⟩
  · exact ⟨[], rfl, .missing⟩

/-- Behind white space and a sign the digits are left. -/
theorem readSign_dropWhile {blanks : Text} (hblanks : Blanks blanks) (hsign : Sign sign negative)
    (hrest : Begins rest) :
    readSign ((blanks ++ (sign ++ rest)).dropWhile isSpace) = (negative, rest) := by
  have hhead : ∀ c ∈ (sign ++ rest).head?, isSpace c = false := by
    intro c hc
    cases hsign with
    | missing =>
      rcases hrest c hc with hdigit | rfl
      · exact not_isSpace_of_isDigit hdigit
      · decide
    | plus =>
      obtain rfl : '+' = c := Option.some.inj hc
      decide
    | minus =>
      obtain rfl : '-' = c := Option.some.inj hc
      decide
  rw [dropWhile_append_of_head hblanks hhead, readSign_append hsign hrest]

/-- Digits are how a number begins. -/
theorem Digits.begins (h : Digits text) : Begins text := fun c hc =>
  .inl (h c (List.mem_of_head? hc))

/-- A text is one whole number at most. -/
theorem Whole.unique {i j : ℤ} (hi : Whole text i) (hj : Whole text j) : i = j := by
  -- the sign and the digits are read off the text
  have hread : ∀ {i : ℤ}, Whole text i →
      i = signed (readSign (text.dropWhile isSpace)).1
        (Nat.ofDigitChars 10 (readSign (text.dropWhile isSpace)).2 0) := by
    rintro _ ⟨hblanks, hsign, -, hdigits⟩
    rw [readSign_dropWhile hblanks hsign hdigits.begins]
  rw [hread hi, hread hj]

theorem all_isDigit_iff : text.all Char.isDigit = true ↔ Digits text := List.all_eq_true

/-- The extraction of an integer reads the whole numbers of 64 bits. -/
theorem extractInteger_eq_some_iff (text : Text) (i : ℤ) :
    extractInteger text = some i ↔ Whole text i ∧ -2 ^ 63 ≤ i ∧ i < 2 ^ 63 := by
  constructor
  · intro h
    -- what was read is put together again
    obtain ⟨blanks, htext, hblanks, -⟩ := exists_append_dropWhile isSpace text
    obtain ⟨sign, hrest, hsign⟩ := exists_append_readSign (text.dropWhile isSpace)
    rw [extractInteger] at h
    rcases hread : readSign (text.dropWhile isSpace) with ⟨negative, digits⟩
    rw [hread] at h hrest hsign
    dsimp only at h
    split at h
    · cases h
    next hdigits =>
    rw [not_or, not_not, all_isDigit_iff] at hdigits
    split at h
    · next hrange =>
      obtain rfl := Option.some.inj h
      rw [htext, hrest]
      rw [digitsValue_eq] at hrange ⊢
      exact ⟨.mk hblanks hsign hdigits.1 hdigits.2, hrange⟩
    · cases h
  · rintro ⟨hwhole, hrange⟩
    cases hwhole with
    | mk hblanks hsign hne hdigits =>
      rw [extractInteger, readSign_dropWhile hblanks hsign hdigits.begins]
      dsimp only
      rw [if_neg (by simp [hne, all_isDigit_iff.mpr hdigits]), digitsValue_eq, if_pos hrange]

/-- The exponent is read when it is one. -/
theorem extractExponent_eq_some_iff (text : Text) (e : ℤ) :
    extractExponent text = some e ↔ Exponent text e := by
  constructor
  · intro h
    cases text with
    | nil =>
      obtain rfl : 0 = e := Option.some.inj h
      exact .missing
    | cons c rest =>
      obtain ⟨sign, hrest, hsign⟩ := exists_append_readSign rest
      rw [extractExponent] at h
      rcases hread : readSign rest with ⟨negative, digits⟩
      rw [hread] at h hrest hsign
      dsimp only at h
      split at h
      · next hall =>
        obtain ⟨hc, hne, hdigits⟩ := hall
        obtain rfl := Option.some.inj h
        rw [hrest, digitsValue_eq]
        exact .mk hc hsign hne (all_isDigit_iff.mp hdigits)
      · cases h
  · intro h
    cases h with
    | missing => rfl
    | mk hc hsign hne hdigits =>
      rw [extractExponent, readSign_append hsign hdigits.begins]
      dsimp only
      rw [if_pos ⟨hc, hne, all_isDigit_iff.mpr hdigits⟩, digitsValue_eq]

section Parts

variable {whole point fraction power : Text} {e : ℤ}

/-- An exponent begins with neither a digit nor a point. -/
theorem Exponent.not_isDigit_of_head (h : Exponent power e) :
    ∀ c ∈ power.head?, c.isDigit = false ∧ c ≠ '.' := by
  intro c hc
  cases h with
  | missing => cases hc
  | @mk d _ _ _ hd =>
    obtain rfl : d = c := Option.some.inj hc
    rcases hd with rfl | rfl
    · exact ⟨by decide, by decide⟩
    · exact ⟨by decide, by decide⟩

/-- The digits before the point end at the point, or at the exponent. -/
theorem Fraction.not_isDigit_of_head (h : Fraction point fraction) (hpower : Exponent power e) :
    ∀ c ∈ (point ++ power).head?, c.isDigit = false := by
  intro c hc
  cases h with
  -- without a point the exponent is next
  | missing => exact (hpower.not_isDigit_of_head c hc).1
  | mk hdigits =>
    obtain rfl : '.' = c := Option.some.inj hc
    decide

/-- A number begins with a digit or with its point. -/
theorem Fraction.begins (h : Fraction point fraction) (hwhole : Digits whole)
    (hne : ¬(whole = [] ∧ fraction = [])) (power : Text) :
    Begins (whole ++ (point ++ power)) := by
  intro c hc
  cases whole with
  | cons d whole =>
    obtain rfl : d = c := Option.some.inj hc
    exact .inl (hwhole d List.mem_cons_self)
  | nil =>
    cases h with
    | missing => exact absurd ⟨rfl, rfl⟩ hne
    | mk hdigits => exact .inr (Option.some.inj hc).symm

/-- The point and the fraction behind the digits are read together. -/
theorem readFraction_append (hpoint : Fraction point fraction) (hpower : Exponent power e) :
    readFraction (point ++ power) = (fraction, power) := by
  have hhead := hpower.not_isDigit_of_head
  cases hpoint with
  | missing =>
    rw [List.nil_append]
    unfold readFraction
    split
    · exact absurd rfl (hhead '.' rfl).2
    · rfl
  | mk hdigits => exact span_eq_iff.mpr ⟨rfl, hdigits, fun c hc => (hhead c hc).1⟩

end Parts

/-- What is read off a number, one part behind the other. -/
theorem Numeral.exists_read {q : ℚ} (h : Numeral text q) :
    ∃ (negative : Bool) (magnitude whole behind fraction power : Text) (e : ℤ),
      readSign (text.dropWhile isSpace) = (negative, magnitude) ∧
        magnitude.span Char.isDigit = (whole, behind) ∧ readFraction behind = (fraction, power) ∧
        extractExponent power = some e ∧ ¬(whole = [] ∧ fraction = []) ∧
        q = signed negative (Nat.ofDigitChars 10 (whole ++ fraction) 0) *
          10 ^ (e - fraction.length) := by
  cases h with
  | mk hblanks hsign hwhole hpoint hpower hne =>
    exact ⟨_, _, _, _, _, _, _,
      readSign_dropWhile hblanks hsign (hpoint.begins hwhole hne _),
      span_eq_iff.mpr ⟨rfl, hwhole, hpoint.not_isDigit_of_head hpower⟩,
      readFraction_append hpoint hpower, (extractExponent_eq_some_iff _ _).mpr hpower, hne, rfl⟩

/-- A text is one number at most. -/
theorem Numeral.unique {q r : ℚ} (hq : Numeral text q) (hr : Numeral text r) : q = r := by
  obtain ⟨_, _, _, _, _, _, _, hsign, hspan, hfraction, hpower, -, rfl⟩ := hq.exists_read
  obtain ⟨_, _, _, _, _, _, _, hsign', hspan', hfraction', hpower', -, rfl⟩ := hr.exists_read
  -- what is read the first time is read again
  rw [hsign] at hsign'
  obtain ⟨rfl, rfl⟩ := Prod.mk.inj hsign'
  rw [hspan] at hspan'
  obtain ⟨rfl, rfl⟩ := Prod.mk.inj hspan'
  rw [hfraction] at hfraction'
  obtain ⟨rfl, rfl⟩ := Prod.mk.inj hfraction'
  rw [hpower] at hpower'
  obtain rfl := Option.some.inj hpower'
  rfl

/-- What is read behind the digits is a point and digits, or nothing. -/
theorem exists_append_readFraction (text : Text) :
    ∃ point, text = point ++ (readFraction text).2 ∧ Fraction point (readFraction text).1 := by
  unfold readFraction
  split
  · next rest =>
    rcases hspan : rest.span Char.isDigit with ⟨digits, later⟩
    obtain ⟨rfl, hdigits, -⟩ := span_eq_iff.mp hspan
    exact ⟨'.' :: digits, rfl, .mk hdigits⟩
  · exact ⟨[], rfl, .missing⟩

/-- The extraction of a `double` reads the numbers that one can hold, rounded. -/
theorem extractDouble_eq_some_iff (fl : Rounding) (text : Text) (d : Double) :
    extractDouble fl text = some d ↔
      ∃ q, Numeral text q ∧ |q| < 2 ^ 1024 - 2 ^ 970 ∧ d = .finite (fl q) := by
  constructor
  · intro h
    obtain ⟨blanks, htext, hblanks, -⟩ := exists_append_dropWhile isSpace text
    obtain ⟨sign, hrest, hsign⟩ := exists_append_readSign (text.dropWhile isSpace)
    rw [extractDouble] at h
    rcases hread : readSign (text.dropWhile isSpace) with ⟨negative, magnitude⟩
    rw [hread] at h hrest hsign
    rcases hspan : magnitude.span Char.isDigit with ⟨whole, afterWhole⟩
    obtain ⟨rfl, hwhole, -⟩ := span_eq_iff.mp hspan
    obtain ⟨point, hafter, hpoint⟩ := exists_append_readFraction afterWhole
    rcases hfraction : readFraction afterWhole with ⟨fraction, power⟩
    rw [hfraction] at hafter hpoint
    simp only [hspan, hfraction] at h
    -- no digits, no exponent, or more than a double can hold
    split at h
    · cases h
    next hne =>
    split at h
    · cases h
    next e hpower =>
    split at h
    · cases h
    next hsmall =>
    rw [digitsValue_eq] at h hsmall
    refine ⟨_, ?_, not_le.mp hsmall, (Option.some.inj h).symm⟩
    rw [htext, hrest, hafter]
    exact .mk hblanks hsign hwhole hpoint ((extractExponent_eq_some_iff _ _).mp hpower) hne
  · rintro ⟨q, hnumeral, hsmall, rfl⟩
    obtain ⟨_, _, _, _, _, _, _, hsign, hspan, hfraction, hpower, hne, rfl⟩ :=
      hnumeral.exists_read
    rw [extractDouble, hsign]
    simp only [hspan, hfraction, if_neg hne, hpower, digitsValue_eq]
    exact if_neg (not_le.mpr hsmall)

end Reading

end Fault

end Dariyanaap

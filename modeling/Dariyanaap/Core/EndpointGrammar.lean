import Dariyanaap.Core.Endpoint
import Dariyanaap.Library.BoundedNumeral
import Mathlib.Data.UInt

/-!
# The grammar of endpoints

`EndpointText` is the language `Endpoint::parse` is meant for: a host, a colon and a port, with
brackets around a host that holds colons. `parse_eq_ok_iff` says that `parse` accepts this
language and no other text, and reads the host and the port that stand there.

A port may have any number of digits. The loop of `parse_port` compares after each of them, so
that its sum of 32 bits never wraps (`lt_of_mem_portSums`).

The constructor asks for less than `parse` does. An endpoint it makes is read back from its text
unless the host holds a character that `parse` takes for a sign of a URL (`str_parses_iff`).
-/

namespace Dariyanaap

namespace Endpoint

open BoundedNumeral (digit_le le_ofDigitChars)

/-! ## The language -/

/-- The characters a host is made of, colons apart. -/
def HostText (host : Text) : Prop :=
  host ≠ [] ∧ ∀ c ∈ host, c ∉ ['[', ']', ' ', '\t', '/', '\\', '@', '?']

/-- A number of a port, with any number of leading zeros. -/
def PortText (digits : Text) (port : ℕ) : Prop :=
  digits ≠ [] ∧ (∀ c ∈ digits, c.isDigit = true) ∧ Nat.ofDigitChars 10 digits 0 = port ∧
    1 ≤ port ∧ port ≤ 65535

/-- A text that names a host and a port. -/
inductive EndpointText : Text → Text → ℕ → Prop
  | plain {host digits : Text} {port : ℕ} (hhost : HostText host) (hcolon : ':' ∉ host)
      (hport : PortText digits port) : EndpointText (host ++ ':' :: digits) host port
  | bracketed {host digits : Text} {port : ℕ} (hhost : HostText host) (hcolon : ':' ∈ host)
      (hport : PortText digits port) :
      EndpointText ('[' :: (host ++ ']' :: ':' :: digits)) host port

/-- The sums the loop of `parse_port` makes, before they are cut to 32 bits. -/
def portSums : Text → (port : ℕ) → List ℕ
  | [], _ => []
  | c :: rest, port =>
      if ¬c.isDigit then []
      else
        let sum := port * 10 + (c.toNat - '0'.toNat)
        sum :: if 65535 < sum % 2 ^ 32 then [] else portSums rest (sum % 2 ^ 32)

section Ports

variable {text whole : Text} {value : ℕ} {port : UInt16}

/-- No sum of the loop is cut. -/
theorem lt_of_mem_portSums (hvalue : value ≤ 65535) :
    ∀ sum ∈ portSums text value, sum < 2 ^ 32 := by
  induction text generalizing value with
  | nil => exact List.forall_mem_nil _
  | cons c rest ih =>
    rw [portSums]
    by_cases hc : c.isDigit = true
    · have hdigit := digit_le hc
      rw [if_neg (not_not.mpr hc)]
      refine List.forall_mem_cons.mpr ⟨by omega, ?_⟩
      split
      · exact List.forall_mem_nil _
      · next hsmall => exact ih (not_lt.mp hsmall)
    · rw [if_pos hc]
      exact List.forall_mem_nil _

/-- The loop of `parse_port` reads the digits of a number that fits in a port. -/
theorem portDigits_eq_ok_iff (hvalue : value ≤ 65535) :
    portDigits whole text value = .ok port ↔
      (∀ c ∈ text, c.isDigit = true) ∧ Nat.ofDigitChars 10 text value = port.toNat := by
  induction text generalizing value with
  | nil =>
    rw [portDigits, Nat.ofDigitChars_nil]
    have hmod : (UInt16.ofNat value).toNat = value := Nat.mod_eq_of_lt (by omega)
    constructor
    · intro h
      exact ⟨List.forall_mem_nil _, by rw [← Except.ok.inj h, hmod]⟩
    · rintro ⟨-, rfl⟩
      rw [UInt16.ofNat_toNat]
  | cons c rest ih =>
    rw [portDigits, List.forall_mem_cons, Nat.ofDigitChars_cons]
    by_cases hc : c.isDigit = true
    · have hdigit := digit_le hc
      have hsum : (value * 10 + (c.toNat - '0'.toNat)) % 2 ^ 32 =
          10 * value + (c.toNat - '0'.toNat) := by
        rw [Nat.mod_eq_of_lt (by omega), Nat.mul_comm]
      rw [if_neg (not_not.mpr hc), hsum]
      dsimp only
      by_cases hbig : 65535 < 10 * value + (c.toNat - '0'.toNat)
      · -- the number only grows from here
        rw [if_pos hbig]
        refine iff_of_false (by simp [reject]) fun h => ?_
        have hle := le_ofDigitChars rest (10 * value + (c.toNat - '0'.toNat))
        have hport := port.toNat_lt
        omega
      · rw [if_neg hbig, ih (by omega), and_iff_right hc]
    · rw [if_pos hc]
      exact iff_of_false (by simp [reject]) fun h => hc h.1.1

/-- `parse_port` reads every number of 16 bits. -/
theorem parsePort_eq_ok_iff :
    parsePort text whole = .ok port ↔
      text ≠ [] ∧ (∀ c ∈ text, c.isDigit = true) ∧ Nat.ofDigitChars 10 text 0 = port.toNat := by
  rw [parsePort]
  by_cases htext : text = []
  · rw [if_pos htext]
    exact iff_of_false (by simp [reject]) fun h => h.1 htext
  · rw [if_neg htext, portDigits_eq_ok_iff (Nat.zero_le _), and_iff_right htext]

/-- No digit is a colon. -/
theorem colon_notMem_digits (h : ∀ c ∈ text, c.isDigit = true) : ':' ∉ text :=
  fun hcolon => absurd (h _ hcolon) (by decide)

end Ports

/-! ## The two branches -/

section Branches

variable {text host digits : Text}

/-- In brackets stands everything up to the first that closes. -/
theorem hostAndPort_bracketed (hclose : ']' ∉ host) (rest : Text) :
    hostAndPort ('[' :: (host ++ ']' :: rest)) =
      if rest.head? ≠ some ':' then
        reject ('[' :: (host ++ ']' :: rest))
          "bracketed IPv6 address must be followed by \":port\"".toList
      else if ':' ∉ host then
        reject ('[' :: (host ++ ']' :: rest))
          "brackets are for IPv6 addresses, which contain ':'".toList
      else .ok (host, rest.drop 1) := by
  have hfind : Text.find [']'] ('[' :: (host ++ ']' :: rest)) = some (host.length + 1) :=
    Text.find_append_cons (u := '[' :: host) (by simpa using hclose) rest
  have hrest : ('[' :: (host ++ ']' :: rest)).drop (host.length + 1 + 1) = rest := by
    rw [List.drop_succ_cons, List.append_cons]
    exact List.drop_left' (by simp)
  rw [hostAndPort, if_neg (List.cons_ne_nil _ _), if_pos List.head?_cons, hfind]
  dsimp only
  rw [hrest, List.drop_one, List.tail_cons, Nat.add_sub_cancel, List.take_left]

/-- Without brackets the last colon separates. -/
theorem hostAndPort_plain (hopen : (host ++ ':' :: digits).head? ≠ some '[')
    (hdigits : ':' ∉ digits) :
    hostAndPort (host ++ ':' :: digits) =
      if ':' ∈ host then
        reject (host ++ ':' :: digits)
          "IPv6 addresses must be bracketed, as \"[::1]:8080\"".toList
      else .ok (host, digits) := by
  have hdrop : (host ++ ':' :: digits).drop (host.length + 1) = digits := by
    rw [List.append_cons]
    exact List.drop_left' (by simp)
  rw [hostAndPort, if_neg (by simp), if_neg hopen, Text.rfind_append_cons host hdigits]
  dsimp only
  rw [hdrop, List.take_left]

/-- What the two branches accept. -/
theorem hostAndPort_eq_ok_iff :
    hostAndPort text = .ok (host, digits) ↔
      (text = '[' :: (host ++ ']' :: ':' :: digits) ∧ ']' ∉ host ∧ ':' ∈ host) ∨
        (text = host ++ ':' :: digits ∧ text.head? ≠ some '[' ∧ ':' ∉ host ∧ ':' ∉ digits) := by
  constructor
  · intro h
    by_cases hopen : text.head? = some '['
    · obtain ⟨text, rfl⟩ : ∃ rest, text = '[' :: rest := List.head?_eq_some_iff.mp hopen
      left
      by_cases hclose : ']' ∈ text
      · obtain ⟨inside, rest, rfl, hinside⟩ := List.eq_append_cons_of_mem hclose
        rw [hostAndPort_bracketed hinside] at h
        split at h
        · cases h
        next hcolon =>
        split at h
        · cases h
        next hipv6 =>
        obtain ⟨rfl, rfl⟩ := Prod.mk.inj (Except.ok.inj h)
        obtain ⟨rest, rfl⟩ := List.head?_eq_some_iff.mp (not_not.mp hcolon)
        exact ⟨rfl, hinside, not_not.mp hipv6⟩
      · have hnone : Text.find [']'] ('[' :: text) = none :=
          Text.find_eq_none_of_notMem (by simpa using hclose)
        rw [hostAndPort, if_neg (List.cons_ne_nil _ _), if_pos List.head?_cons, hnone] at h
        cases h
    · right
      by_cases hcolon : ':' ∈ text
      · -- cut at the last colon
        obtain ⟨u, w, hreverse, hw⟩ := List.eq_append_cons_of_mem (List.mem_reverse.mpr hcolon)
        obtain rfl : text = w.reverse ++ ':' :: u.reverse := by
          rw [← List.reverse_reverse text, hreverse]
          simp
        have hu : ':' ∉ u.reverse := fun h => hw (List.mem_reverse.mp h)
        rw [hostAndPort_plain hopen hu] at h
        split at h
        · cases h
        next hhost =>
        obtain ⟨rfl, rfl⟩ := Prod.mk.inj (Except.ok.inj h)
        exact ⟨rfl, hopen, hhost, hu⟩
      · rw [hostAndPort, if_neg hopen, Text.rfind_eq_none_of_notMem hcolon] at h
        split at h <;> cases h
  · rintro (⟨rfl, hclose, hcolon⟩ | ⟨rfl, hopen, hcolon, hdigits⟩)
    · rw [hostAndPort_bracketed hclose, if_neg (by simp), if_neg (not_not.mpr hcolon)]
      rfl
    · rw [hostAndPort_plain hopen hdigits, if_neg hcolon]

end Branches

/-! ## What is accepted -/

section Parsing

variable {text host digits : Text} {port : UInt16} {e : Endpoint}

/-- The constructor makes an endpoint of its two arguments. -/
theorem make_eq_ok_iff : make host port = .ok e ↔ e.host = host ∧ e.port = port := by
  constructor
  · intro h
    rw [make] at h
    split at h
    · cases h
    split at h
    · cases h
    split at h
    · cases h
    · cases h
      exact ⟨rfl, rfl⟩
  · rintro ⟨rfl, rfl⟩
    have hbrackets : ¬('[' ∈ e.host ∨ ']' ∈ e.host) := not_or.mpr e.unbracketed
    rw [make, dif_neg e.host_ne, dif_neg hbrackets, dif_neg e.port_ne]

/-- `parse` is its four parts one after the other. -/
theorem parse_eq_ok_iff_parts :
    parse text = .ok e ↔ ∃ digits, hostAndPort text = .ok (e.host, digits) ∧
      (∀ c ∈ e.host, misplaced c = false) ∧ parsePort digits text = .ok e.port := by
  have hclean : ∀ {host : Text},
      host.find? misplaced = none ↔ ∀ c ∈ host, misplaced c = false := by
    simp
  rw [parse]
  -- the three checks in the order of the source: the form, the host, the port
  rcases hparts : hostAndPort text with error | ⟨host, digits⟩
  · exact iff_of_false (by simp [bind, Except.bind]) (by simp)
  dsimp only [bind, Except.bind]
  rcases hfind : host.find? misplaced with _ | c
  · dsimp only
    rcases hport : parsePort digits text with error | port
    · refine iff_of_false (by simp) ?_
      rintro ⟨digits', hsame, -, hport'⟩
      obtain ⟨rfl, rfl⟩ := Prod.mk.inj (Except.ok.inj hsame)
      cases hport.symm.trans hport'
    · show make host port = .ok e ↔ _
      rw [make_eq_ok_iff]
      constructor
      · rintro ⟨rfl, rfl⟩
        exact ⟨digits, rfl, hclean.mp hfind, hport⟩
      · rintro ⟨digits', hsame, -, hport'⟩
        obtain ⟨rfl, rfl⟩ := Prod.mk.inj (Except.ok.inj hsame)
        exact ⟨rfl, (Except.ok.inj (hport.symm.trans hport')).symm⟩
  · refine iff_of_false (by simp [reject]) ?_
    rintro ⟨digits', hsame, hhost, -⟩
    obtain ⟨rfl, rfl⟩ := Prod.mk.inj (Except.ok.inj hsame)
    cases hfind.symm.trans (hclean.mpr hhost)

/-- The characters of a host are those the constructor and `parse` let pass. -/
theorem hostText_iff :
    HostText host ↔ (host ≠ [] ∧ '[' ∉ host ∧ ']' ∉ host) ∧ ∀ c ∈ host, misplaced c = false := by
  have hchar : ∀ c, c ∉ ['[', ']', ' ', '\t', '/', '\\', '@', '?'] ↔
      (c ≠ '[' ∧ c ≠ ']') ∧ misplaced c = false := by
    simp [misplaced, and_assoc]
  simp only [HostText, hchar]
  constructor
  · rintro ⟨hne, hall⟩
    exact ⟨⟨hne, fun h => (hall _ h).1.1 rfl, fun h => (hall _ h).1.2 rfl⟩,
      fun c hc => (hall c hc).2⟩
  · rintro ⟨⟨hne, hopen, hclose⟩, hall⟩
    exact ⟨hne, fun c hc => ⟨⟨fun h => hopen (h ▸ hc), fun h => hclose (h ▸ hc)⟩, hall c hc⟩⟩

/-- The host of an endpoint is written with the characters of a host when none is misplaced. -/
theorem hostText_host_iff (e : Endpoint) :
    HostText e.host ↔ ∀ c ∈ e.host, misplaced c = false :=
  hostText_iff.trans (and_iff_right ⟨e.host_ne, e.unbracketed⟩)

/-- The port of an endpoint is a number of 16 bits and not zero. -/
theorem port_bounds (e : Endpoint) : 1 ≤ e.port.toNat ∧ e.port.toNat ≤ 65535 := by
  have hne : e.port.toNat ≠ 0 := fun h => e.port_ne (UInt16.toNat_inj.mp h)
  have hlt := e.port.toNat_lt
  omega

/-- `parse_port` reads the ports that an endpoint can have. -/
theorem parsePort_iff_portText (e : Endpoint) :
    parsePort digits text = .ok e.port ↔ PortText digits e.port.toNat := by
  rw [parsePort_eq_ok_iff, PortText, and_iff_left e.port_bounds]

/-- `parse` accepts the language of endpoints and reads what stands there. -/
theorem parse_eq_ok_iff : parse text = .ok e ↔ EndpointText text e.host e.port.toNat := by
  simp only [parse_eq_ok_iff_parts, hostAndPort_eq_ok_iff, parsePort_iff_portText]
  rw [← hostText_host_iff]
  constructor
  · rintro ⟨digits, ⟨rfl, -, hcolon⟩ | ⟨rfl, -, hcolon, -⟩, hhost, hport⟩
    · exact .bracketed hhost hcolon hport
    · exact .plain hhost hcolon hport
  · intro h
    obtain ⟨-, hclose⟩ := e.unbracketed
    -- the host and the port are read off the text
    generalize hhost : e.host = host, hport : e.port.toNat = port at h
    cases h with
    | @plain _ digits _ htext hcolon hdigits =>
      subst hhost hport
      refine ⟨digits, .inr ⟨rfl, ?_, hcolon, colon_notMem_digits hdigits.2.1⟩, htext, hdigits⟩
      rw [List.head?_append_of_ne_nil _ e.host_ne]
      exact fun h => e.unbracketed.1 (List.mem_of_head? h)
    | @bracketed _ digits _ htext hcolon hdigits =>
      subst hhost hport
      exact ⟨digits, .inl ⟨rfl, hclose, hcolon⟩, htext, hdigits⟩

/-- A text of the language names an endpoint. -/
theorem exists_of_endpointText {port : ℕ} (h : EndpointText text host port) :
    ∃ e : Endpoint, e.host = host ∧ e.port.toNat = port := by
  obtain ⟨hhost, hpos, hle⟩ : HostText host ∧ 1 ≤ port ∧ port ≤ 65535 := by
    cases h with
    | plain hhost _ hport => exact ⟨hhost, hport.2.2.2⟩
    | bracketed hhost _ hport => exact ⟨hhost, hport.2.2.2⟩
  obtain ⟨⟨hne, hbrackets⟩, -⟩ := hostText_iff.mp hhost
  have hport : (UInt16.ofNat port).toNat = port := Nat.mod_eq_of_lt (by omega)
  refine ⟨⟨host, UInt16.ofNat port, hne, hbrackets, fun hzero => ?_⟩, rfl, hport⟩
  rw [hzero] at hport
  exact absurd hport.symm (by simpa using Nat.ne_of_gt hpos)

/-- A port is written as `parse` reads it. -/
theorem portText_decimal (e : Endpoint) :
    PortText (Delimited.decimal e.port.toNat) e.port.toNat :=
  ⟨Nat.toDigits_ne_nil, fun _ hc => Delimited.isDigit_of_mem_decimal hc,
    Nat.ofDigitChars_ten_toDigits, e.port_bounds⟩

/-- `str` writes a text of the language unless a character of the host is misplaced. -/
theorem parse_str_iff (e : Endpoint) :
    parse e.str = .ok e ↔ ∀ c ∈ e.host, misplaced c = false := by
  constructor
  · intro h
    obtain ⟨-, -, hhost, -⟩ := parse_eq_ok_iff_parts.mp h
    exact hhost
  · intro hhost
    have hport := e.portText_decimal
    have htext := (hostText_host_iff e).mpr hhost
    rw [parse_eq_ok_iff, str]
    by_cases hcolon : ':' ∈ e.host
    · have hipv6 : e.isIpv6 = true := by simpa [isIpv6] using hcolon
      rw [if_pos hipv6]
      simpa using EndpointText.bracketed htext hcolon hport
    · have hipv6 : ¬e.isIpv6 = true := by simpa [isIpv6] using hcolon
      rw [if_neg hipv6]
      simpa using EndpointText.plain htext hcolon hport

/-- `parse` accepts exactly the language of endpoints, without a sum of 32 bits that is cut on
the way, and what it accepted it accepts again as `str` writes it; everything else is refused. -/
theorem parse_language (text : Text) :
    (∀ host port, (∃ e, parse text = .ok e ∧ e.host = host ∧ e.port.toNat = port) ↔
      EndpointText text host port) ∧
    (∀ e, parse text = .ok e → parse e.str = .ok e) ∧
    (∀ host digits, hostAndPort text = .ok (host, digits) →
      ∀ sum ∈ portSums digits 0, sum < 2 ^ 32) ∧
    ((¬∃ host port, EndpointText text host port) →
      ∃ error : InvalidEndpoint, parse text = .error error) := by
  refine ⟨fun host port => ⟨?_, fun h => ?_⟩, fun e h => ?_, fun _ digits _ => ?_, fun h => ?_⟩
  · rintro ⟨e, h, rfl, rfl⟩
    exact parse_eq_ok_iff.mp h
  · obtain ⟨e, rfl, rfl⟩ := exists_of_endpointText h
    exact ⟨e, parse_eq_ok_iff.mpr h, rfl, rfl⟩
  · obtain ⟨-, -, hhost, -⟩ := parse_eq_ok_iff_parts.mp h
    exact e.parse_str_iff.mpr hhost
  · exact lt_of_mem_portSums (Nat.zero_le _)
  · exact exists_error fun e hparse => h ⟨_, _, parse_eq_ok_iff.mp hparse⟩

/-- An endpoint that the constructor makes is read back from its text unless its host holds a
blank or a sign of a URL. -/
theorem str_parses_iff (host : Text) (port : UInt16) (e : Endpoint) (h : make host port = .ok e) :
    parse e.str = .ok e ↔ ∀ c ∈ host, c ∉ [' ', '\t', '/', '\\', '@', '?'] := by
  obtain ⟨rfl, -⟩ := make_eq_ok_iff.mp h
  rw [parse_str_iff]
  simp [misplaced, and_assoc]

/-- An address of the sixth version is read back. -/
theorem str_parses_iff_loopback :
    parse (str ⟨"::1".toList, 8080, by decide, by decide, by decide⟩) =
        .ok ⟨"::1".toList, 8080, by decide, by decide, by decide⟩ ↔
      ∀ c ∈ "::1".toList, c ∉ [' ', '\t', '/', '\\', '@', '?'] :=
  str_parses_iff _ _ _ (make_eq_ok_iff.mpr ⟨rfl, rfl⟩)

/-- The constructor makes an endpoint of a host with a space in it, and `parse` refuses what
`str` writes for it. -/
theorem str_space_refused :
    (∃ e, make "a b".toList 80 = .ok e ∧ e.str = "a b:80".toList ∧
      ∃ error, parse e.str = .error error) ∧
    ¬∀ (host : Text) (port : UInt16) (e : Endpoint), make host port = .ok e →
      parse e.str = .ok e := by
  have hmake : make "a b".toList 80 = .ok ⟨"a b".toList, 80, by decide, by decide, by decide⟩ :=
    make_eq_ok_iff.mpr ⟨rfl, rfl⟩
  have hstr : str ⟨"a b".toList, 80, by decide, by decide, by decide⟩ = "a b:80".toList := by
    decide +kernel
  have hrefused : parse "a b:80".toList = reject "a b:80".toList
      ("host contains an invalid character '".toList ++ [' '] ++ "'".toList) := by
    decide +kernel
  refine ⟨⟨_, hmake, hstr, _, hstr ▸ hrefused⟩, fun h => ?_⟩
  cases (hstr ▸ hrefused).symm.trans (h _ _ _ hmake)

end Parsing

end Endpoint

end Dariyanaap

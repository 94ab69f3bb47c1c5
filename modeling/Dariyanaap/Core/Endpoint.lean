import Dariyanaap.Core.Text
import Dariyanaap.Library.Delimited
import Mathlib.Algebra.Group.Nat.Defs

/-!
# Endpoints

`Endpoint` (`core/endpoint.hpp`, `core/endpoint.cpp`): where a load generator points. An endpoint
carries what its constructor checks, so one that exists could be connected to; `parse` reads the
form a flag has.
-/

namespace Dariyanaap

/-- `Endpoint`. -/
structure Endpoint where
  host : Text
  port : UInt16
  host_ne : host ≠ []
  unbracketed : '[' ∉ host ∧ ']' ∉ host
  port_ne : port ≠ 0
  deriving DecidableEq

namespace Endpoint

/-- The constructor. -/
def make (host : Text) (port : UInt16) : Except InvalidEndpoint Endpoint :=
  if hhost : host = [] then .error ⟨⟨"endpoint host must not be empty".toList⟩⟩
  else if hbrackets : '[' ∈ host ∨ ']' ∈ host then
    -- the dash of the text is three bytes
    .error ⟨⟨"endpoint host must not contain brackets, got \"".toList ++ host ++
      "\" \xe2\x80\x94 use Endpoint::parse for \"[::1]:8080\" form".toList⟩⟩
  else if hport : port = 0 then
    .error ⟨⟨"endpoint port must not be zero, for host ".toList ++ host⟩⟩
  else .ok ⟨host, port, hhost, not_or.mp hbrackets, hport⟩

/-- `reject`. -/
def reject {α : Type} (text why : Text) : Except InvalidEndpoint α :=
  .error ⟨⟨"cannot parse endpoint \"".toList ++ text ++ "\": ".toList ++ why⟩⟩

/-- The digit loop of `parse_port`. The sum is a `uint32_t`. -/
def portDigits (whole : Text) : Text → (port : ℕ) → Except InvalidEndpoint UInt16
  | [], port => .ok (UInt16.ofNat port)
  | c :: rest, port =>
      if ¬c.isDigit then
        reject whole ("port must be decimal digits, found '".toList ++ [c] ++ "'".toList)
      else
        -- compared after every digit, so that the sum stays small
        let port := (port * 10 + (c.toNat - '0'.toNat)) % 2 ^ 32
        if 65535 < port then reject whole "port must be at most 65535".toList
        else portDigits whole rest port

/-- `parse_port`. -/
def parsePort (text whole : Text) : Except InvalidEndpoint UInt16 :=
  if text = [] then reject whole "port is missing".toList else portDigits whole text 0

/-- The two branches of `parse` that find the host and the port. -/
def hostAndPort (text : Text) : Except InvalidEndpoint (Text × Text) :=
  if text = [] then reject text "empty".toList
  else if text.head? = some '[' then
    match Text.find [']'] text with
    | none => reject text "unclosed '[' in IPv6 address".toList
    | some close =>
        let host := (text.drop 1).take (close - 1)
        let rest := text.drop (close + 1)
        if rest.head? ≠ some ':' then
          reject text "bracketed IPv6 address must be followed by \":port\"".toList
        else if ':' ∉ host then
          reject text "brackets are for IPv6 addresses, which contain ':'".toList
        else .ok (host, rest.drop 1)
  else
    -- the last colon is the separator
    match Text.rfind ':' text with
    | none => reject text "expected \"host:port\"".toList
    | some colon =>
        let host := text.take colon
        if ':' ∈ host then
          reject text "IPv6 addresses must be bracketed, as \"[::1]:8080\"".toList
        else .ok (host, text.drop (colon + 1))

/-- The characters of a URL or of an unquoted argument. -/
def misplaced (c : Char) : Bool :=
  c == ' ' || c == '\t' || c == '/' || c == '\\' || c == '@' || c == '?'

/-- `Endpoint::parse`. -/
def parse (text : Text) : Except InvalidEndpoint Endpoint := do
  let (host, port) ← hostAndPort text
  -- the host is looked at before the port is parsed
  match host.find? misplaced with
  | some c => reject text ("host contains an invalid character '".toList ++ [c] ++ "'".toList)
  | none =>
      let port ← parsePort port text
      make host port

/-- `is_ipv6`. -/
def isIpv6 (e : Endpoint) : Bool := e.host.contains ':'

/-- `str`. -/
def str (e : Endpoint) : Text :=
  if e.isIpv6 then
    "[".toList ++ e.host ++ "]:".toList ++ Delimited.decimal e.port.toNat
  else e.host ++ ":".toList ++ Delimited.decimal e.port.toNat

example : (parse "[::1]:8080".toList).map (fun e => (e.host, e.port)) =
    .ok ("::1".toList, 8080) := by
  decide +kernel

end Endpoint

end Dariyanaap

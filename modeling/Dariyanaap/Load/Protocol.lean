import Dariyanaap.Core.Text

/-!
# Protocols

What the driver asks of a protocol (`load/protocol.hpp`): the bytes of one request, whether a
buffer is a whole reply, and whether a whole reply means success. `RawEcho`
(`load/raw_echo.cpp`) frames a reply by its length alone.
-/

namespace Dariyanaap

/-- The verdict on the bytes received so far. -/
inductive ResponseState where
  | needMore
  | complete
  | malformed
  deriving DecidableEq

/-- The three questions of `Protocol`. -/
structure Protocol where
  request : Text
  consume : Text → ResponseState
  succeeded : Text → Bool

namespace RawEcho

/-- The recognisable payload: byte `i` is `'a' + i % 26`. -/
def payload (size : ℕ) : Text :=
  (List.range size).map fun i => Char.ofNat ('a'.toNat + i % 26)

/-- `RawEcho::consume`. -/
def consume (size : ℕ) (response : Text) : ResponseState :=
  if response.length < size then .needMore
  else if response.length = size then .complete
  else .malformed

/-- `RawEcho` with some bytes for its `payload_`. Only their number is looked at. -/
def sending (bytes : Text) : Protocol where
  request := bytes
  consume := consume bytes.length
  succeeded _ := true

/-- `RawEcho` with a payload of `size` bytes. -/
def protocol (size : ℕ) : Protocol := sending (payload size)

/-- The constructor refuses an empty payload. -/
def make (size : ℕ) : Except UsageError Protocol :=
  if size = 0 then .error ⟨"raw echo payload size must be at least 1 byte".toList⟩
  else .ok (protocol size)

/-- The payload has the size it is constructed with. -/
theorem protocol_consume (size : ℕ) : (protocol size).consume = consume size := by
  rw [protocol, sending, payload, List.length_map, List.length_range]

theorem consume_of_lt {size : ℕ} {u : Text} (h : u.length < size) : consume size u = .needMore :=
  if_pos h

theorem consume_of_eq {size : ℕ} {u : Text} (h : u.length = size) : consume size u = .complete := by
  rw [consume, if_neg (by omega), if_pos h]

end RawEcho

end Dariyanaap

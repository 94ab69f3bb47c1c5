import Dariyanaap.Core.Endpoint

/-!
# Socket addresses

`SocketAddress` (`core/address.cpp`): a numeric host of a family with a port. A port of zero asks
the kernel for one.
-/

namespace Dariyanaap

namespace Core

/-- `IoError`, or the `TimedOut` that derives from it. -/
inductive IoError where
  | io (what : Text)
  | timedOut (what : Text)
  deriving DecidableEq

/-- `what`. -/
def IoError.what : IoError → Text
  | io what | timedOut what => what

/-- Whether the `catch` clause of `TimedOut` takes it. -/
def IoError.isTimedOut : IoError → Bool
  | io _ => false
  | timedOut _ => true

/-- An address family. -/
inductive Family where
  | inet
  | inet6
  | other (number : ℕ)
  deriving DecidableEq

/-- Whether its addresses have a port. -/
def Family.hasPort : Family → Bool
  | .inet | .inet6 => true
  | .other _ => false

/-- `SocketAddress`, with its host as `getnameinfo` writes it. -/
structure SocketAddress where
  family : Family
  host : Text
  port : UInt16
  deriving DecidableEq

namespace SocketAddress

/-- `with_port`. -/
def withPort (address : SocketAddress) (port : UInt16) : Except IoError SocketAddress :=
  match address.family with
  | .inet | .inet6 => .ok { address with port := port }
  | .other number =>
      .error (.io ("cannot set a port on address family ".toList ++ Delimited.decimal number))

/-- `str`. -/
def str (address : SocketAddress) : Text :=
  match address.family with
  | .inet => address.host ++ ":".toList ++ Delimited.decimal address.port.toNat
  | .inet6 => "[".toList ++ address.host ++ "]:".toList ++ Delimited.decimal address.port.toNat
  | .other _ => "<unprintable address>".toList

theorem withPort_of_hasPort {address : SocketAddress} (h : address.family.hasPort = true)
    (port : UInt16) : address.withPort port = .ok { address with port := port } := by
  obtain ⟨family, host, old⟩ := address
  cases family with
  | inet | inet6 => rfl
  | other number => cases h

end SocketAddress

end Core

end Dariyanaap

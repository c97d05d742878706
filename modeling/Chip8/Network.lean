/-
The host's network, as far as the machine can tell: whether datagrams get out
at all, and which texts are addresses.
-/
import Chip8.Fault
import Chip8.Text.Decimal

namespace Chip8

/-- Whether the host can send. -/
inductive Network where
  | reachable
  | unreachable
deriving DecidableEq, Repr

namespace Network

/-- The parts of a text before and after its last colon. -/
def splitPort? (address : String) : Option (String × String) :=
  match (address.splitOn ":").reverse with
  | port :: host :: hosts => some (":".intercalate (host :: hosts).reverse, port)
  | _ => none

/-- What an address names: a host, and a port below 65536 after the last colon. -/
def parseAddress (address : String) : Except HostFault (String × Nat) :=
  match splitPort? address with
  | none => .error .invalidAddress
  | some (host, port) =>
    match Text.readNat 65535 port with
    | .ok n => .ok (host, n)
    | .error _ => .error .invalidPort

/-- Opens a link to an address. -/
def connect (n : Network) (address : String) : Except HostFault (String × Nat) := do
  let peer ← parseAddress address
  match n with
  | .reachable => return peer
  | .unreachable => throw .networkUnreachable

/-- Carries a datagram to a socket of this host. -/
def carry (n : Network) (datagram : List UInt8) : Except HostFault (List UInt8) :=
  match n with
  | .reachable => .ok datagram
  | .unreachable => .error .networkUnreachable

end Network

end Chip8

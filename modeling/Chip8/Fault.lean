/-
What can go wrong, as causes. `Fault.message` is the one place that words
them; `Fault.record` shows the cause with its fields.
-/
import Chip8.Text.Hex
import Chip8.Text.Record

namespace Chip8

open Text

/-- What the host refuses: a file it does not have, a network it cannot reach,
an address it cannot read. -/
inductive HostFault where
  | fileNotFound
  | networkUnreachable
  | invalidAddress
  | invalidPort
  /-- Anything else, in the host's own words. -/
  | other (text : String)
deriving DecidableEq, Repr

/-- The wording of a host's refusal. -/
def HostFault.message : HostFault → String
  | .fileNotFound => "No such file or directory (os error 2)"
  | .networkUnreachable => "Network is unreachable (os error 101)"
  | .invalidAddress => "invalid socket address"
  | .invalidPort => "invalid port value"
  | .other text => text

/-- A host's refusal with its fields. -/
def HostFault.record : HostFault → String
  | .fileNotFound => Text.record "Os"
      [("code", "2"), ("kind", "NotFound"), ("message", quoted "No such file or directory")]
  | .networkUnreachable => Text.record "Os"
      [("code", "101"), ("kind", "NetworkUnreachable"), ("message", quoted "Network is unreachable")]
  | .invalidAddress => Text.record "Error"
      [("kind", "InvalidInput"), ("message", quoted "invalid socket address")]
  | .invalidPort => Text.record "Error"
      [("kind", "InvalidInput"), ("message", quoted "invalid port value")]
  | .other text => Text.record "Custom" [("kind", "Other"), ("error", quoted text)]

/-- Everything that can stop an operation of the machine. -/
inductive Fault where
  /-- A return address that no level of the call stack is left for. -/
  | stackOverflow (address : UInt16) (depth : Nat)
  /-- A return with no caller. -/
  | stackUnderflow
  /-- A call of a native routine. -/
  | machineCode (word address : UInt16)
  /-- A program counter that points at less than a whole instruction. -/
  | fetchOutOfBounds (address : UInt16)
  /-- A program longer than the memory it is loaded into. -/
  | romTooLarge (length limit : Nat)
  /-- A key past F. -/
  | noSuchKey (key : Nat)
  /-- A register past vF. -/
  | noSuchRegister (register : Nat)
  /-- A key datagram that is not two bytes long. -/
  | malformedKeys (length : Nat)
  /-- A message the peripheral did not take. -/
  | sendRefused
  /-- A refusal of the host. -/
  | host (cause : HostFault)
  /-- A sprite drawn on a screen without columns or without rows: its origin is
  a remainder by zero. -/
  | emptyScreen
deriving DecidableEq, Repr

/-- The wording of a fault. -/
def Fault.message : Fault → String
  | .stackOverflow address depth =>
    "stack overflow: could not push " ++ hex 3 address.toNat ++ ", all " ++ toString depth ++
      " levels in use"
  | .stackUnderflow => "stack underflow: no return address to pop"
  | .machineCode word address =>
    "machine code routine " ++ hex 4 word.toNat ++ " at " ++ hex 3 address.toNat ++
      " is not supported"
  | .fetchOutOfBounds address =>
    "instruction fetch at " ++ hex 4 address.toNat ++ " is out of bounds"
  | .romTooLarge length limit =>
    "rom of " ++ toString length ++ " bytes does not fit in the " ++ toString limit ++
      " bytes of program memory"
  | .noSuchKey key => "tried to press key " ++ hexUpper key ++ " which does not exist"
  | .noSuchRegister register =>
    "tried to access register v" ++ hexUpper register ++ " which does not exist"
  | .malformedKeys length =>
    "illegal key state datagram of " ++ toString length ++ " bytes (expected 2 bytes)"
  | .sendRefused =>
    "could not update peripheral state (is the screen application running?): connection refused"
  | .host cause => cause.message
  | .emptyScreen => "attempt to calculate the remainder with a divisor of zero"

/-- A fault with its fields. -/
def Fault.record : Fault → String
  | .stackOverflow address depth =>
    Text.record "StackOverflow" [("addr", toString address), ("depth", toString depth)]
  | .stackUnderflow => "StackUnderflow"
  | .machineCode word address =>
    Text.record "MachineCodeUnsupported" [("word", toString word), ("addr", toString address)]
  | .fetchOutOfBounds address => Text.record "OutOfBoundsFetch" [("addr", toString address)]
  | .romTooLarge length limit =>
    Text.record "RomTooLarge" [("len", toString length), ("max", toString limit)]
  | .noSuchKey key => Text.record "InvalidKey" [("key", toString key)]
  | .noSuchRegister register => Text.record "InvalidRegister" [("reg", toString register)]
  | .malformedKeys length => Text.record "MalformedKeyDatagram" [("len", toString length)]
  | .sendRefused => "PeripheralTransport(Kind(ConnectionRefused))"
  | .host cause => "IoError(" ++ cause.record ++ ")"
  | .emptyScreen => "EmptyScreen"

end Chip8

/-
Key state from the peripheral: datagrams of two bytes, the high one first,
each of which overwrites all keys. Any other datagram ends the listener, and
the keys stay as they were.
-/
import Chip8.Channel
import Chip8.Memory

namespace Chip8.Keypad

/-- The most bytes of a datagram that are looked at. -/
def maxDatagram : Nat := 256

/-- The keys a datagram holds. -/
def parse : List UInt8 → Except Fault UInt16
  | [high, low] => .ok (wordOfBytes high low)
  | bytes => .error (.malformedKeys bytes.length)

/-- Takes one datagram, cut to its first 256 bytes, into the shared state. -/
def receive (s : SharedState) (datagram : List UInt8) : SharedState × Except Fault UInt16 :=
  match parse (datagram.take maxDatagram) with
  | .ok keys => (s.setKeys keys, .ok keys)
  | .error fault => (s, .error fault)

/-- Where the listener is when no more datagrams come. -/
inductive Ending where
  /-- The machine stopped. -/
  | stopped
  /-- A datagram was malformed. -/
  | failed (fault : Fault)
  /-- It waits for the next datagram. -/
  | waiting
deriving DecidableEq, Repr

/-- Takes datagrams as they come, until the machine stops or one is malformed. -/
def listen (s : SharedState) : List (List UInt8) → SharedState × Ending
  | [] => (s, if s.running then .waiting else .stopped)
  | datagram :: rest =>
    if s.running then
      match receive s datagram with
      | (s, .ok _) => listen s rest
      | (s, .error fault) => (s, .failed fault)
    else (s, .stopped)

/-- The listener's whole life, with these datagrams waiting on a port. -/
def run (c : Channel) (port : String) (datagrams : List (List UInt8)) : Channel × Ending :=
  let c := c.note .info .channel ("listening for key state on 0.0.0.0:" ++ port)
  let (shared, ending) := listen c.shared datagrams
  let c := { c with shared }
  match ending with
  | .failed fault =>
    (c.note .error .channel ("key state listener stopped: " ++ fault.message), ending)
  | _ => (c, ending)

end Chip8.Keypad

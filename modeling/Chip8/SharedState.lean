/-
The state that the processor, the timer and the key listener share: which keys
are held, whether the buzzer is on, the two timers, and whether the machine
still runs. Each operation touches one of them.

The keys are a set of the numbers 0 to 15, one bit each: `isHeld` asks for one
and `lowestKey?` for the least.
-/
import Chip8.Fault

namespace Chip8

/-- Keys, buzzer, timers and whether the machine still runs. -/
structure SharedState where
  keys : UInt16 := 0
  /-- The buzzer as the peripheral was last told. -/
  sound : Bool := false
  delay : UInt8 := 0
  soundTimer : UInt8 := 0
  running : Bool := true
deriving DecidableEq, Repr

namespace SharedState

/-- The bit of a key. -/
def keyBit (key : Nat) : UInt16 := UInt16.ofNat (Nat.pow 2 key)

/-- Overwrites all keys. -/
def setKeys (s : SharedState) (keys : UInt16) : SharedState := { s with keys }

/-- Presses a key; there are none past F. -/
def press (s : SharedState) (key : Nat) : Except Fault SharedState :=
  if key < 16 then .ok { s with keys := s.keys ||| keyBit key } else .error (.noSuchKey key)

/-- Releases a key; there are none past F. -/
def release (s : SharedState) (key : Nat) : Except Fault SharedState :=
  if key < 16 then .ok { s with keys := s.keys &&& ~~~(keyBit key) } else .error (.noSuchKey key)

/-- Whether a key is held. Keys past F never are. -/
def isHeld (s : SharedState) (key : UInt8) : Bool := s.keys.toNat.testBit key.toNat

/-- The least key that is held. -/
def lowestKey? (s : SharedState) : Option UInt8 :=
  ((List.range 16).find? fun key => s.keys.toNat.testBit key).map UInt8.ofNat

/-- Sets the buzzer and tells how it was. -/
def swapSound (s : SharedState) (on : Bool) : Bool × SharedState :=
  (s.sound, { s with sound := on })

/-- Sets the delay timer. -/
def setDelay (s : SharedState) (ticks : UInt8) : SharedState := { s with delay := ticks }

/-- Sets the sound timer. -/
def setSoundTimer (s : SharedState) (ticks : UInt8) : SharedState := { s with soundTimer := ticks }

/-- One less, but never below zero. -/
def countDown (ticks : UInt8) : UInt8 := if ticks = 0 then 0 else ticks - 1

/-- Counts the delay timer down. -/
def countDelay (s : SharedState) : SharedState := { s with delay := countDown s.delay }

/-- Counts the sound timer down, and tells whether this count reached zero. -/
def countSound (s : SharedState) : Bool × SharedState :=
  (s.soundTimer == 1, { s with soundTimer := countDown s.soundTimer })

/-- Asks the timer and the key listener to end. -/
def stop (s : SharedState) : SharedState := { s with running := false }

/-- All of it, as text. -/
def record (s : SharedState) : String :=
  Text.record "IoState"
    [("keys", toString s.keys), ("sound", toString s.sound), ("delay_timer", toString s.delay),
     ("sound_timer", toString s.soundTimer), ("running", toString s.running)]

end SharedState

end Chip8

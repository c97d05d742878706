/-
The channel to the peripheral: the shared state, the link that carries
messages, and the journal of what was sent and logged.

Sending is best effort. A message the link refuses is logged once and never
offered again, and nothing else changes.
-/
import Chip8.Journal
import Chip8.Screen
import Chip8.SharedState

namespace Chip8

/-- What carries messages: it takes or refuses each payload, knowing how many it
was offered before. -/
structure Link where
  accepts : Nat → List UInt8 → Bool

/-- A link that takes everything. -/
def Link.reliable : Link := ⟨fun _ _ => true⟩

/-- A link that takes nothing. -/
def Link.refusing : Link := ⟨fun _ _ => false⟩

/-- Shared state, link and journal. -/
structure Channel where
  shared : SharedState := {}
  link : Link := .reliable
  journal : Journal := {}

namespace Channel

/-- Changes the shared state alone. -/
def update (c : Channel) (f : SharedState → SharedState) : Channel :=
  { c with shared := f c.shared }

/-- Adds to the log. -/
def note (c : Channel) (level : Level) (origin : Origin) (text : String) : Channel :=
  { c with journal := c.journal.note level origin text }

/-- Prints a line. -/
def print (c : Channel) (line : String) : Channel :=
  { c with journal := c.journal.print line }

/-- The message without a screen: the buzzer and the keys as they are, and the
size of the standard screen. -/
def snapshot (c : Channel) : Message :=
  { sound := c.shared.sound, keys := c.shared.keys, screen := none
    width := UInt8.ofNat standardWidth, height := UInt8.ofNat standardHeight }

/-- Hands a message to the link. -/
def push (c : Channel) (m : Message) : Channel :=
  if c.link.accepts c.journal.sends.size m.encode then
    { c with journal := c.journal.send m true }
  else
    { c with journal := c.journal.send m false }.note .warn .channel Fault.sendRefused.message

/-- Sends the whole screen. A screen of more than 255 columns or rows has no
message, and is dropped with a warning. -/
def updateScreen (c : Channel) (s : Screen) : Channel :=
  if s.width ≤ 255 ∧ s.height ≤ 255 then
    c.push { c.snapshot with
      screen := some s.pack, width := UInt8.ofNat s.width, height := UInt8.ofNat s.height }
  else
    c.note .warn .channel
      ("screen of " ++ toString s.width ++ "x" ++ toString s.height ++ " is too large to send")

/-- Sends the buzzer and the keys. -/
def updateSoundAndKeys (c : Channel) : Channel := c.push c.snapshot

/-- Sets the buzzer, and sends it if it changed. -/
def updateSound (c : Channel) (on : Bool) : Channel :=
  let (was, shared) := c.shared.swapSound on
  let c := { c with shared }
  if was != on then c.push c.snapshot else c

/-- Releases every key and silences the buzzer, sends that, and asks the helpers to end. -/
def shutdown (c : Channel) : Channel :=
  let c := c.update fun s => ((s.setKeys 0).swapSound false).2
  c.updateSoundAndKeys.update SharedState.stop

/-- The shared state and the announced size, as text. -/
def record (c : Channel) : String :=
  Text.openRecord "Peripherals"
    [("state", c.shared.record),
     ("dimensions", "(" ++ toString standardWidth ++ ", " ++ toString standardHeight ++ ")")]

end Channel

end Chip8

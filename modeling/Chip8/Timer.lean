/-
The timer: sixty times a second both timers count down, and when the sound
timer reaches zero the buzzer is switched off. When a tick happens is the
host's business; what it does is here.
-/
import Chip8.Channel

namespace Chip8.Timer

/-- One tick. -/
def tick (c : Channel) : Channel :=
  let c := c.update SharedState.countDelay
  let (expired, shared) := c.shared.countSound
  let c := { c with shared }
  if expired then c.updateSound false else c

/-- So many ticks. -/
def ticks : Nat → Channel → Channel
  | 0, c => c
  | n + 1, c => ticks n (tick c)

/-- Ticks while the machine runs, for at most so many frames. -/
def tickWhileRunning : (frames : Nat) → Channel → Channel
  | 0, c => c
  | n + 1, c => if c.shared.running then tickWhileRunning n (tick c) else c

/-- Notes that the timer has started. -/
def noteStart (c : Channel) : Channel :=
  c.note .info .timer "timer started at 16.666666ms per tick"

/-- Notes that the timer has stopped. -/
def noteStop (c : Channel) : Channel := c.note .info .timer "timer stopped"

/-- The timer's whole life, for at most so many frames. -/
def run (frames : Nat) (c : Channel) : Channel :=
  noteStop (tickWhileRunning frames (noteStart c))

end Chip8.Timer

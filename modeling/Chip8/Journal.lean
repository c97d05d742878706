/-
Everything that leaves a machine, in order: the messages it handed to its
link, what it logged, and what it printed. A journal only grows.
-/
import Chip8.Message

namespace Chip8

/-- How much a log entry matters. -/
inductive Level where
  | error
  | warn
  | info
  | trace
deriving DecidableEq, Repr

/-- The name of a level. -/
def Level.name : Level → String
  | .error => "ERROR"
  | .warn => "WARN"
  | .info => "INFO"
  | .trace => "TRACE"

/-- Which part of the machine writes a log entry. -/
inductive Origin where
  | program
  | processor
  | instruction
  | channel
  | timer
deriving DecidableEq, Repr

/-- The name a log shows a part by. -/
def Origin.name : Origin → String
  | .program => "chirpnet"
  | .processor => "chirpnet::cpu"
  | .instruction => "chirpnet::cpu::behavior"
  | .channel => "chirpnet::io"
  | .timer => "chirpnet::timer"

/-- One entry of the log. -/
structure LogEntry where
  level : Level
  origin : Origin
  text : String
deriving DecidableEq, Repr

/-- A message handed to the link, and whether the link took it. -/
structure Send where
  message : Message
  accepted : Bool
deriving DecidableEq, Repr

/-- The bytes handed to the link. -/
def Send.payload (s : Send) : List UInt8 := s.message.encode

/-- Messages, log entries and printed lines, oldest first. -/
structure Journal where
  sends : Array Send := #[]
  log : Array LogEntry := #[]
  printed : Array String := #[]
deriving DecidableEq, Repr

namespace Journal

/-- Adds a message. -/
def send (j : Journal) (message : Message) (accepted : Bool) : Journal :=
  { j with sends := j.sends.push { message, accepted } }

/-- Adds a log entry. -/
def note (j : Journal) (level : Level) (origin : Origin) (text : String) : Journal :=
  { j with log := j.log.push { level, origin, text } }

/-- Adds a printed line. -/
def print (j : Journal) (line : String) : Journal := { j with printed := j.printed.push line }

/-- The bytes that reached the peripheral, oldest first. -/
def delivered (j : Journal) : List (List UInt8) :=
  (j.sends.toList.filter Send.accepted).map Send.payload

/-- The messages the peripheral reads out of what reached it. -/
def received (j : Journal) : List Message :=
  j.delivered.filterMap fun bytes => (Message.decode bytes).toOption

/-- What a journal has beyond an earlier one it grew from. -/
def since (j earlier : Journal) : Journal :=
  { sends := j.sends.extract earlier.sends.size
    log := j.log.extract earlier.log.size
    printed := j.printed.extract earlier.printed.size }

end Journal

end Chip8

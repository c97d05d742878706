/-
How a machine is set up: which dialect of the instruction set it speaks, what
it does with a program that jumps to itself, and whether it prints what it
runs.

Interpreters disagree on four points. Each is a question here
(`Dialect.shiftsFromY` and the three after it), and instructions ask nothing
else.
-/
import Chip8.Text.Record

namespace Chip8

open Text

/-- The dialect, chosen by two switches. -/
structure Dialect where
  /-- As on the COSMAC VIP. -/
  strictCosmac : Bool := false
  /-- As most programs expect; has the last word on indexed jumps and on
  register transfers. -/
  romCompatibility : Bool := true
deriving DecidableEq, Repr

namespace Dialect

/-- One of the two pure dialects. -/
def ofStrict (strict : Bool) : Dialect :=
  { strictCosmac := strict, romCompatibility := !strict }

/-- Shifts take their operand from vY rather than from vX. -/
def shiftsFromY (d : Dialect) : Bool := d.strictCosmac

/-- An indexed jump adds v0, whatever its address. -/
def jumpsFromV0 (d : Dialect) : Bool := d.strictCosmac || d.romCompatibility

/-- Adding to the index sets vF when the index leaves the address space. -/
def flagsIndexOverflow (d : Dialect) : Bool := !d.strictCosmac

/-- A register transfer leaves the index behind the last byte. -/
def advancesIndex (d : Dialect) : Bool := d.strictCosmac && !d.romCompatibility

/-- Both switches, as text. -/
def record (d : Dialect) : String :=
  Text.record "Quirks"
    [("strict_cosmac", toString d.strictCosmac), ("rom_compatibility", toString d.romCompatibility)]

end Dialect

/-- The switches of a machine that are no part of the instruction set. -/
structure Settings where
  /-- Print each instruction as it runs. -/
  debug : Bool := false
  /-- A jump to itself shuts the peripheral down and halts. -/
  endOnLoop : Bool := true
  /-- A jump to itself starts the program afresh, unless it ends it. -/
  restartOnLoop : Bool := false
  dialect : Dialect := {}
deriving DecidableEq, Repr

namespace Settings

/-- Turns printing on or off. -/
def toggleDebug (s : Settings) : Settings := { s with debug := !s.debug }

/-- All switches, as text. -/
def record (s : Settings) : String :=
  Text.record "Flags"
    [("debug", toString s.debug), ("end_on_infinite_loop", toString s.endOnLoop),
     ("restart_on_infinite_loop", toString s.restartOnLoop), ("quirks", s.dialect.record)]

end Settings

end Chip8

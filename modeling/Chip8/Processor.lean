/-
The processor: registers, memory, call stack, and the program it was given.

Loading a program empties program memory first, and only then may refuse it
(`load`); resetting puts the remembered program back and starts it afresh
(`reset`). Neither touches the settings.
-/
import Chip8.CallStack
import Chip8.Listing
import Chip8.Memory
import Chip8.Settings

namespace Chip8

open Text

/-- The sixteen registers v0 to vF. -/
abbrev Registers := Vector UInt8 16

/-- The state of the processor. -/
structure Processor where
  settings : Settings := {}
  memory : Memory := Memory.new 0x50 0x200
  /-- Where the glyphs are, as the program sees it. -/
  font : UInt16 := 0x50
  /-- Where the program starts. -/
  start : UInt16 := 0x200
  stack : CallStack := {}
  /-- The last program that was loaded. -/
  rom : List UInt8 := []
  pc : UInt16 := 0x200
  index : UInt16 := 0
  v : Registers := Vector.replicate 16 0
  /-- How many instructions were run. -/
  cycle : Nat := 0
  /-- The listing that traces are printed with, as the last one left it. -/
  tracer : Listing := {}
deriving DecidableEq

namespace Processor

/-- A processor with the glyphs at one address and the program at another. -/
def new (font start : UInt16) (settings : Settings) : Processor :=
  { settings, memory := Memory.new font start, font, start, pc := start }

/-- The value of a register. -/
def get (c : Processor) (x : Register) : UInt8 := c.v[x]

/-- Sets a register. -/
def set (c : Processor) (x : Register) (value : UInt8) : Processor :=
  { c with v := c.v.set x.val value x.isLt }

/-- The register that instructions report to. -/
def flag : Register := ⟨15, by decide⟩

/-- Sets the flag register to 1 or 0. -/
def setFlag (c : Processor) (on : Bool) : Processor := c.set flag (if on then 1 else 0)

/-- Sets a register given by its number; there are none past F. -/
def setRegister (c : Processor) (register : Nat) (value : UInt8) : Except Fault Processor :=
  if h : register < 16 then .ok (c.set ⟨register, h⟩ value) else .error (.noSuchRegister register)

/-- Empties program memory and puts a program there. A program that does not
fit is refused, and program memory stays empty. -/
def load (c : Processor) (rom : List UInt8) : Processor × Except Fault Unit :=
  let cleared := c.memory.clearRegion .program
  match cleared.loadRegion .program rom with
  | .ok memory => ({ c with memory, rom }, .ok ())
  | .error fault => ({ c with memory := cleared }, .error fault)

/-- Loads a program from a file that the host may not have. -/
def loadFile (c : Processor) (file : Except HostFault (List UInt8)) : Processor × Except Fault Unit :=
  match file with
  | .ok rom => c.load rom
  | .error cause => (c, .error (.host cause))

/-- Starts the remembered program afresh: program memory, call stack, program
counter, index, registers and cycle count. -/
def reset (c : Processor) : Processor × Option Fault :=
  let cleared := c.memory.clearRegion .program
  let fresh := { c with
    memory := cleared, stack := c.stack.clear, pc := c.start, index := 0
    v := Vector.replicate 16 0, cycle := 0 }
  match cleared.loadRegion .program c.rom with
  | .ok memory => ({ fresh with memory }, none)
  | .error fault => (fresh, some fault)

/-- The registers, four to a line. -/
def registerLines (v : Registers) : String :=
  String.join <| (List.finRange 16).map fun r =>
    "v" ++ hexUpper r.val ++ ": " ++ hex 2 v[r].toNat ++ " " ++ if r.val % 4 = 3 then "\n" else ""

/-- All registers and the cycle count, as a listing. -/
def dump (c : Processor) : String :=
  "PC: " ++ hex 4 c.pc.toNat ++ ", SP: " ++ toString c.stack.top ++ ", I: " ++ hex 4 c.index.toNat ++
    "\n" ++ registerLines c.v ++ "CYC: " ++ alignRight 6 ' ' (toString c.cycle)

/-- Everything but memory and the program, as text. -/
def record (c : Processor) : String :=
  openRecord "CPU"
    [("flags", c.settings.record), ("font", toString c.font), ("stack", c.stack.record),
     ("pc", toString c.pc), ("i", toString c.index), ("v", listing (c.v.toList.map toString)),
     ("cycle", toString c.cycle)]

end Processor

end Chip8

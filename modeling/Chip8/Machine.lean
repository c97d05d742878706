/-
The machine: a processor, a screen and a channel to the peripheral.

`step` runs one instruction: fetch, count, print if asked to, advance, decode,
execute. The random byte an instruction may need is an argument, so a step is
a function. A fault leaves the machine as far as the step got; `Outcome` says
how an instruction that ran came out.
-/
import Chip8.Buzzer
import Chip8.Channel
import Chip8.Processor.Operations
import Chip8.Timer

namespace Chip8

open Text

/-- How an instruction came out. -/
inductive Outcome where
  /-- It ran. -/
  | continued
  /-- It waits for a key, and will run again. -/
  | waiting
  /-- The program jumped to itself, and the peripheral was shut down. -/
  | halted
deriving DecidableEq, Repr

/-- A processor, a screen and a channel. -/
structure Machine where
  cpu : Processor := {}
  screen : Screen := Screen.standard
  channel : Channel := {}

namespace Machine

/-- Changes the processor alone. -/
def updateProcessor (m : Machine) (f : Processor → Processor) : Machine := { m with cpu := f m.cpu }

/-- Changes the channel alone. -/
def updateChannel (m : Machine) (f : Channel → Channel) : Machine := { m with channel := f m.channel }

/-- Adds to the log. -/
def note (m : Machine) (level : Level) (origin : Origin) (text : String) : Machine :=
  m.updateChannel (·.note level origin text)

/-- Sends the screen. -/
def showScreen (m : Machine) : Machine := m.updateChannel (·.updateScreen m.screen)

/-- Darkens the screen and sends it. -/
def clearScreen (m : Machine) : Machine := { m with screen := m.screen.clear }.showScreen

/-- Starts the remembered program afresh. -/
def reset (m : Machine) : Machine :=
  match m.cpu.reset with
  | (cpu, none) => { m with cpu }
  | (cpu, some fault) => { m with cpu }.note .warn .processor fault.message

/-- Returns to the caller; without one, goes on with the next instruction. -/
def returnToCaller (m : Machine) : Machine :=
  match m.cpu.stack.pop with
  | (stack, .ok address) => m.updateProcessor fun c => { c with stack, pc := address }
  | (stack, .error fault) =>
    (m.updateProcessor fun c => { c with stack }).note .warn .instruction
      (fault.message ++ " at " ++ hex 3 (m.cpu.pc - 2).toNat)

/-- Calls a routine. With no level of the stack left the return address is
lost, and the routine is called all the same. -/
def call (m : Machine) (target : Address) : Machine :=
  match m.cpu.stack.push m.cpu.pc with
  | (stack, .ok ()) => m.updateProcessor fun c => { c with stack }.jump target
  | (stack, .error fault) =>
    (m.note .warn .instruction fault.message).updateProcessor fun c => { c with stack }.jump target

/-- Starts over: program, timers, buzzer and screen. -/
def restart (m : Machine) : Machine :=
  let m := m.reset
  let m := m.updateChannel fun c => c.update fun s => (s.setDelay 0).setSoundTimer 0
  let m := m.updateChannel (·.updateSound false)
  m.clearScreen

/-- Goes on at an address. A jump to itself ends the program, starts it over or
spins, as the settings say. -/
def jump (m : Machine) (target : Address) : Machine × Outcome :=
  let address := UInt16.ofNat target.val
  if address + 2 ≠ m.cpu.pc then (m.updateProcessor (·.jump target), .continued)
  else if m.cpu.settings.endOnLoop then
    let m := m.note .info .instruction ("infinite loop at " ++ hex 3 target.val ++ ", halting")
    (m.updateChannel Channel.shutdown, .halted)
  else if m.cpu.settings.restartOnLoop then
    let m := m.note .info .instruction ("infinite loop at " ++ hex 3 target.val ++ ", restarting")
    (m.restart, .continued)
  else (m.updateProcessor (·.jump target), .continued)

/-- Draws the sprite at the index, its top left corner at (vX, vY) wrapped onto
the screen; what reaches over an edge is cut off. The flag tells whether a lit
pixel went dark. -/
def draw (m : Machine) (x y : Register) (rows : Nibble) : Machine × Except Fault Outcome :=
  if m.screen.width = 0 ∨ m.screen.height = 0 then (m, .error .emptyScreen)
  else
    let left := (m.cpu.get x).toNat % m.screen.width
    let top := (m.cpu.get y).toNat % m.screen.height
    let points := Processor.spritePoints left top (m.cpu.spriteRows rows.val)
    let (screen, hit) := m.screen.flipAll points
    ({ m with screen, cpu := m.cpu.setFlag hit }.showScreen, .ok .continued)

/-- Puts the least key that is held into vX, or steps back to wait for one. -/
def awaitKey (m : Machine) (x : Register) : Machine × Outcome :=
  match m.channel.shared.lowestKey? with
  | some key => (m.updateProcessor (·.set x key), .continued)
  | none => (m.updateProcessor Processor.rewind, .waiting)

/-- Switches the buzzer on or off, and sets its timer. -/
def setSound (m : Machine) (x : Register) : Machine :=
  let ticks := m.cpu.get x
  let m := m.updateChannel (·.updateSound (0 < ticks))
  m.updateChannel fun c => c.update fun s => s.setSoundTimer (Buzzer.stretch ticks)

/-- Runs an instruction, the program counter being past it already. -/
def execute (m : Machine) (random : UInt8) (i : Instruction) : Machine × Except Fault Outcome :=
  let plain (m : Machine) : Machine × Except Fault Outcome := (m, .ok .continued)
  let onProcessor (f : Processor → Processor) : Machine × Except Fault Outcome := plain (m.updateProcessor f)
  match i with
  | .clearScreen => plain m.clearScreen
  | .ret => plain m.returnToCaller
  | .jump a => let (m, outcome) := m.jump a; (m, .ok outcome)
  | .call a => plain (m.call a)
  | .skipIfByte x b => onProcessor fun c => c.skipIf (c.get x == b)
  | .skipUnlessByte x b => onProcessor fun c => c.skipIf (c.get x != b)
  | .skipIfEqual x y => onProcessor fun c => c.skipIf (c.get x == c.get y)
  | .setByte x b => onProcessor (·.set x b)
  | .addByte x b => onProcessor fun c => c.set x (c.get x + b)
  | .compute op x y => onProcessor (·.compute op x y)
  | .skipUnlessEqual x y => onProcessor fun c => c.skipIf (c.get x != c.get y)
  | .setIndex a => onProcessor fun c => { c with index := UInt16.ofNat a.val }
  | .jumpIndexed a => onProcessor (·.jumpIndexed a)
  | .random x mask => onProcessor (·.set x (random &&& mask))
  | .draw x y n => m.draw x y n
  | .skipIfKey x => onProcessor fun c => c.skipIf (m.channel.shared.isHeld (c.get x))
  | .skipUnlessKey x => onProcessor fun c => c.skipIf (!m.channel.shared.isHeld (c.get x))
  | .getDelay x => onProcessor (·.set x m.channel.shared.delay)
  | .awaitKey x => let (m, outcome) := m.awaitKey x; (m, .ok outcome)
  | .setDelay x => plain (m.updateChannel fun c => c.update (·.setDelay (m.cpu.get x)))
  | .setSound x => plain (m.setSound x)
  | .addIndex x => onProcessor (·.addIndex x)
  | .glyph x => onProcessor (·.pointAtGlyph x)
  | .decimal x => onProcessor (·.writeDecimal x)
  | .store x => onProcessor (·.storeRegisters x)
  | .load x => onProcessor (·.loadRegisters x)

/-- The word that jumps to its own address. -/
def selfJump (address : UInt16) : UInt16 := 0x1000 ||| address

/-- Prints the instruction that is about to run, unless it jumps to itself. The
listing is brought in line with the dialect first. -/
def printTrace (m : Machine) (address word : UInt16) : Machine :=
  if m.cpu.settings.debug && word != selfJump address then
    let m := m.updateProcessor fun c =>
      { c with tracer := { c.tracer with jumpsFromV0 := c.settings.dialect.jumpsFromV0 } }
    m.updateChannel (·.print (m.cpu.tracer.trace m.cpu.cycle address word))
  else m

/-- Runs one instruction. -/
def step (m : Machine) (random : UInt8) : Machine × Except Fault Outcome :=
  let address := m.cpu.pc
  match m.cpu.memory.readWord address with
  | none => (m, .error (.fetchOutOfBounds address))
  | some word =>
    let m := m.updateProcessor fun c => { c with cycle := c.cycle + 1 }
    let m := m.printTrace address word
    let m := m.updateProcessor Processor.advance
    match Instruction.ofWord? word with
    | some i => m.execute random i
    | none =>
      if word.toNat < 0x1000 then (m, .error (.machineCode word address))
      else
        (m.note .trace .processor
          ("ignoring unknown instruction " ++ hex 4 word.toNat ++ " at " ++ hex 3 address.toNat),
         .ok .continued)

/-- What a number of steps came to. -/
structure Run where
  machine : Machine
  /-- How each instruction came out, oldest first. -/
  outcomes : List Outcome
  /-- The fault that ended the run, if one did. -/
  fault? : Option Fault

/-- One step for each random byte, until the program halts or fails. -/
def steps (m : Machine) : List UInt8 → Run
  | [] => ⟨m, [], none⟩
  | random :: rest =>
    match m.step random with
    | (m, .error fault) => ⟨m, [], some fault⟩
    | (m, .ok .halted) => ⟨m, [.halted], none⟩
    | (m, .ok outcome) =>
      let run := steps m rest
      { run with outcomes := outcome :: run.outcomes }

/-- Steps until the program halts or fails, for at most so many steps; `none`
says that it was still running. The k-th step takes the k-th random byte. -/
def runFor (random : Nat → UInt8) : (limit k : Nat) → Machine → Machine × Option (Except Fault Unit)
  | 0, _, m => (m, none)
  | limit + 1, k, m =>
    match m.step (random k) with
    | (m, .error fault) => (m, some (.error fault))
    | (m, .ok .halted) => (m, some (.ok ()))
    | (m, .ok _) => runFor random limit (k + 1) m

/-- Sends the screen, starts the timer, shuts the peripheral down and waits for
the timer to end, all before its first tick. -/
def startAndStop (m : Machine) : Machine :=
  m.showScreen.updateChannel fun c => Timer.noteStop (Timer.noteStart c).shutdown

end Machine

end Chip8

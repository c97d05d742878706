/-
The machine on plain arrays. The machine keeps its invariants in its types: a
register is one of sixteen, an address stands for a cell, the cursor of the call
stack is at most twelve, the screen has a pixel for every point. `Flat` forgets
all that. Its parts are arrays of any size and numbers without bounds, and
everything that could go wrong with them is checked as it happens: an index, a
remainder, an allocation, a program that cannot be put back. The first such thing
is a `Breach`. It stops the computation and leaves the machine as it stands
(`Stopped`).

Memory has a table of regions, as the spans may lie anywhere. Pixels are bytes,
and sizes of the screen are machine words: the number of its pixels wraps, and so
does the place of a pixel. What reads no array (decoding, computing, the channel)
is the machine's own.
-/
import Chip8.Proofs.Actions

namespace Chip8

/-- What must never happen to a machine on plain arrays. -/
inductive Breach where
  | index (i size : Nat)
  | remainder
  /-- So many bytes cannot be allocated at once. -/
  | allocation (size : Nat)
  /-- A reset that could not put the program back. -/
  | refusedReset (fault : Fault)
deriving DecidableEq, Repr

/-- Something that goes well or is a breach. -/
abbrev Checked := Except Breach

/-- Machine words are less than this, and wrap. -/
def wordLimit : Nat := 0x10000000000000000

namespace Checked

def read {α : Type} (a : Array α) (i : Nat) : Checked α :=
  if h : i < a.size then .ok a[i] else .error (.index i a.size)

def write {α : Type} (a : Array α) (i : Nat) (x : α) : Checked (Array α) :=
  if h : i < a.size then .ok (a.set i x h) else .error (.index i a.size)

def remainder (n divisor : Nat) : Checked Nat :=
  if divisor = 0 then .error .remainder else .ok (n % divisor)

/-- A dark plane, whose number of pixels is a machine word. -/
def plane (width height : Nat) : Checked (Array UInt8) :=
  let size := width * height % wordLimit
  if size < planeLimit then .ok (Array.replicate size 0) else .error (.allocation size)

/-- Overwrites consecutive elements. -/
def copy {α : Type} (a : Array α) (start : Nat) : List α → Checked (Array α)
  | [] => .ok a
  | x :: xs => do
    let a ← write a start x
    copy a (start + 1) xs

end Checked

/-- The state of a machine on plain arrays. -/
structure Flat where
  settings : Settings
  memory : Array UInt8
  /-- The spans of the character set and of the program. -/
  regions : Array (Option Span)
  font : UInt16
  start : UInt16
  slots : Array UInt16
  top : Nat
  rom : List UInt8
  pc : UInt16
  index : UInt16
  v : Array UInt8
  cycle : Nat
  tracer : Listing
  width : Nat
  height : Nat
  pixels : Array UInt8
  channel : Channel

/-- A breach, and the machine as it stood. -/
structure Stopped where
  breach : Breach
  machine : Flat

/-- A computation of a machine that stops at the first breach. -/
abbrev Guarded := Except Stopped

namespace Flat

open Text

/-- Does what may be a breach while the machine stands as it is. -/
def check {α : Type} (f : Flat) (c : Checked α) : Guarded α := c.mapError fun breach => ⟨breach, f⟩

/-! ## Registers and memory -/

def get (f : Flat) (x : Nat) : Guarded UInt8 := f.check (Checked.read f.v x)

def set (f : Flat) (x : Nat) (value : UInt8) : Guarded Flat := do
  let v ← f.check (Checked.write f.v x value)
  .ok { f with v }

def readByte (f : Flat) (address : UInt16) : Guarded UInt8 :=
  f.check (Checked.read f.memory (address.toNat % memorySize))

def writeByte (f : Flat) (address : UInt16) (value : UInt8) : Guarded Flat := do
  let memory ← f.check (Checked.write f.memory (address.toNat % memorySize) value)
  .ok { f with memory }

def writeBytes (f : Flat) (address : UInt16) : List UInt8 → Guarded Flat
  | [] => .ok f
  | b :: bs => do
    let f ← f.writeByte address b
    f.writeBytes (address + 1) bs

/-- The word at an address, if both of its bytes are present. -/
def fetch (f : Flat) (address : UInt16) : Guarded (Option UInt16) :=
  if address.toNat + 1 < f.memory.size then do
    let high ← f.check (Checked.read f.memory address.toNat)
    let low ← f.check (Checked.read f.memory (address.toNat + 1))
    .ok (some (wordOfBytes high low))
  else .ok none

/-- The number of the program in the table of regions. -/
def programRegion : Nat := 1

/-- A region of the table, if all of it is in memory. -/
def region? (f : Flat) (number : Nat) : Option Span :=
  match f.regions[number]? with
  | some (some s) => if s.start ≤ s.stop ∧ s.stop ≤ f.memory.size then some s else none
  | _ => none

def clearProgram (f : Flat) : Flat :=
  match f.region? programRegion with
  | none => f
  | some s =>
    { f with memory := f.memory.mapIdx fun i b => if s.start ≤ i ∧ i < s.stop then 0 else b }

/-- Puts a program into program memory; one that is too long is refused. -/
def loadProgram (f : Flat) (rom : List UInt8) : Guarded (Except Fault Flat) :=
  match f.region? programRegion with
  | none => .ok (.ok f)
  | some s =>
    if rom.length ≤ s.length then do
      let memory ← f.check (Checked.copy f.memory s.start rom)
      .ok (.ok { f with memory })
    else .ok (.error (.romTooLarge rom.length s.length))

def load (f : Flat) (rom : List UInt8) : Guarded Flat := do
  match ← f.clearProgram.loadProgram rom with
  | .ok f => .ok { f with rom }
  | .error _ => .ok f.clearProgram

def reset (f : Flat) : Guarded Flat := do
  match ← f.clearProgram.loadProgram f.rom with
  | .ok f => .ok { f with top := 0, pc := f.start, index := 0, v := Array.replicate 16 0, cycle := 0 }
  | .error fault => .error ⟨.refusedReset fault, f.clearProgram⟩

/-! ## The screen -/

def pixelIndex? (f : Flat) (x y : Nat) : Option Nat :=
  if x < f.width ∧ y < f.height then some ((y * f.width + x) % wordLimit) else none

def pixel (f : Flat) (x y : Nat) : Checked UInt8 :=
  match f.pixelIndex? x y with
  | some i => Checked.read f.pixels i
  | none => .ok 0

/-- Flips the pixel at a point, if there is one, and tells whether it was lit. -/
def flip (f : Flat) (x y : Nat) : Guarded (Flat × Bool) :=
  match f.pixelIndex? x y with
  | some i => do
    let was ← f.check (Checked.read f.pixels i)
    let pixels ← f.check (Checked.write f.pixels i (was ^^^ 1))
    .ok ({ f with pixels }, was != 0)
  | none => .ok (f, false)

/-- Flips a point of a sprite, and raises the flag if it was lit. -/
def drawPoint (f : Flat) (point : Nat × Nat) : Guarded Flat := do
  let (f, was) ← f.flip point.1 point.2
  if was then f.set 15 1 else .ok f

def darken (f : Flat) : Flat := { f with pixels := f.pixels.map fun _ => 0 }

/-- Eight pixels to a byte, each put into its place. -/
def pack (f : Flat) : Checked (Array UInt8) :=
  (List.range f.pixels.size).foldlM (fun packed k => do
    let p ← Checked.read f.pixels k
    let byte ← Checked.read packed (k / 8)
    Checked.write packed (k / 8) (byte ||| ((p &&& 1) <<< UInt8.ofNat (7 - k % 8))))
    (Array.replicate ((f.pixels.size + 7) / 8) 0)

def onChannel (f : Flat) (g : Channel → Channel) : Flat := { f with channel := g f.channel }

def note (f : Flat) (level : Level) (origin : Origin) (text : String) : Flat :=
  f.onChannel (·.note level origin text)

def showScreen (f : Flat) : Guarded Flat :=
  if f.width ≤ 255 ∧ f.height ≤ 255 then do
    let packed ← f.check f.pack
    .ok <| f.onChannel fun c => c.push { c.snapshot with
      screen := some packed.toList, width := UInt8.ofNat f.width, height := UInt8.ofNat f.height }
  else
    .ok <| f.note .warn .channel
      ("screen of " ++ toString f.width ++ "x" ++ toString f.height ++ " is too large to send")

/-! ## Instructions -/

/-- The instruction ran. -/
def ran (f : Flat) : Guarded (Flat × Except Fault Outcome) := .ok (f, .ok .continued)

def advance (f : Flat) : Flat := { f with pc := f.pc + 2 }

def skipIf (f : Flat) (condition : Bool) : Flat := if condition then f.advance else f

def returnToCaller (f : Flat) : Guarded Flat :=
  match f.top with
  | 0 => .ok <| f.note .warn .instruction
      (Fault.stackUnderflow.message ++ " at " ++ hex 3 (f.pc - 2).toNat)
  | top + 1 => do
    let pc ← f.check (Checked.read f.slots top)
    .ok { f with top, pc }

def call (f : Flat) (target : Address) : Guarded Flat :=
  if f.top < f.slots.size then do
    let slots ← f.check (Checked.write f.slots f.top f.pc)
    .ok { f with slots, top := f.top + 1, pc := UInt16.ofNat target.val }
  else
    .ok { f.note .warn .instruction (Fault.stackOverflow f.pc stackDepth).message with
      pc := UInt16.ofNat target.val }

/-- The return addresses, oldest first. -/
def calls (f : Flat) : Checked (List UInt16) :=
  (List.range f.top).mapM fun i => Checked.read f.slots i

def restart (f : Flat) : Guarded Flat := do
  let f ← f.reset
  let f := f.onChannel fun c => c.update fun s => (s.setDelay 0).setSoundTimer 0
  (f.onChannel (·.updateSound false)).darken.showScreen

def jump (f : Flat) (target : Address) : Guarded (Flat × Outcome) :=
  let address := UInt16.ofNat target.val
  if address + 2 ≠ f.pc then .ok ({ f with pc := address }, .continued)
  else if f.settings.endOnLoop then
    .ok ((f.note .info .instruction ("infinite loop at " ++ hex 3 target.val ++ ", halting")).onChannel
      Channel.shutdown, .halted)
  else if f.settings.restartOnLoop then do
    let f ← (f.note .info .instruction ("infinite loop at " ++ hex 3 target.val ++ ", restarting")).restart
    .ok (f, .continued)
  else .ok ({ f with pc := address }, .continued)

def compute (f : Flat) (op : AluOp) (x y : Nat) : Guarded Flat := do
  let vx ← f.get x
  let vy ← f.get y
  match Processor.aluResult f.settings.dialect op vx vy with
  | (value, none) => f.set x value
  | (value, some carry) => do
    let f ← f.set x value
    f.set 15 carry

def draw (f : Flat) (x y : Nat) (rows : Nat) : Guarded Flat := do
  let vx ← f.get x
  let left ← f.check (Checked.remainder vx.toNat f.width)
  let vy ← f.get y
  let top ← f.check (Checked.remainder vy.toNat f.height)
  let f ← f.set 15 0
  -- No row is in the way of another: drawing writes pixels and the flag only.
  let sprite ← (List.range rows).mapM fun r => f.readByte (f.index + UInt16.ofNat r)
  let f ← (Processor.spritePoints left top sprite).foldlM drawPoint f
  f.showScreen

def awaitKey (f : Flat) (x : Nat) : Guarded (Flat × Outcome) :=
  match f.channel.shared.lowestKey? with
  | some key => do
    let f ← f.set x key
    .ok (f, .continued)
  | none => .ok ({ f with pc := f.pc - 2 }, .waiting)

def addIndex (f : Flat) (x : Nat) : Guarded Flat := do
  let vx ← f.get x
  let sum := f.index.toNat + vx.toNat
  let g := { f with index := UInt16.ofNat (sum % memorySize) }
  if f.settings.dialect.flagsIndexOverflow then g.set 15 (if memorySize ≤ sum then 1 else 0) else .ok g

def passIndex (f : Flat) (x : Nat) : Flat :=
  if f.settings.dialect.advancesIndex then { f with index := f.index + UInt16.ofNat (x + 1) } else f

def storeRegisters (f : Flat) (x : Nat) : Guarded Flat := do
  let values ← (List.range (x + 1)).mapM f.get
  let f ← f.writeBytes f.index values
  .ok (f.passIndex x)

def loadRegisters (f : Flat) (x : Nat) : Guarded Flat := do
  let f ← (List.range (x + 1)).foldlM (fun f r => do
    let byte ← f.readByte (f.index + UInt16.ofNat r)
    f.set r byte) f
  .ok (f.passIndex x)

def execute (f : Flat) (random : UInt8) : Instruction → Guarded (Flat × Except Fault Outcome)
  | .clearScreen => do (← f.darken.showScreen).ran
  | .ret => do (← f.returnToCaller).ran
  | .jump a => do let (f, outcome) ← f.jump a; .ok (f, .ok outcome)
  | .call a => do (← f.call a).ran
  | .skipIfByte x b => do (f.skipIf ((← f.get x) == b)).ran
  | .skipUnlessByte x b => do (f.skipIf ((← f.get x) != b)).ran
  | .skipIfEqual x y => do (f.skipIf ((← f.get x) == (← f.get y))).ran
  | .setByte x b => do (← f.set x b).ran
  | .addByte x b => do (← f.set x ((← f.get x) + b)).ran
  | .compute op x y => do (← f.compute op x y).ran
  | .skipUnlessEqual x y => do (f.skipIf ((← f.get x) != (← f.get y))).ran
  | .setIndex a => ran { f with index := UInt16.ofNat a.val }
  | .jumpIndexed a => do
    let offset ← f.get (Processor.jumpRegister f.settings.dialect a)
    ran { f with pc := UInt16.ofNat a.val + UInt16.ofNat offset.toNat }
  | .random x mask => do (← f.set x (random &&& mask)).ran
  | .draw x y n => do (← f.draw x y n).ran
  | .skipIfKey x => do (f.skipIf (f.channel.shared.isHeld (← f.get x))).ran
  | .skipUnlessKey x => do (f.skipIf (!f.channel.shared.isHeld (← f.get x))).ran
  | .getDelay x => do (← f.set x f.channel.shared.delay).ran
  | .awaitKey x => do let (f, outcome) ← f.awaitKey x; .ok (f, .ok outcome)
  | .setDelay x => do
    let ticks ← f.get x
    (f.onChannel fun c => c.update (·.setDelay ticks)).ran
  | .setSound x => do
    let ticks ← f.get x
    ((f.onChannel (·.updateSound (0 < ticks))).onChannel fun c =>
      c.update (·.setSoundTimer (Buzzer.stretch ticks))).ran
  | .addIndex x => do (← f.addIndex x).ran
  | .glyph x => do
    let digit ← f.get x
    ran { f with index := f.font + UInt16.ofNat (5 * digit.toNat) }
  | .decimal x => do
    let n := (← f.get x).toNat
    (← f.writeBytes f.index [UInt8.ofNat (n / 100 % 10), UInt8.ofNat (n / 10 % 10), UInt8.ofNat (n % 10)]).ran
  | .store x => do (← f.storeRegisters x).ran
  | .load x => do (← f.loadRegisters x).ran

/-! ## Steps and operations -/

def printTrace (f : Flat) (address word : UInt16) : Flat :=
  if f.settings.debug && word != Machine.selfJump address then
    let tracer := { f.tracer with jumpsFromV0 := f.settings.dialect.jumpsFromV0 }
    { f with tracer }.onChannel (·.print (tracer.trace f.cycle address word))
  else f

/-- The machine as an instruction finds it. -/
def fetched (f : Flat) (word : UInt16) : Flat :=
  ({ f with cycle := f.cycle + 1 }.printTrace f.pc word).advance

def step (f : Flat) (random : UInt8) : Guarded (Flat × Except Fault Outcome) := do
  match ← f.fetch f.pc with
  | none => .ok (f, .error (.fetchOutOfBounds f.pc))
  | some word =>
    match Instruction.ofWord? word with
    | some i => (f.fetched word).execute random i
    | none =>
      if word.toNat < 0x1000 then .ok (f.fetched word, .error (.machineCode word f.pc))
      else
        .ok ((f.fetched word).note .trace .processor
          ("ignoring unknown instruction " ++ hex 4 word.toNat ++ " at " ++ hex 3 f.pc.toNat), .ok .continued)

def onShared (f : Flat) (g : SharedState → SharedState) : Flat := f.onChannel (·.update g)

def perform (f : Flat) : Action → Guarded Flat
  | .step random => do let (f, _) ← f.step random; .ok f
  | .tickTimer => .ok (f.onChannel Timer.tick)
  | .setKeys keys => .ok (f.onShared (·.setKeys keys))
  | .press key => .ok (f.onShared fun s => orKeep s (s.press key))
  | .release key => .ok (f.onShared fun s => orKeep s (s.release key))
  | .receive datagram => .ok (f.onShared fun s => (Keypad.receive s datagram).1)
  | .showScreen => f.showScreen
  | .updateSound on => .ok (f.onChannel (·.updateSound on))
  | .updateSoundAndKeys => .ok (f.onChannel Channel.updateSoundAndKeys)
  | .shutdown => .ok (f.onChannel Channel.shutdown)

def operate (f : Flat) : Operation → Guarded Flat
  | .act action => f.perform action
  | .load rom => f.load rom
  | .reset => f.reset
  | .setRegister register value => if register < f.v.size then f.set register value else .ok f
  | .replaceSettings settings => .ok { f with settings }
  | .flip x y => do let (f, _) ← f.flip x y; .ok f
  | .darken => .ok f.darken
  | .setDelay ticks => .ok (f.onShared (·.setDelay ticks))
  | .setSoundTimer ticks => .ok (f.onShared (·.setSoundTimer ticks))
  | .stop => .ok (f.onShared SharedState.stop)

/-- Some operations, one after the other. -/
def operateAll (f : Flat) (operations : List Operation) : Guarded Flat := operations.foldlM operate f

/-- A machine without a program: memory is empty but for the glyphs, as many of
them as fit. -/
def boot (font start : UInt16) (settings : Settings) (width height : Nat) (channel : Channel) :
    Checked Flat := do
  let charset : Span :=
    ⟨font.toNat % memorySize, min (font.toNat % memorySize + glyphs.length) memorySize⟩
  let program : Span := ⟨start.toNat % memorySize, memorySize⟩
  let memory ← Checked.copy (Array.replicate memorySize 0) charset.start (glyphs.take charset.length)
  let pixels ← Checked.plane width height
  .ok { settings, memory, regions := #[some charset, some program], font, start
        slots := Array.replicate stackDepth 0, top := 0, rom := [], pc := start, index := 0
        v := Array.replicate 16 0, cycle := 0, tracer := {}
        width, height, pixels, channel }

end Flat

end Chip8

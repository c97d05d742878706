/-
What instructions do to the processor alone. Instructions that compute write
their result first and the flag last, so that the flag wins when the result
goes to vF; every operand is read before either is written.
-/
import Chip8.Processor

namespace Chip8.Processor

/-- Moves on to the next instruction. -/
def advance (c : Processor) : Processor := { c with pc := c.pc + 2 }

/-- Goes back to the instruction before. -/
def rewind (c : Processor) : Processor := { c with pc := c.pc - 2 }

/-- Skips an instruction if told to. -/
def skipIf (c : Processor) (condition : Bool) : Processor := if condition then c.advance else c

/-- Goes on at an address. -/
def jump (c : Processor) (target : Address) : Processor := { c with pc := UInt16.ofNat target.val }

/-- The register that an indexed jump adds. -/
def jumpRegister (d : Dialect) (target : Address) : Register :=
  lastDigit (if d.jumpsFromV0 then 0 else target.val / 256)

/-- Goes on at an address plus a register. -/
def jumpIndexed (c : Processor) (target : Address) : Processor :=
  let offset := c.get (jumpRegister c.settings.dialect target)
  { c with pc := UInt16.ofNat target.val + UInt16.ofNat offset.toNat }

/-- What a computation makes of vX and vY: the new vX, and the new flag if it
sets one. The operand of shifts depends on the dialect. -/
def aluResult (d : Dialect) (op : AluOp) (x y : UInt8) : UInt8 × Option UInt8 :=
  let shifted := if d.shiftsFromY then y else x
  match op with
  | .copy => (y, none)
  | .or => (x ||| y, none)
  | .and => (x &&& y, none)
  | .xor => (x ^^^ y, none)
  | .add => (x + y, some (if 256 ≤ x.toNat + y.toNat then 1 else 0))
  | .sub => (x - y, some (if y < x then 1 else 0))
  | .shiftRight => (shifted >>> 1, some (shifted &&& 1))
  | .reverseSub => (y - x, some (if x < y then 1 else 0))
  | .shiftLeft => (shifted <<< 1, some (shifted >>> 7))

/-- Computes from vX and vY into vX. -/
def compute (c : Processor) (op : AluOp) (x y : Register) : Processor :=
  match aluResult c.settings.dialect op (c.get x) (c.get y) with
  | (value, none) => c.set x value
  | (value, some carry) => (c.set x value).set flag carry

/-- Adds vX to the index, which keeps twelve bits. -/
def addIndex (c : Processor) (x : Register) : Processor :=
  let sum := c.index.toNat + (c.get x).toNat
  let c' := { c with index := UInt16.ofNat (sum % memorySize) }
  if c.settings.dialect.flagsIndexOverflow then c'.setFlag (memorySize ≤ sum) else c'

/-- Points the index at the glyph of vX. -/
def pointAtGlyph (c : Processor) (x : Register) : Processor :=
  { c with index := c.font + UInt16.ofNat (5 * (c.get x).toNat) }

/-- Writes the hundreds, tens and ones of vX from the index on. -/
def writeDecimal (c : Processor) (x : Register) : Processor :=
  let n := (c.get x).toNat
  let digits := [UInt8.ofNat (n / 100 % 10), UInt8.ofNat (n / 10 % 10), UInt8.ofNat (n % 10)]
  { c with memory := c.memory.writeAll c.index digits }

/-- Leaves the index behind a transfer up to vX, where the dialect wants that. -/
def passIndex (c : Processor) (x : Register) : Processor :=
  if c.settings.dialect.advancesIndex then { c with index := c.index + UInt16.ofNat (x.val + 1) } else c

/-- Writes the registers up to vX from the index on. -/
def storeRegisters (c : Processor) (x : Register) : Processor :=
  { c with memory := c.memory.writeAll c.index (c.v.toList.take (x.val + 1)) }.passIndex x

/-- Reads the registers up to vX from the index on. -/
def loadRegisters (c : Processor) (x : Register) : Processor :=
  { c with v := Vector.ofFn fun r =>
      if r ≤ x then c.memory.read (c.index + UInt16.ofNat r.val) else c.get r }.passIndex x

/-- The rows of the sprite at the index. -/
def spriteRows (c : Processor) (rows : Nat) : List UInt8 :=
  (List.range rows).map fun r => c.memory.read (c.index + UInt16.ofNat r)

/-- The points a sprite covers, when its top left corner is at (`left`, `top`):
one for each bit that is set, the highest bit leftmost. -/
def spritePoints (left top : Nat) (rows : List UInt8) : List (Nat × Nat) :=
  rows.zipIdx.flatMap fun (row, r) =>
    (List.range 8).filterMap fun b =>
      if row.toNat.testBit (7 - b) then some (left + b, top + r) else none

end Chip8.Processor

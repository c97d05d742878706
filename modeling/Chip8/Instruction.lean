/-
The instruction set: 34 forms of a word, most of them with operands.

`Instruction.ofWord?` reads a word and `Instruction.toWord` writes it back.
Words of no form are not instructions; those whose first digit is 0 call a
native routine, the others are passed over by the machine.
-/
import Chip8.Memory

namespace Chip8

/-- One of the registers v0 to vF. -/
abbrev Register := Fin 16

/-- A half byte. -/
abbrev Nibble := Fin 16

/-- An address as instructions hold it. -/
abbrev Address := Fin 4096

/-- The last hexadecimal digit of a number. -/
def lastDigit (n : Nat) : Fin 16 := ⟨n % 16, Nat.mod_lt _ (by decide)⟩

/-- The last three hexadecimal digits of a number. -/
def lastAddress (n : Nat) : Address := ⟨n % 4096, Nat.mod_lt _ (by decide)⟩

/-- What the instructions that begin with 8 compute from vX and vY. -/
inductive AluOp where
  | copy
  | or
  | and
  | xor
  | add
  | sub
  | shiftRight
  | reverseSub
  | shiftLeft
deriving DecidableEq, Repr

/-- The last digit of a computing instruction. -/
def AluOp.digit : AluOp → Nat
  | .copy => 0
  | .or => 1
  | .and => 2
  | .xor => 3
  | .add => 4
  | .sub => 5
  | .shiftRight => 6
  | .reverseSub => 7
  | .shiftLeft => 14

/-- The computation a last digit stands for. -/
def AluOp.ofDigit? : Nat → Option AluOp
  | 0 => some .copy
  | 1 => some .or
  | 2 => some .and
  | 3 => some .xor
  | 4 => some .add
  | 5 => some .sub
  | 6 => some .shiftRight
  | 7 => some .reverseSub
  | 14 => some .shiftLeft
  | _ => none

/-- An instruction with its operands. -/
inductive Instruction where
  /-- `00E0` darkens the screen. -/
  | clearScreen
  /-- `00EE` returns to the caller. -/
  | ret
  /-- `1nnn` goes on at an address. -/
  | jump (target : Address)
  /-- `2nnn` calls the routine at an address. -/
  | call (target : Address)
  /-- `3xkk` skips the next instruction if vX is the byte. -/
  | skipIfByte (x : Register) (byte : UInt8)
  /-- `4xkk` skips the next instruction unless vX is the byte. -/
  | skipUnlessByte (x : Register) (byte : UInt8)
  /-- `5xy0` skips the next instruction if vX is vY. -/
  | skipIfEqual (x y : Register)
  /-- `6xkk` sets vX. -/
  | setByte (x : Register) (byte : UInt8)
  /-- `7xkk` adds to vX. -/
  | addByte (x : Register) (byte : UInt8)
  /-- `8xy_` computes from vX and vY into vX. -/
  | compute (op : AluOp) (x y : Register)
  /-- `9xy0` skips the next instruction unless vX is vY. -/
  | skipUnlessEqual (x y : Register)
  /-- `Annn` sets the index. -/
  | setIndex (target : Address)
  /-- `Bnnn` goes on at an address plus a register. -/
  | jumpIndexed (target : Address)
  /-- `Cxkk` sets vX to random bits under a mask. -/
  | random (x : Register) (mask : UInt8)
  /-- `Dxyn` draws a sprite of n rows at (vX, vY). -/
  | draw (x y : Register) (rows : Nibble)
  /-- `Ex9E` skips the next instruction if the key vX is held. -/
  | skipIfKey (x : Register)
  /-- `ExA1` skips the next instruction unless the key vX is held. -/
  | skipUnlessKey (x : Register)
  /-- `Fx07` reads the delay timer. -/
  | getDelay (x : Register)
  /-- `Fx0A` waits for a key. -/
  | awaitKey (x : Register)
  /-- `Fx15` sets the delay timer. -/
  | setDelay (x : Register)
  /-- `Fx18` sounds the buzzer. -/
  | setSound (x : Register)
  /-- `Fx1E` adds vX to the index. -/
  | addIndex (x : Register)
  /-- `Fx29` points the index at the glyph of vX. -/
  | glyph (x : Register)
  /-- `Fx33` writes the decimal digits of vX. -/
  | decimal (x : Register)
  /-- `Fx55` writes the registers up to vX. -/
  | store (x : Register)
  /-- `Fx65` reads the registers up to vX. -/
  | load (x : Register)
deriving DecidableEq, Repr

namespace Instruction

/-- The instruction a word stands for, if it stands for one. -/
def ofWord? (word : UInt16) : Option Instruction :=
  let w := word.toNat
  let address := lastAddress w
  let x := lastDigit (w / 256)
  let y := lastDigit (w / 16)
  let low := w % 256
  let byte := UInt8.ofNat low
  let digit := w % 16
  match w / 4096 with
  | 0 => if w = 0x00E0 then some .clearScreen else if w = 0x00EE then some .ret else none
  | 1 => some (.jump address)
  | 2 => some (.call address)
  | 3 => some (.skipIfByte x byte)
  | 4 => some (.skipUnlessByte x byte)
  | 5 => if digit = 0 then some (.skipIfEqual x y) else none
  | 6 => some (.setByte x byte)
  | 7 => some (.addByte x byte)
  | 8 => (AluOp.ofDigit? digit).map (.compute · x y)
  | 9 => if digit = 0 then some (.skipUnlessEqual x y) else none
  | 10 => some (.setIndex address)
  | 11 => some (.jumpIndexed address)
  | 12 => some (.random x byte)
  | 13 => some (.draw x y (lastDigit w))
  | 14 =>
    match low with
    | 0x9E => some (.skipIfKey x)
    | 0xA1 => some (.skipUnlessKey x)
    | _ => none
  | _ =>
    match low with
    | 0x07 => some (.getDelay x)
    | 0x0A => some (.awaitKey x)
    | 0x15 => some (.setDelay x)
    | 0x18 => some (.setSound x)
    | 0x1E => some (.addIndex x)
    | 0x29 => some (.glyph x)
    | 0x33 => some (.decimal x)
    | 0x55 => some (.store x)
    | 0x65 => some (.load x)
    | _ => none

/-- The word an instruction is written as. -/
def toWord (i : Instruction) : UInt16 :=
  UInt16.ofNat <| match i with
    | .clearScreen => 0x00E0
    | .ret => 0x00EE
    | .jump a => 0x1000 + a.val
    | .call a => 0x2000 + a.val
    | .skipIfByte x b => 0x3000 + x.val * 256 + b.toNat
    | .skipUnlessByte x b => 0x4000 + x.val * 256 + b.toNat
    | .skipIfEqual x y => 0x5000 + x.val * 256 + y.val * 16
    | .setByte x b => 0x6000 + x.val * 256 + b.toNat
    | .addByte x b => 0x7000 + x.val * 256 + b.toNat
    | .compute op x y => 0x8000 + x.val * 256 + y.val * 16 + op.digit
    | .skipUnlessEqual x y => 0x9000 + x.val * 256 + y.val * 16
    | .setIndex a => 0xA000 + a.val
    | .jumpIndexed a => 0xB000 + a.val
    | .random x b => 0xC000 + x.val * 256 + b.toNat
    | .draw x y n => 0xD000 + x.val * 256 + y.val * 16 + n.val
    | .skipIfKey x => 0xE09E + x.val * 256
    | .skipUnlessKey x => 0xE0A1 + x.val * 256
    | .getDelay x => 0xF007 + x.val * 256
    | .awaitKey x => 0xF00A + x.val * 256
    | .setDelay x => 0xF015 + x.val * 256
    | .setSound x => 0xF018 + x.val * 256
    | .addIndex x => 0xF01E + x.val * 256
    | .glyph x => 0xF029 + x.val * 256
    | .decimal x => 0xF033 + x.val * 256
    | .store x => 0xF055 + x.val * 256
    | .load x => 0xF065 + x.val * 256

/-- Why bytes are no instruction, or a buffer takes none. -/
inductive CodingError where
  | unexpectedEnd
  | unknownWord
deriving DecidableEq, Repr

/-- Reads an instruction off the front of some bytes, and gives the bytes after it. -/
def decode : List UInt8 → Except CodingError (Instruction × List UInt8)
  | high :: low :: rest =>
    match ofWord? (wordOfBytes high low) with
    | some i => .ok (i, rest)
    | none => .error .unknownWord
  | _ => .error .unexpectedEnd

/-- Writes an instruction over the front of a buffer, and tells how many bytes it took. -/
def encode (i : Instruction) : List UInt8 → Except CodingError (Nat × List UInt8)
  | _ :: _ :: rest => .ok (2, highByte i.toWord :: lowByte i.toWord :: rest)
  | _ => .error .unexpectedEnd

/-- The buffer with an instruction written over its front. -/
def encodeInto (i : Instruction) (buffer : List UInt8) : Except CodingError (List UInt8) :=
  (i.encode buffer).map Prod.snd

end Instruction

end Chip8

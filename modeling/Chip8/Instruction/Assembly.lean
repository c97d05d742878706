/-
Instructions as text: `assembly` is the line a listing shows, `record` the
mnemonic with its operands as numbers.
-/
import Chip8.Instruction

namespace Chip8

open Text

/-- The mnemonic of a computation in a listing. -/
def AluOp.mnemonic : AluOp → String
  | .copy => "mov"
  | .or => "or"
  | .and => "and"
  | .xor => "xor"
  | .add => "add"
  | .sub => "sub"
  | .shiftRight => "shr"
  | .reverseSub => "bsub"
  | .shiftLeft => "shl"

namespace Instruction

/-- A register in a listing. -/
def registerText (x : Register) : String := "v" ++ hexUpper x.val

/-- A byte in a listing. -/
def byteText (b : UInt8) : String := "#" ++ hex 2 b.toNat

/-- A mnemonic in its column, then the operands. -/
def listed (mnemonic operands : String) : String := alignLeft 7 mnemonic ++ operands

/-- The line a listing shows. -/
def assembly : Instruction → String
  | .clearScreen => listed "cls" ""
  | .ret => listed "ret" ""
  | .jump a => listed "jmp" (hex 3 a.val)
  | .call a => listed "call" (hex 3 a.val)
  | .skipIfByte x b => listed "se" (byteText b ++ ", " ++ registerText x)
  | .skipUnlessByte x b => listed "sne" (byteText b ++ ", " ++ registerText x)
  | .skipIfEqual x y => listed "se" (registerText y ++ ", " ++ registerText x)
  | .setByte x b => listed "mov" (byteText b ++ ", " ++ registerText x)
  | .addByte x b => listed "add" (byteText b ++ ", " ++ registerText x)
  | .compute op x y => listed op.mnemonic (registerText y ++ ", " ++ registerText x)
  | .skipUnlessEqual x y => listed "sne" (registerText y ++ ", " ++ registerText x)
  | .setIndex a => listed "mov" ("$" ++ hex 3 a.val ++ ", I")
  | .jumpIndexed a => listed "jmp" ("$" ++ hex 3 a.val ++ "+v0")
  | .random x b => listed "rand" (byteText b ++ ", " ++ registerText x)
  | .draw x y n =>
    listed "draw" ("#" ++ hex 1 n.val ++ ", " ++ registerText x ++ ", " ++ registerText y)
  | .skipIfKey x => listed "sek" (registerText x)
  | .skipUnlessKey x => listed "snek" (registerText x)
  | .getDelay x => listed "mov" ("DT, " ++ registerText x)
  | .awaitKey x => listed "waitk" (registerText x)
  | .setDelay x => listed "mov" (registerText x ++ ", DT")
  | .setSound x => listed "mov" (registerText x ++ ", ST")
  | .addIndex x => listed "add" (registerText x ++ ", I")
  | .glyph x => listed "font" (registerText x ++ ", I")
  | .decimal x => listed "bcd" (registerText x ++ ", &I")
  | .store x => listed "dmao" (registerText x)
  | .load x => listed "dmai" (registerText x)

/-- An address operand as a field. -/
def addressField (a : Address) : Field := ("A", toString a.val)

/-- A register operand as a field. -/
def registerField (name : String) (x : Register) : Field := (name, toString x.val)

/-- A byte operand and a register operand as fields. -/
def byteFields (x : Register) (b : UInt8) : List Field := [("B", toString b), registerField "x" x]

/-- Two register operands as fields. -/
def pairFields (x y : Register) : List Field := [registerField "y" y, registerField "x" x]

/-- The instruction's name with its operands. -/
def record : Instruction → String
  | .clearScreen => Text.record "cls" []
  | .ret => Text.record "ret" []
  | .jump a => Text.record "jmp" [addressField a]
  | .call a => Text.record "call" [addressField a]
  | .skipIfByte x b => Text.record "seb" (byteFields x b)
  | .skipUnlessByte x b => Text.record "sneb" (byteFields x b)
  | .skipIfEqual x y => Text.record "se" (pairFields x y)
  | .setByte x b => Text.record "movb" (byteFields x b)
  | .addByte x b => Text.record "addb" (byteFields x b)
  | .compute .copy x y => Text.record "mov" [registerField "x" x, registerField "y" y]
  | .compute op x y => Text.record op.mnemonic (pairFields x y)
  | .skipUnlessEqual x y => Text.record "sne" (pairFields x y)
  | .setIndex a => Text.record "movI" [addressField a]
  | .jumpIndexed a => Text.record "jmpr" [addressField a]
  | .random x b => Text.record "rand" (byteFields x b)
  | .draw x y n => Text.record "draw" (pairFields x y ++ [("n", toString n.val)])
  | .skipIfKey x => Text.record "sek" [registerField "x" x]
  | .skipUnlessKey x => Text.record "snek" [registerField "x" x]
  | .getDelay x => Text.record "getdt" [registerField "x" x]
  | .awaitKey x => Text.record "waitk" [registerField "x" x]
  | .setDelay x => Text.record "setdt" [registerField "x" x]
  | .setSound x => Text.record "movst" [registerField "x" x]
  | .addIndex x => Text.record "addI" [registerField "x" x]
  | .glyph x => Text.record "font" [registerField "x" x]
  | .decimal x => Text.record "bcd" [registerField "x" x]
  | .store x => Text.record "dmao" [registerField "x" x]
  | .load x => Text.record "dmai" [registerField "x" x]

end Instruction

end Chip8

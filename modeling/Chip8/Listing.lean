/-
Disassembly: a word as the line of a listing, coloured for a terminal, and the
line of a trace around it.

An indexed jump names the register it adds, which depends on the dialect
(`Listing.jumpsFromV0`). The columns of a trace count the characters of
the colour codes as well.
-/
import Chip8.Instruction.Assembly

namespace Chip8

open Text

/-- What a terminal is told before and after a text. -/
structure Style where
  before : String := ""
  after : String := ""
deriving DecidableEq, Repr

/-- The text in a style. -/
def Style.apply (s : Style) (text : String) : String := s.before ++ text ++ s.after

/-- The dim grey of a trace's numbers. -/
def Style.dim : Style := ⟨"\x1b[90m", "\x1b[39m"⟩

/-- The styles of a listing, and the register that indexed jumps add. -/
structure Listing where
  valid : Style := ⟨"\x1b[32m", "\x1b[0m"⟩
  invalid : Style := ⟨"\x1b[31;1m", "\x1b[0m"⟩
  jumpsFromV0 : Bool := true
deriving DecidableEq, Repr

namespace Listing

/-- A listing that colours nothing. -/
def plain : Listing := { valid := {}, invalid := {} }

/-- The line an instruction has under this dialect. -/
def assembly (d : Listing) : Instruction → String
  | .jumpIndexed a =>
    if d.jumpsFromV0 then (Instruction.jumpIndexed a).assembly
    else Instruction.listed "jmp" ("$" ++ hex 3 a.val ++ "+v" ++ hexUpper (a.val / 256))
  | i => i.assembly

/-- The line of a word in a listing. -/
def line (d : Listing) (word : UInt16) : String :=
  match Instruction.ofWord? word with
  | some i => d.valid.apply (d.assembly i)
  | none => d.invalid.apply (Instruction.listed "inval" (hex 4 word.toNat))

/-- The line of a trace: the cycle, the address, the listing and the word. -/
def trace (d : Listing) (cycle : Nat) (address word : UInt16) : String :=
  Style.dim.apply (alignRight 3 ' ' (toString cycle)) ++ " " ++ hex 3 address.toNat ++ ": " ++
    alignLeft 36 (d.line word) ++ " " ++ Style.dim.apply (hex 4 word.toNat)

end Listing

end Chip8

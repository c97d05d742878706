/-
Memory: 4096 bytes, with the built-in glyphs at one address and the program
from another one on.

Two rules for addresses live side by side. An instruction is fetched
(`readWord`) only where both of its bytes are present; every other access
(`read`, `write`, `writeAll`) takes the address modulo 4096, so data wraps
around the end. Regions are runs of cells: the character set, cut off at the
end of memory, and the program, which reaches to the end.
-/
import Chip8.Fault

namespace Chip8

/-- The number of cells. -/
def memorySize : Nat := 4096

/-- The glyphs of the sixteen hexadecimal digits, five rows each. -/
def glyphs : List UInt8 := [
  0xf0, 0x90, 0x90, 0x90, 0xf0,
  0x20, 0x60, 0x20, 0x20, 0x70,
  0xf0, 0x10, 0xf0, 0x80, 0xf0,
  0xf0, 0x10, 0xf0, 0x10, 0xf0,
  0x90, 0x90, 0xf0, 0x10, 0x10,
  0xf0, 0x80, 0xf0, 0x10, 0xf0,
  0xf0, 0x80, 0xf0, 0x90, 0xf0,
  0xf0, 0x10, 0x20, 0x40, 0x40,
  0xf0, 0x90, 0xf0, 0x90, 0xf0,
  0xf0, 0x90, 0xf0, 0x10, 0xf0,
  0xf0, 0x90, 0xf0, 0x90, 0x90,
  0xe0, 0x90, 0xe0, 0x90, 0xe0,
  0xf0, 0x80, 0x80, 0x80, 0xf0,
  0xe0, 0x90, 0x90, 0x90, 0xe0,
  0xf0, 0x80, 0xf0, 0x80, 0xf0,
  0xf0, 0x80, 0xf0, 0x80, 0x80]

/-- The named parts of memory. An unmapped region has no cells: loading it and
clearing it change nothing. -/
inductive Region where
  | charset
  | program
  | unmapped
deriving DecidableEq, Repr

/-- The name a region is shown by. -/
def Region.name : Region → String
  | .charset => "Charset"
  | .program => "Program"
  | .unmapped => ""

/-- A run of cells, from `start` up to but not including `stop`. -/
structure Span where
  start : Nat
  stop : Nat
deriving DecidableEq, Repr

/-- The number of cells in a span. -/
def Span.length (s : Span) : Nat := s.stop - s.start

/-- A word of two bytes, the high one first. -/
def wordOfBytes (high low : UInt8) : UInt16 :=
  UInt16.ofNat (high.toNat * 256 + low.toNat)

/-- The high byte of a word. -/
def highByte (word : UInt16) : UInt8 := UInt8.ofNat (word.toNat / 256)

/-- The low byte of a word. -/
def lowByte (word : UInt16) : UInt8 := UInt8.ofNat word.toNat

/-- The cells, and where the glyphs and the program begin. -/
structure Memory where
  cells : Vector UInt8 memorySize
  charsetBase : Fin memorySize
  programBase : Fin memorySize
deriving DecidableEq

namespace Memory

/-- The cell an address stands for. -/
def cell (address : UInt16) : Fin memorySize :=
  ⟨address.toNat % memorySize, Nat.mod_lt _ (by decide)⟩

/-- Puts the data into consecutive cells from `start` on; what would lie past
the end is dropped. -/
def blit (cells : Vector UInt8 memorySize) (start : Nat) : List UInt8 → Vector UInt8 memorySize
  | [] => cells
  | b :: bs => blit (cells.setIfInBounds start b) (start + 1) bs

/-- The cells of a region, if it has any. -/
def span? (m : Memory) : Region → Option Span
  | .charset => some ⟨m.charsetBase, min (m.charsetBase + glyphs.length) memorySize⟩
  | .program => some ⟨m.programBase, memorySize⟩
  | .unmapped => none

/-- Empty memory with the glyphs loaded; both addresses are taken modulo the
size of memory. -/
def new (font program : UInt16) : Memory :=
  { cells := blit (Vector.replicate memorySize 0) (cell font) glyphs
    charsetBase := cell font
    programBase := cell program }

/-- The byte an address stands for. -/
def read (m : Memory) (address : UInt16) : UInt8 := m.cells[cell address]

/-- Overwrites the byte an address stands for. -/
def write (m : Memory) (address : UInt16) (value : UInt8) : Memory :=
  { m with cells := m.cells.set (cell address).val value (cell address).isLt }

/-- Overwrites consecutive bytes from an address on. -/
def writeAll (m : Memory) (address : UInt16) : List UInt8 → Memory
  | [] => m
  | b :: bs => writeAll (m.write address b) (address + 1) bs

/-- The word at an address, if both of its bytes are present. -/
def readWord (m : Memory) (address : UInt16) : Option UInt16 :=
  if h : address.toNat + 1 < memorySize then
    some (wordOfBytes m.cells[address.toNat] m.cells[address.toNat + 1])
  else none

/-- Overwrites the two bytes from an address on, the high one first. -/
def writeWord (m : Memory) (address : UInt16) (word : UInt16) : Memory :=
  (m.write address (highByte word)).write (address + 1) (lowByte word)

/-- The bytes from `start` up to but not including `stop`, if all are present. -/
def slice? (m : Memory) (start stop : Nat) : Option (List UInt8) :=
  if start ≤ stop ∧ stop ≤ memorySize then some (m.cells.toArray.extract start stop).toList
  else none

/-- The bytes of a region, if it has any. -/
def region? (m : Memory) (r : Region) : Option (List UInt8) :=
  (m.span? r).bind fun s => m.slice? s.start s.stop

/-- The address of a region, if it has one. -/
def regionStart? (m : Memory) (r : Region) : Option Nat := (m.span? r).map Span.start

/-- Zeroes a region. -/
def clearRegion (m : Memory) (r : Region) : Memory :=
  match m.span? r with
  | none => m
  | some s =>
    { m with cells := Vector.ofFn fun i => if s.start ≤ i.val ∧ i.val < s.stop then 0 else m.cells[i] }

/-- Puts data at the start of a region, whose bytes after it stay; data longer
than the region is refused. -/
def loadRegion (m : Memory) (r : Region) (data : List UInt8) : Except Fault Memory :=
  match m.span? r with
  | none => .ok m
  | some s =>
    if data.length ≤ s.length then .ok { m with cells := blit m.cells s.start data }
    else .error (.romTooLarge data.length s.length)

/-- A write is read back at every address of its cell, and nowhere else. -/
theorem read_write (m : Memory) (a b : UInt16) (value : UInt8) :
    (m.write a value).read b = if cell a = cell b then value else m.read b := by
  simp only [read, write, Fin.getElem_fin, Vector.getElem_set, Fin.ext_iff]

/-- The cells after data was put there. -/
theorem getElem_blit (cells : Vector UInt8 memorySize) (start : Nat) (data : List UInt8) {i : Nat}
    (hi : i < memorySize) :
    (blit cells start data)[i] =
      if start ≤ i ∧ i < start + data.length then data.getD (i - start) 0 else cells[i] := by
  induction data generalizing cells start with
  | nil =>
    rw [if_neg (by simp only [List.length_nil]; omega)]
    rfl
  | cons b bs ih =>
    rw [blit, ih, Vector.getElem_setIfInBounds]
    by_cases h : start = i
    · subst h
      rw [if_neg (by omega), if_pos (by simp)]
      simp
    · simp only [h, if_false, List.length_cons]
      by_cases h1 : start + 1 ≤ i ∧ i < start + 1 + bs.length
      · rw [if_pos h1, if_pos (by omega), show i - start = i - (start + 1) + 1 by omega]
        simp
      · rw [if_neg h1, if_neg (by omega)]

/-- The cells after a region was zeroed. -/
theorem getElem_clearRegion (m : Memory) (r : Region) {i : Nat} (hi : i < memorySize) :
    (m.clearRegion r).cells[i] =
      match m.span? r with
      | some s => if s.start ≤ i ∧ i < s.stop then 0 else m.cells[i]
      | none => m.cells[i] := by
  unfold clearRegion
  split <;> simp [*]

end Memory

end Chip8

/-
What the processor's operations leave alone. `SameSetup` is what no instruction
ever changes: the settings, where the glyphs and the program are, the program
that was loaded, and the styles of the listing. `Kept` adds the call stack and the cycle count, which
only calls, returns and resets change.
-/
import Chip8.Processor.Operations

namespace Chip8

theorem toNat_wordOfBytes (high low : UInt8) : (wordOfBytes high low).toNat = high.toNat * 256 + low.toNat := by
  have hhigh := high.toNat_lt
  have hlow := low.toNat_lt
  rw [wordOfBytes, UInt16.toNat_ofNat', Nat.mod_eq_of_lt (by omega)]

namespace Memory

theorem writeAll_bases (m : Memory) (a : UInt16) (data : List UInt8) :
    (m.writeAll a data).charsetBase = m.charsetBase ∧ (m.writeAll a data).programBase = m.programBase := by
  induction data generalizing m a with
  | nil => exact ⟨rfl, rfl⟩
  | cons b bs ih => exact ih (m.write a b) (a + 1)

@[simp] theorem clearRegion_charsetBase (m : Memory) (r : Region) :
    (m.clearRegion r).charsetBase = m.charsetBase := by
  unfold clearRegion
  split <;> rfl

@[simp] theorem clearRegion_programBase (m : Memory) (r : Region) :
    (m.clearRegion r).programBase = m.programBase := by
  unfold clearRegion
  split <;> rfl

theorem loadRegion_bases {m n : Memory} {r : Region} {data : List UInt8} (h : m.loadRegion r data = .ok n) :
    n.charsetBase = m.charsetBase ∧ n.programBase = m.programBase := by
  unfold loadRegion at h
  split at h
  · cases h; exact ⟨rfl, rfl⟩
  · split at h
    · cases h; exact ⟨rfl, rfl⟩
    · cases h

/-- A program is refused exactly if it is longer than the program region. -/
theorem loadRegion_program (m : Memory) (data : List UInt8) :
    m.loadRegion .program data =
      if data.length ≤ memorySize - m.programBase.val then
        .ok { m with cells := blit m.cells m.programBase.val data }
      else .error (.romTooLarge data.length (memorySize - m.programBase.val)) := rfl

/-- Memory with a program in it, and nothing else in the program region. -/
def withProgram (m : Memory) (rom : List UInt8) : Memory :=
  { m.clearRegion .program with cells := blit (m.clearRegion .program).cells m.programBase.val rom }

@[simp] theorem withProgram_charsetBase (m : Memory) (rom : List UInt8) :
    (m.withProgram rom).charsetBase = m.charsetBase := by
  simp only [withProgram, clearRegion_charsetBase]

@[simp] theorem withProgram_programBase (m : Memory) (rom : List UInt8) :
    (m.withProgram rom).programBase = m.programBase := by
  simp only [withProgram, clearRegion_programBase]

theorem getElem_withProgram (m : Memory) (rom : List UInt8) {i : Nat} (hi : i < memorySize) :
    (m.withProgram rom).cells[i] =
      if m.programBase.val ≤ i then rom.getD (i - m.programBase.val) 0 else m.cells[i] := by
  simp only [withProgram, getElem_blit _ _ _ hi, getElem_clearRegion m _ hi, span?]
  by_cases hin : m.programBase.val ≤ i
  · by_cases hrom : i < m.programBase.val + rom.length
    · rw [if_pos ⟨hin, hrom⟩, if_pos hin]
    · have hpast : rom.length ≤ i - m.programBase.val := by omega
      rw [if_neg fun h => hrom h.2, if_pos ⟨hin, hi⟩, if_pos hin, List.getD_eq_getElem?_getD,
        List.getElem?_eq_none hpast, Option.getD_none]
  · rw [if_neg fun h => hin h.1, if_neg fun h => hin h.1, if_neg hin]

end Memory

namespace Processor

/-- The second processor is set up like the first. -/
structure SameSetup (c d : Processor) : Prop where
  settings : d.settings = c.settings
  font : d.font = c.font
  start : d.start = c.start
  rom : d.rom = c.rom
  charsetBase : d.memory.charsetBase = c.memory.charsetBase
  programBase : d.memory.programBase = c.memory.programBase
  valid : d.tracer.valid = c.tracer.valid
  invalid : d.tracer.invalid = c.tracer.invalid

theorem SameSetup.refl (c : Processor) : SameSetup c c := ⟨rfl, rfl, rfl, rfl, rfl, rfl, rfl, rfl⟩

theorem SameSetup.trans {c d e : Processor} (h : SameSetup c d) (k : SameSetup d e) : SameSetup c e where
  settings := k.settings.trans h.settings
  font := k.font.trans h.font
  start := k.start.trans h.start
  rom := k.rom.trans h.rom
  charsetBase := k.charsetBase.trans h.charsetBase
  programBase := k.programBase.trans h.programBase
  valid := k.valid.trans h.valid
  invalid := k.invalid.trans h.invalid

theorem SameSetup.tracer_eq {c d : Processor} (h : SameSetup c d) :
    d.tracer = { c.tracer with jumpsFromV0 := d.tracer.jumpsFromV0 } := by
  simp only [← h.valid, ← h.invalid]

/-- The second processor has the setup, the call stack and the cycle count of the first. -/
structure Kept (c d : Processor) : Prop extends SameSetup c d where
  stack : d.stack = c.stack
  cycle : d.cycle = c.cycle

theorem Kept.refl (c : Processor) : Kept c c := ⟨.refl c, rfl, rfl⟩

theorem Kept.trans {c d e : Processor} (h : Kept c d) (k : Kept d e) : Kept c e :=
  ⟨h.toSameSetup.trans k.toSameSetup, k.stack.trans h.stack, k.cycle.trans h.cycle⟩

/-! ## Operations on registers -/

theorem get_set (c : Processor) (x : Register) (value : UInt8) : (c.set x value).get x = value :=
  Vector.getElem_set_self x.isLt

theorem get_set_of_ne (c : Processor) {x r : Register} (value : UInt8) (h : r ≠ x) :
    (c.set x value).get r = c.get r :=
  Vector.getElem_set_ne x.isLt r.isLt fun heq => h (Fin.ext heq.symm)

/-- An operation that writes registers, the index, the program counter or cells. -/
theorem Kept.of_parts (c : Processor) (v : Registers) (index pc : UInt16) (memory : Memory)
    (hc : memory.charsetBase = c.memory.charsetBase) (hp : memory.programBase = c.memory.programBase) :
    Kept c { c with v, index, pc, memory } :=
  ⟨⟨rfl, rfl, rfl, rfl, hc, hp, rfl, rfl⟩, rfl, rfl⟩

theorem kept_set (c : Processor) (x : Register) (value : UInt8) : Kept c (c.set x value) :=
  .of_parts c _ _ _ _ rfl rfl

theorem kept_advance (c : Processor) : Kept c c.advance := .of_parts c _ _ _ _ rfl rfl

theorem kept_rewind (c : Processor) : Kept c c.rewind := .of_parts c _ _ _ _ rfl rfl

theorem kept_jump (c : Processor) (target : Address) : Kept c (c.jump target) := .of_parts c _ _ _ _ rfl rfl

theorem kept_jumpIndexed (c : Processor) (target : Address) : Kept c (c.jumpIndexed target) :=
  .of_parts c _ _ _ _ rfl rfl

theorem kept_skipIf (c : Processor) (condition : Bool) : Kept c (c.skipIf condition) := by
  unfold skipIf
  split
  · exact c.kept_advance
  · exact .refl c

theorem kept_compute (c : Processor) (op : AluOp) (x y : Register) : Kept c (c.compute op x y) := by
  unfold compute
  split
  · exact c.kept_set x _
  · exact (c.kept_set x _).trans (kept_set _ _ _)

theorem kept_addIndex (c : Processor) (x : Register) : Kept c (c.addIndex x) := by
  unfold addIndex
  dsimp only
  split
  · exact .of_parts c _ _ _ _ rfl rfl
  · exact .of_parts c _ _ _ _ rfl rfl

theorem kept_pointAtGlyph (c : Processor) (x : Register) : Kept c (c.pointAtGlyph x) :=
  .of_parts c _ _ _ _ rfl rfl

/-! ## Operations on memory -/

theorem kept_passIndex (c : Processor) (x : Register) : Kept c (c.passIndex x) := by
  unfold passIndex
  split
  · exact .of_parts c _ _ _ _ rfl rfl
  · exact .refl c

theorem kept_writeDecimal (c : Processor) (x : Register) : Kept c (c.writeDecimal x) :=
  have hbases := c.memory.writeAll_bases c.index _
  .of_parts c _ _ _ _ hbases.1 hbases.2

theorem kept_storeRegisters (c : Processor) (x : Register) : Kept c (c.storeRegisters x) := by
  have hbases := c.memory.writeAll_bases c.index (c.v.toList.take (x.val + 1))
  exact (Kept.of_parts c _ _ _ _ hbases.1 hbases.2).trans (kept_passIndex _ x)

theorem kept_loadRegisters (c : Processor) (x : Register) : Kept c (c.loadRegisters x) := by
  have hloaded : Kept c { c with v := Vector.ofFn fun r =>
      if r ≤ x then c.memory.read (c.index + UInt16.ofNat r.val) else c.get r } :=
    .of_parts c _ _ _ _ rfl rfl
  exact hloaded.trans (kept_passIndex _ x)

/-! ## Loading and starting afresh -/

theorem load_eq (c : Processor) (rom : List UInt8) :
    c.load rom =
      if rom.length ≤ memorySize - c.memory.programBase.val then
        ({ c with memory := c.memory.withProgram rom, rom }, .ok ())
      else
        ({ c with memory := c.memory.clearRegion .program },
         .error (.romTooLarge rom.length (memorySize - c.memory.programBase.val))) := by
  simp only [load, Memory.loadRegion_program, Memory.clearRegion_programBase]
  by_cases h : rom.length ≤ memorySize - c.memory.programBase.val
  · simp only [if_pos h, Memory.withProgram, Memory.clearRegion_programBase]
  · simp only [if_neg h]

/-- A program is taken and fits, or refused and forgotten. -/
theorem load_cases (c : Processor) (rom : List UInt8) :
    (∃ memory : Memory, memory.charsetBase = c.memory.charsetBase ∧ memory.programBase = c.memory.programBase ∧
      rom.length ≤ memorySize - c.memory.programBase.val ∧ c.load rom = ({ c with memory, rom }, .ok ())) ∨
    (∃ (memory : Memory) (fault : Fault), memory.charsetBase = c.memory.charsetBase ∧
      memory.programBase = c.memory.programBase ∧ c.load rom = ({ c with memory }, .error fault)) := by
  rw [load_eq]
  by_cases h : rom.length ≤ memorySize - c.memory.programBase.val
  · exact .inl ⟨_, c.memory.withProgram_charsetBase rom, c.memory.withProgram_programBase rom, h, if_pos h⟩
  · exact .inr ⟨_, _, c.memory.clearRegion_charsetBase .program, c.memory.clearRegion_programBase .program,
      if_neg h⟩

/-- The processor at the start of its program, with the given memory. -/
def restarted (c : Processor) (memory : Memory) : Processor :=
  { c with memory, stack := c.stack.clear, pc := c.start, index := 0, v := Vector.replicate 16 0, cycle := 0 }

theorem reset_eq (c : Processor) :
    c.reset = match (c.memory.clearRegion .program).loadRegion .program c.rom with
      | .ok memory => (c.restarted memory, none)
      | .error fault => (c.restarted (c.memory.clearRegion .program), some fault) := rfl

theorem reset_of_loaded {c : Processor} {memory : Memory}
    (h : (c.memory.clearRegion .program).loadRegion .program c.rom = .ok memory) :
    c.reset = (c.restarted memory, none) := by
  rw [reset_eq, h]

theorem reset_of_refused {c : Processor} {fault : Fault}
    (h : (c.memory.clearRegion .program).loadRegion .program c.rom = .error fault) :
    c.reset = (c.restarted (c.memory.clearRegion .program), some fault) := by
  rw [reset_eq, h]

/-- A program that fits is put back without fail. -/
theorem reset_of_fits {c : Processor} (h : c.rom.length ≤ memorySize - c.memory.programBase.val) :
    c.reset = (c.restarted (c.memory.withProgram c.rom), none) := by
  simp only [reset_eq, Memory.loadRegion_program, Memory.clearRegion_programBase, if_pos h, Memory.withProgram]

theorem sameSetup_restarted (c : Processor) {memory : Memory}
    (hc : memory.charsetBase = c.memory.charsetBase) (hp : memory.programBase = c.memory.programBase) :
    SameSetup c (c.restarted memory) :=
  ⟨rfl, rfl, rfl, rfl, hc, hp, rfl, rfl⟩

theorem sameSetup_reset (c : Processor) : SameSetup c c.reset.1 := by
  rw [reset_eq]
  split
  · next h =>
    obtain ⟨hc, hp⟩ := Memory.loadRegion_bases h
    exact c.sameSetup_restarted (by simpa using hc) (by simpa using hp)
  · exact c.sameSetup_restarted (by simp) (by simp)

theorem reset_cycle (c : Processor) : c.reset.1.cycle = 0 := by
  rw [reset_eq]
  split <;> rfl

end Processor

end Chip8

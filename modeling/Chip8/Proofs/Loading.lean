/-
Loading a program. A program that does not fit is refused, and by then program
memory is empty: everything else is as it was, but the program that was there has to
be started afresh (`load_refused`). One that fits is found where the processor starts,
so the first word it fetches is the program's first word, also after a reset
(`first_word_fetched`). That takes a start within memory: the program is put at the
start taken modulo the size of memory, while the program counter holds all of it.
-/
import Chip8.Proofs.Regions

namespace Chip8

/-! ## The program region -/

namespace Memory

/-- The program region reaches to the end of memory. -/
theorem region?_program (m : Memory) : m.region? .program = some (m.cells.toList.drop m.programBase.val) := by
  have hbase : m.programBase.val ≤ memorySize ∧ memorySize ≤ memorySize := ⟨Nat.le_of_lt m.programBase.isLt, Nat.le_refl _⟩
  simp only [region?, span?, Option.bind_some, slice?, if_pos hbase, Array.toList_extract, List.extract_eq_take_drop]
  rw [List.take_of_length_le (by simp)]
  rfl

theorem length_program (m : Memory) :
    (m.cells.toList.drop m.programBase.val).length = memorySize - m.programBase.val := by
  simp

theorem getElem_clearProgram (m : Memory) {i : Nat} (hi : i < memorySize) :
    (m.clearRegion .program).cells[i] = if m.programBase.val ≤ i then 0 else m.cells[i] := by
  rw [getElem_clearRegion m .program hi]
  simp [span?, hi]

theorem ext_cells {m n : Memory} (hc : m.charsetBase = n.charsetBase) (hp : m.programBase = n.programBase)
    (hcells : ∀ (i : Nat) (hi : i < memorySize), m.cells[i] = n.cells[i]) : m = n := by
  cases m
  cases n
  simp only [mk.injEq]
  exact ⟨Vector.ext hcells, hc, hp⟩

theorem region?_clearProgram (m : Memory) :
    (m.clearRegion .program).region? .program = some (List.replicate (memorySize - m.programBase.val) 0) := by
  have hspan : m.span? .program = some ⟨m.programBase, memorySize⟩ := rfl
  exact region?_clearRegion hspan

theorem sameOutside_clearProgram (m : Memory) : m.SameOutside (m.clearRegion .program) .program :=
  sameOutside_clearRegion rfl

/-- Emptying the program region changes nothing exactly if it is empty. -/
theorem clearProgram_eq_self_iff (m : Memory) :
    m.clearRegion .program = m ↔ ∀ byte ∈ m.cells.toList.drop m.programBase.val, byte = 0 := by
  constructor
  · intro heq byte hbyte
    obtain ⟨k, hk, rfl⟩ := List.mem_drop_iff_getElem.mp hbyte
    have hin : m.programBase.val + k < memorySize := by simpa [Nat.add_comm] using hk
    have hcell := getElem_clearProgram m hin
    rw [if_pos (Nat.le_add_right _ _)] at hcell
    simpa [heq] using hcell
  · intro hzero
    refine ext_cells (m.clearRegion_charsetBase _) (m.clearRegion_programBase _) fun i hi => ?_
    rw [getElem_clearProgram m hi]
    split
    · next hin =>
      have hbyte : m.cells[i] ∈ m.cells.toList.drop m.programBase.val :=
        List.mem_drop_iff_getElem.mpr ⟨i - m.programBase.val, by simp; omega, by simp [Nat.add_sub_cancel' hin]⟩
      exact (hzero _ hbyte).symm
    · rfl

theorem clearProgram_clearProgram (m : Memory) :
    (m.clearRegion .program).clearRegion .program = m.clearRegion .program := by
  rw [clearProgram_eq_self_iff]
  have hregion := m.region?_clearProgram
  rw [region?_program, Option.some.injEq] at hregion
  rw [hregion]
  exact fun byte hbyte => List.eq_of_mem_replicate hbyte

/-- A program of two bytes or more begins with a word. -/
theorem readWord_withProgram (m : Memory) {a : UInt16} (ha : a.toNat = m.programBase.val) (high low : UInt8)
    (rest : List UInt8) (hfits : (high :: low :: rest).length ≤ memorySize - m.programBase.val) :
    (m.withProgram (high :: low :: rest)).readWord a = some (wordOfBytes high low) := by
  have hbase := m.programBase.isLt
  have hin : m.programBase.val + 1 < memorySize := by
    simp only [List.length_cons] at hfits
    omega
  simp [readWord, hin, getElem_withProgram, ha]

end Memory

namespace Processor

/-! ## A program that does not fit -/

theorem with_memory_eq_iff (c : Processor) (memory : Memory) : { c with memory } = c ↔ memory = c.memory := by
  cases c
  simp

/-- A reset looks at what is outside the program region only. -/
theorem reset_with_memory (c : Processor) {memory : Memory}
    (h : memory.clearRegion .program = c.memory.clearRegion .program) :
    { c with memory }.reset = c.reset := by
  simp only [reset, h]

/-- **A program that does not fit is refused with its length and the room there is.**
Program memory is emptied all the same, so the processor is what it was only if there
was nothing in it; nothing else changes, and a reset brings back what it would have
brought back before. -/
theorem load_refused (c : Processor) :
    ∃ program, c.memory.region? .program = some program ∧
      ∀ rom : List UInt8, program.length < rom.length →
        let after := (c.load rom).1
        (c.load rom).2 = .error (.romTooLarge rom.length program.length) ∧
          after = { c with memory := after.memory } ∧
          c.memory.SameOutside after.memory .program ∧
          after.memory.region? .program = some (List.replicate program.length 0) ∧
          (after = c ↔ ∀ byte ∈ program, byte = 0) ∧
          after.reset = c.reset := by
  refine ⟨_, c.memory.region?_program, fun rom hlong => ?_⟩
  have hlength := c.memory.length_program
  rw [hlength] at hlong ⊢
  have hload : c.load rom = ({ c with memory := c.memory.clearRegion .program },
      .error (.romTooLarge rom.length (memorySize - c.memory.programBase.val))) := by
    rw [load_eq, if_neg (by omega)]
  rw [hload]
  refine ⟨rfl, rfl, c.memory.sameOutside_clearProgram, c.memory.region?_clearProgram, ?_, ?_⟩
  · rw [← c.memory.clearProgram_eq_self_iff]
    exact c.with_memory_eq_iff _
  · exact c.reset_with_memory c.memory.clearProgram_clearProgram

/-- Memory without anything in it: a program one byte too long changes nothing. -/
theorem load_refused_empty :
    let c : Processor :=
      { memory := { Memory.new 0x50 0x200 with cells := Vector.replicate memorySize 0 } }
    let rom := List.replicate 3585 (1 : UInt8)
    (c.load rom).2 = .error (.romTooLarge 3585 3584) ∧ (c.load rom).1 = c := by
  intro c rom
  obtain ⟨program, hregion, hrefused⟩ := load_refused c
  have hprogram : program = List.replicate 3584 0 := by
    rw [Memory.region?_program, Option.some.injEq] at hregion
    rw [← hregion]
    show (Vector.replicate memorySize (0 : UInt8)).toList.drop (Memory.cell 0x200).val = _
    rw [Vector.toList_replicate, List.drop_replicate]
    rfl
  have hempty : ∀ byte ∈ program, byte = 0 := by
    rw [hprogram]
    exact fun byte hbyte => List.eq_of_mem_replicate hbyte
  have hlength : program.length = 3584 := by rw [hprogram, List.length_replicate]
  have hrom : rom.length = 3585 := List.length_replicate
  obtain ⟨hresult, -, -, -, hsame, -⟩ := hrefused rom (by omega)
  rw [hlength, hrom] at hresult
  exact ⟨hresult, hsame.mpr hempty⟩

/-- A program that sets v0 to 5 is loaded, then one that is a byte too long is refused:
the first one is gone, and the processor finds a native routine in its place. -/
theorem load_refused_forgets :
    let c := ((new 0x50 0x200 {}).load [0x60, 0x05]).1
    let rom := List.replicate 3585 (0 : UInt8)
    let after := (c.load rom).1
    (c.load rom).2 = .error (.romTooLarge 3585 3584) ∧ after ≠ c ∧
      c.memory.readWord c.pc = some 0x6005 ∧ after.memory.readWord after.pc = some 0 ∧
      ((Machine.mk after .standard {}).step 0).2 = .error (.machineCode 0 0x200) := by
  intro c rom after
  have hc : c = { new 0x50 0x200 {} with
      memory := (Memory.new 0x50 0x200).withProgram [0x60, 0x05], rom := [0x60, 0x05] } := by
    simp only [c]
    rw [load_eq, if_pos (by decide)]
    rfl
  have hbase : c.memory.programBase.val = 0x200 := by
    rw [hc]
    simp only [Memory.withProgram_programBase]
    rfl
  have hload : c.load rom =
      ({ c with memory := c.memory.clearRegion .program }, .error (.romTooLarge 3585 3584)) := by
    have hrom : rom.length = 3585 := List.length_replicate
    rw [load_eq, hbase, hrom, if_neg (by decide)]
    rfl
  have hpc : c.pc = 0x200 := by rw [hc]; rfl
  have hbefore : c.memory.readWord c.pc = some 0x6005 := by
    rw [hpc, hc]
    exact Memory.readWord_withProgram _ rfl 0x60 0x05 [] (by decide)
  have hafter : after.memory.readWord after.pc = some 0 := by
    simp only [after, hload, hpc]
    rw [Memory.readWord, dif_pos (by decide), Memory.getElem_clearProgram, Memory.getElem_clearProgram,
      if_pos (by rw [hbase]; decide), if_pos (by rw [hbase]; decide)]
    rfl
  refine ⟨by rw [hload], fun heq => ?_, hbefore, hafter, ?_⟩
  · rw [heq, hbefore] at hafter
    exact absurd hafter (by decide)
  · have hpc' : after.pc = 0x200 := by simp only [after, hload, hpc]
    have hnative : ∀ d : Processor, d.memory.readWord d.pc = some 0 →
        ((Machine.mk d .standard {}).step 0).2 = .error (.machineCode 0 d.pc) := by
      intro d hd
      rw [Machine.step_of_machineCode 0 hd (by decide) (by decide)]
    rw [hnative after hafter, hpc']

/-! ## The first word -/

/-- A processor at the start of its program: it was loaded just now, or it has run and
was reset. -/
def AtStart (loaded c : Processor) : Prop := c = loaded ∨ ∃ d, Reaches loaded d ∧ c = d.reset.1

/-- Only a program that fits is accepted. -/
theorem fits_of_accepted {c : Processor} {rom : List UInt8} (h : (c.load rom).2 = .ok ()) :
    rom.length ≤ memorySize - c.memory.programBase.val := by
  rw [load_eq] at h
  split at h
  · assumption
  · cases h

/-- At its start a processor has the program in memory and the program counter where it
was told to start. -/
theorem AtStart.parts {c d : Processor} {rom : List UInt8} (haccepted : (c.load rom).2 = .ok ())
    (hpc : c.pc = c.start) (h : AtStart (c.load rom).1 d) :
    d.pc = c.start ∧ ∃ m : Memory, m.programBase = c.memory.programBase ∧ d.memory = m.withProgram rom := by
  have hfits := fits_of_accepted haccepted
  have hload : (c.load rom).1 = { c with memory := c.memory.withProgram rom, rom } := by
    rw [load_eq, if_pos hfits]
  rw [hload] at h
  rcases h with rfl | ⟨d, hreach, rfl⟩
  · exact ⟨hpc, c.memory, rfl, rfl⟩
  · have hsetup := hreach.sameSetup
    have hrom : d.rom = rom := hsetup.rom
    have hbase : d.memory.programBase = c.memory.programBase := by
      rw [hsetup.programBase, Memory.withProgram_programBase]
    rw [reset_of_fits (by rw [hrom, hbase]; exact hfits), hrom]
    exact ⟨hsetup.start, d.memory, hbase, rfl⟩

/-- **The first word that is fetched is the first word of the program,** right after the
program was loaded and after every reset, wherever it starts in memory. A processor that
is to start past the end of memory accepts its program too, but finds no word to fetch. -/
theorem first_word_fetched (font start : UInt16) (settings : Settings) (high low : UInt8) (rest : List UInt8)
    (haccepted : ((new font start settings).load (high :: low :: rest)).2 = .ok ()) (c : Processor)
    (hstart : AtStart ((new font start settings).load (high :: low :: rest)).1 c) :
    (c.memory.readWord c.pc).map UInt16.toNat =
      if start.toNat < memorySize then some (high.toNat * 256 + low.toNat) else none := by
  have hfits := fits_of_accepted haccepted
  obtain ⟨hpc, m, hbase, hmemory⟩ := hstart.parts haccepted rfl
  rw [← hbase] at hfits
  have hpc : c.pc = start := hpc
  have hplace : m.programBase.val = start.toNat % memorySize := by
    rw [hbase]
    rfl
  rw [hpc, hmemory]
  by_cases hin : start.toNat < memorySize
  · have hhigh := high.toNat_lt
    have hlow := low.toNat_lt
    rw [Nat.mod_eq_of_lt hin] at hplace
    rw [Memory.readWord_withProgram m hplace.symm high low rest hfits, if_pos hin, Option.map_some,
      wordOfBytes, UInt16.toNat_ofNat', Nat.mod_eq_of_lt (by omega)]
  · rw [Memory.readWord, dif_neg (by omega), if_neg hin, Option.map_none]

/-- The last two cells of memory, taken from the glyphs by a program of two bytes. -/
theorem first_word_fetched_lastWord :
    let loaded := ((new 0xFB0 0xFFE {}).load [0x12, 0x34]).1
    ((new 0xFB0 0xFFE {}).load [0x12, 0x34]).2 = .ok () ∧
      (loaded.memory.readWord loaded.pc).map UInt16.toNat = some 0x1234 ∧
      (loaded.reset.1.memory.readWord loaded.reset.1.pc).map UInt16.toNat = some 0x1234 := by
  intro loaded
  have haccepted : ((new 0xFB0 0xFFE {}).load [0x12, 0x34]).2 = .ok () := by
    rw [load_eq, if_pos (by decide)]
  have hfetched := first_word_fetched 0xFB0 0xFFE {} 0x12 0x34 [] haccepted
  exact ⟨haccepted, hfetched loaded (.inl rfl), hfetched loaded.reset.1 (.inr ⟨loaded, .refl, rfl⟩)⟩

/-- Started at `1200`, a processor accepts a program and puts it at `200`, and then looks
for it past the end of memory. -/
theorem first_word_missed :
    let c := new 0x50 0x1200 {}
    let loaded := (c.load [0x60, 0x05]).1
    (c.load [0x60, 0x05]).2 = .ok () ∧ loaded.memory.readWord 0x200 = some 0x6005 ∧
      loaded.memory.readWord loaded.pc = none ∧
      ((Machine.mk loaded .standard {}).step 0).2 = .error (.fetchOutOfBounds 0x1200) := by
  intro c loaded
  have hload : c.load [0x60, 0x05] =
      ({ c with memory := c.memory.withProgram [0x60, 0x05], rom := [0x60, 0x05] }, .ok ()) := by
    rw [load_eq, if_pos (by decide)]
  have hpc : loaded.pc = 0x1200 := by
    simp only [loaded, hload]
    rfl
  have hnone : loaded.memory.readWord loaded.pc = none := by
    rw [hpc, Memory.readWord, dif_neg (by decide)]
  have hmissed : ∀ d : Processor, d.memory.readWord d.pc = none →
      ((Machine.mk d .standard {}).step 0).2 = .error (.fetchOutOfBounds d.pc) := by
    intro d hd
    rw [Machine.step_of_no_word 0 hd]
  refine ⟨by rw [hload], ?_, hnone, ?_⟩
  · simp only [loaded, hload]
    exact Memory.readWord_withProgram _ rfl 0x60 0x05 [] (by decide)
  · rw [hmissed loaded hnone, hpc]

end Processor

end Chip8

/-
The built-in glyphs are where a program is told that they are (`glyphs_in_place`).

The two addresses are not worked out in the same way. The glyphs are put at the font
address modulo the size of memory, and a program is pointed at the font address as it
was given, plus five for each digit before. They meet because a byte is read modulo the
size of memory too, and because the sum never wraps if the glyphs lie before the program.

There they stay: loading a program and starting it afresh change program memory only,
whether the program fits or not (`Prepares.sameBelow`).
-/
import Chip8.Proofs.Footprint
import Chip8.Proofs.Loading
import Chip8.Proofs.Sprites

namespace Chip8

theorem length_glyphs : glyphs.length = 80 := rfl

/-- An address does not wrap on the way to a cell before the end of memory. -/
theorem mod_add_of_room {a n : Nat} (h : a % memorySize + n < memorySize) :
    (a + n) % memorySize = a % memorySize + n := by
  rw [Nat.add_mod, Nat.mod_eq_of_lt (a := n) (by omega), Nat.mod_eq_of_lt h]

/-- Memory begins with the glyphs at the font address, if they do not reach past its end. -/
theorem Memory.byteAt_new {font : UInt16} (start : UInt16) {n : Nat}
    (hfits : font.toNat % memorySize + glyphs.length ≤ memorySize) (hn : n < glyphs.length) :
    glyphs[n]? = some ((new font start).byteAt (font.toNat + n)) := by
  have hcell : (font.toNat + n) % memorySize = font.toNat % memorySize + n := mod_add_of_room (by omega)
  have hoffset : (font.toNat + n) % memorySize - font.toNat % memorySize = n := by omega
  have hbyte := getElem_blit (Vector.replicate memorySize 0) (font.toNat % memorySize) glyphs
    (Nat.mod_lt (font.toNat + n) (by decide))
  rw [if_pos (by omega), hoffset, List.getD_eq_getElem?_getD, List.getElem?_eq_getElem hn,
    Option.getD_some] at hbyte
  rw [List.getElem?_eq_getElem hn]
  exact congrArg some hbyte.symm

namespace Processor

/-! ## Below the program -/

/-- The processors agree on where the glyphs and the program are, and on the cells before
the program. -/
structure SameBelow (c d : Processor) : Prop where
  font : d.font = c.font
  programBase : d.memory.programBase = c.memory.programBase
  outside : c.memory.SameOutside d.memory .program

theorem SameBelow.refl (c : Processor) : SameBelow c c := ⟨rfl, rfl, fun _ _ _ => rfl⟩

theorem SameBelow.cells {c d : Processor} (h : SameBelow c d) {a : Nat} (ha : a < memorySize)
    (hbelow : a < c.memory.programBase.val) : c.memory.cells[a] = d.memory.cells[a] :=
  Memory.sameOutside_program_iff.mp h.outside a ha hbelow

theorem SameBelow.byteAt {c d : Processor} (h : SameBelow c d) {n : Nat}
    (hbelow : n % memorySize < c.memory.programBase.val) : d.memory.byteAt n = c.memory.byteAt n :=
  (h.cells (Nat.mod_lt _ (by decide)) hbelow).symm

theorem SameBelow.trans {c d e : Processor} (h : SameBelow c d) (k : SameBelow d e) : SameBelow c e where
  font := k.font.trans h.font
  programBase := k.programBase.trans h.programBase
  outside := Memory.sameOutside_program_iff.mpr fun _ ha hbelow =>
    (h.cells ha hbelow).trans (k.cells ha (by rwa [h.programBase]))

theorem sameBelow_load (c : Processor) (rom : List UInt8) : SameBelow c (c.load rom).1 := by
  have hwith : ∀ (memory : Memory) (rom : List UInt8), memory.programBase = c.memory.programBase →
      c.memory.SameOutside memory .program → SameBelow c { c with memory, rom } :=
    fun _ _ hbase houtside => ⟨rfl, hbase, houtside⟩
  rw [load_eq]
  split
  · exact hwith _ rom (c.memory.withProgram_programBase rom) (c.memory.sameOutside_withProgram rom)
  · exact hwith _ c.rom (c.memory.clearRegion_programBase .program) c.memory.sameOutside_clearProgram

theorem sameBelow_reset (c : Processor) : SameBelow c c.reset.1 where
  font := c.sameSetup_reset.font
  programBase := c.sameSetup_reset.programBase
  outside := Memory.sameOutside_program_iff.mpr fun _ ha hbelow => (c.getElem_reset_of_lt ha hbelow).symm

/-! ## Runs -/

/-- The second processor is made from the first: programs are loaded, accepted or not, it
is reset, and its registers are changed, the index and the program counter among them. -/
inductive Prepares (c : Processor) : Processor → Prop
  | refl : Prepares c c
  | load {d : Processor} (rom : List UInt8) : Prepares c d → Prepares c (d.load rom).1
  | reset {d : Processor} : Prepares c d → Prepares c d.reset.1
  | registers {d : Processor} (v : Registers) (index pc : UInt16) :
    Prepares c d → Prepares c { d with v, index, pc }

theorem Prepares.set {c d : Processor} (h : Prepares c d) (x : Register) (value : UInt8) :
    Prepares c (d.set x value) :=
  .registers _ d.index d.pc h

theorem Prepares.sameBelow {c d : Processor} (h : Prepares c d) : SameBelow c d := by
  induction h with
  | refl => exact .refl c
  | load rom _ ih => exact ih.trans (sameBelow_load _ rom)
  | reset _ ih => exact ih.trans (sameBelow_reset _)
  | registers v index pc _ ih => exact ih.trans ⟨rfl, rfl, fun _ _ _ => rfl⟩

/-- **The glyph of a digit is where the program is pointed to,** if there is room for the
glyphs before the program, both addresses taken modulo the size of memory. Whatever was
loaded, accepted or refused, however often the processor was reset and whatever its
registers are, the index is then the font address plus five for each digit before, without
wrapping around, and the five bytes from there on are those of the digit. A font address
past the end of memory will do as well: the index is then past the end, and reads back the
glyph all the same. -/
theorem glyphs_in_place (font start : UInt16) (settings : Settings)
    (hroom : font.toNat % memorySize + glyphs.length ≤ start.toNat % memorySize) (c : Processor)
    (hprepared : Prepares (new font start settings) c) (x : Register) (hdigit : (c.get x).toNat ≤ 15) :
    let pointed := c.pointAtGlyph x
    pointed = { c with index := pointed.index } ∧
      pointed.index.toNat = font.toNat + 5 * (c.get x).toNat ∧
      ∀ k < 5, glyphs[5 * (c.get x).toNat + k]? =
        some (pointed.memory.read (pointed.index + UInt16.ofNat k)) := by
  intro pointed
  have hsame := hprepared.sameBelow
  rw [length_glyphs] at hroom
  have hstart : start.toNat % memorySize < memorySize := Nat.mod_lt _ (by decide)
  have hindex : pointed.index.toNat = font.toNat + 5 * (c.get x).toNat := by
    have hfont := font.toNat_lt
    show (c.font + UInt16.ofNat (5 * (c.get x).toNat)).toNat = _
    rw [hsame.font, UInt16.toNat_add, UInt16.toNat_ofNat']
    show (font.toNat + _) % _ = _
    simp only [memorySize] at hroom hstart
    omega
  refine ⟨rfl, hindex, fun k hk => ?_⟩
  have hbelow : (font.toNat + (5 * (c.get x).toNat + k)) % memorySize < start.toNat % memorySize := by
    rw [mod_add_of_room (by omega)]
    omega
  rw [Memory.read_add, hindex, Nat.add_assoc]
  show _ = some (c.memory.byteAt _)
  rw [hsame.byteAt hbelow]
  exact Memory.byteAt_new start (by rw [length_glyphs]; omega) (by rw [length_glyphs]; omega)

/-- Glyphs at `F050`, which is `050` in memory. A program is loaded, another one is refused
for a byte too many, and then the processor is reset and asked for a `C`. -/
theorem glyphs_in_place_wrapped :
    let loaded := ((new 0xF050 0x200 {}).load [0x60, 0x05]).1
    let c := (loaded.load (List.replicate 3585 0)).1.reset.1.set 3 12
    (loaded.load (List.replicate 3585 0)).2 = .error (.romTooLarge 3585 3584) ∧ (c.get 3).toNat ≤ 15 ∧
      (c.pointAtGlyph 3).index = 0xF08C ∧
      ∀ k < 5, [0xf0, 0x80, 0x80, 0x80, 0xf0][k]? =
        some ((c.pointAtGlyph 3).memory.read ((c.pointAtGlyph 3).index + UInt16.ofNat k)) := by
  intro loaded c
  have hprepared : Prepares (new 0xF050 0x200 {}) c := (((Prepares.refl.load _).load _).reset).set 3 12
  have hrefused : (loaded.load (List.replicate 3585 0)).2 = .error (.romTooLarge 3585 3584) := by
    have hbase : loaded.memory.programBase = ⟨0x200, by decide⟩ := (sameBelow_load _ _).programBase
    rw [load_eq, hbase, List.length_replicate, if_neg (by decide)]
    rfl
  have hget : c.get 3 = 12 := get_set _ 3 12
  obtain ⟨-, hindex, hglyph⟩ := glyphs_in_place 0xF050 0x200 {} (by decide) c hprepared 3 (by rw [hget]; decide)
  rw [hget] at hindex hglyph
  refine ⟨hrefused, by rw [hget]; decide, UInt16.toNat_inj.mp hindex, fun k hk => ?_⟩
  rw [← hglyph k hk]
  have hrow : ∀ k < 5, [0xf0, 0x80, 0x80, 0x80, 0xf0][k]? = glyphs[5 * (12 : UInt8).toNat + k]? := by decide
  exact hrow k hk

end Processor

namespace Machine

/-! ## A glyph drawn -/

/-- A program that points the index at the first glyph and draws it in the corner. -/
def glyphProgram : List UInt8 := [0xA0, 0x50, 0xD0, 0x05]

/-- The processor that is about to run it. -/
def glyphProcessor : Processor := ((Processor.new 0x50 0x200 {}).load glyphProgram).1

theorem glyphProcessor_eq :
    glyphProcessor = { Processor.new 0x50 0x200 {} with
      memory := (Memory.new 0x50 0x200).withProgram glyphProgram, rom := glyphProgram } := by
  rw [glyphProcessor, Processor.load_eq, if_pos (by decide)]
  rfl

theorem readWord_glyphProgram :
    ((Memory.new 0x50 0x200).withProgram glyphProgram).readWord 0x200 = some 0xA050 ∧
      ((Memory.new 0x50 0x200).withProgram glyphProgram).readWord 0x202 = some 0xD005 := by
  constructor
  · rw [Memory.readWord, dif_pos (by decide), Memory.getElem_withProgram, Memory.getElem_withProgram]
    rfl
  · rw [Memory.readWord, dif_pos (by decide), Memory.getElem_withProgram, Memory.getElem_withProgram]
    rfl

/-- The first glyph begins with lit pixels. -/
theorem byteAt_glyphProgram : ((Memory.new 0x50 0x200).withProgram glyphProgram).byteAt 0x50 = 0xF0 := by
  have hglyph : glyphs[0]? = some ((Memory.new 0x50 0x200).byteAt (UInt16.toNat 0x50 + 0)) :=
    Memory.byteAt_new 0x200 (by decide) (by decide)
  have hkept : glyphProcessor.memory.byteAt 0x50 = (Memory.new 0x50 0x200).byteAt 0x50 :=
    (Processor.sameBelow_load (Processor.new 0x50 0x200 {}) glyphProgram).byteAt (by decide)
  rw [glyphProcessor_eq] at hkept
  exact hkept.trans (Option.some.inj hglyph).symm

/-- It lights the corner of a dark screen, whatever happens after its two steps. -/
theorem lit_glyphProgram {m : Machine} (hcpu : m.cpu = glyphProcessor) (hw : 1 ≤ m.screen.width)
    (hh : 1 ≤ m.screen.height) (hdark : m.screen.lit 0 0 = false) (r s : UInt8) {after : List Action}
    (hquiet : ∀ a ∈ after, ∀ random, a ≠ .step random) :
    (m.performAll (.step r :: .step s :: after)).screen.lit 0 0 = true := by
  rw [glyphProcessor_eq] at hcpu
  have hpoint : m.cpu.memory.readWord m.cpu.pc = some 0xA050 := by
    rw [hcpu]
    exact readWord_glyphProgram.1
  let m' : Machine := (m.fetched 0xA050).updateProcessor fun c => { c with index := 0x50 }
  have hpointed : (m.step r).1 = m' := by
    rw [step_of_instruction (i := .setIndex ⟨0x50, by decide⟩) r hpoint (by decide)]
    rfl
  have hdraw : m'.cpu.memory.readWord m'.cpu.pc = some 0xD005 := by
    simp only [m', updateProcessor_cpu, fetched_cpu, hcpu]
    exact readWord_glyphProgram.2
  let n := m'.fetched 0xD005
  have hn : n.screen = m.screen := (m'.fetched_screen 0xD005).trans (m.fetched_screen 0xA050)
  have hcorner : n.Covers 0 0 5 0 0 := by
    have hbyte : n.cpu.memory.byteAt (n.cpu.index.toNat + 0) = 0xF0 := by
      simp only [n, m', updateProcessor_cpu, fetched_cpu, hcpu]
      exact byteAt_glyphProgram
    have hzero : n.cpu.get 0 = 0 := by
      simp only [n, m', updateProcessor_cpu, fetched_cpu, hcpu]
      rfl
    refine ⟨0, by decide, 0, by decide, ?_, by simp [hzero], by simp [hzero], ?_, ?_⟩
    · rw [hbyte]
      decide
    · rwa [hn]
    · rwa [hn]
  show (((m.step r).1.step s).1.performAll after).screen.lit 0 0 = true
  rw [performAll_screen _ hquiet, hpointed, step_of_instruction (i := .draw 0 0 5) s hdraw (by decide)]
  exact (lit_draw_of_covers hcorner).trans (by rw [hn, hdark]; rfl)

end Machine

end Chip8

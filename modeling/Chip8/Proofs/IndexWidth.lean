/-
How wide the index is. It is kept in a word of sixteen bits, and a transfer of
registers may move it past the end of memory, yet no program can tell it from one of
twelve bits (`index_twelve_bits`): cutting it down after every step changes nothing
but the index itself, as long as the settings stay as they are and the glyphs are low
enough.

Memory does not see the upper bits, as addresses that stand for the same cell are the
same to it. The flag that reports an addition to the index would see them, but is set
only under dialects in which the index never gets that far (`Arises.index_le`). So
either the two machines are the same all along, or they differ in the index alone, by a
multiple of the size of memory (`Aliased`), and stay so.
-/
import Chip8.Proofs.Addresses

namespace Chip8

namespace Memory

variable {a b : UInt16}

theorem cell_add (h : cell a = cell b) (k : UInt16) : cell (a + k) = cell (b + k) := by
  have hmod : a.toNat % 4096 = b.toNat % 4096 := congrArg Fin.val h
  refine Fin.ext ?_
  show (a + k).toNat % 4096 = (b + k).toNat % 4096
  rw [UInt16.toNat_add, UInt16.toNat_add]
  omega

theorem read_of_cell (m : Memory) (h : cell a = cell b) : m.read a = m.read b := by
  simp only [read, h]

theorem writeAll_of_cell (m : Memory) (h : cell a = cell b) (data : List UInt8) :
    m.writeAll a data = m.writeAll b data := by
  induction data generalizing m a b with
  | nil => rfl
  | cons x xs ih =>
    have hwrite : m.write a x = m.write b x := by simp only [write, h]
    rw [writeAll, writeAll, hwrite]
    exact ih _ (cell_add h 1)

theorem toNat_and_mask (a : UInt16) : (a &&& 0xFFF).toNat = a.toNat % 4096 := by
  rw [UInt16.toNat_and]
  exact Nat.and_two_pow_sub_one_eq_mod a.toNat 12

theorem cell_and (a : UInt16) : cell (a &&& 0xFFF) = cell a := by
  have hmask := toNat_and_mask a
  refine Fin.ext ?_
  show (a &&& 0xFFF).toNat % 4096 = a.toNat % 4096
  omega

end Memory

open Memory (cell)

namespace Processor

/-- The processor with another index. -/
def withIndex (c : Processor) (index : UInt16) : Processor := { c with index }

/-- The second processor is the first one with an index that stands for the same cell. -/
def Aliased (c d : Processor) : Prop := ∃ index, d = c.withIndex index ∧ cell index = cell c.index

namespace Aliased

variable {c d : Processor}

theorem refl (c : Processor) : Aliased c c := ⟨c.index, rfl, rfl⟩

theorem set (h : Aliased c d) (x : Register) (value : UInt8) : Aliased (c.set x value) (d.set x value) := by
  obtain ⟨index, rfl, hcell⟩ := h
  exact ⟨index, rfl, hcell⟩

theorem set_pc (h : Aliased c d) (pc : UInt16) : Aliased { c with pc } { d with pc } := by
  obtain ⟨index, rfl, hcell⟩ := h
  exact ⟨index, rfl, hcell⟩

theorem get (h : Aliased c d) (x : Register) : d.get x = c.get x := by
  obtain ⟨index, rfl, -⟩ := h
  rfl

theorem settings (h : Aliased c d) : d.settings = c.settings := by
  obtain ⟨index, rfl, -⟩ := h
  rfl

theorem pc (h : Aliased c d) : d.pc = c.pc := by
  obtain ⟨index, rfl, -⟩ := h
  rfl

theorem skipIf (h : Aliased c d) (condition : Bool) : Aliased (c.skipIf condition) (d.skipIf condition) := by
  cases condition with
  | false => exact h
  | true =>
    obtain ⟨index, rfl, hcell⟩ := h
    exact ⟨index, rfl, hcell⟩

theorem compute (h : Aliased c d) (op : AluOp) (x y : Register) : Aliased (c.compute op x y) (d.compute op x y) := by
  simp only [Processor.compute, h.settings, h.get]
  rcases aluResult c.settings.dialect op (c.get x) (c.get y) with ⟨value, _ | carry⟩
  · exact h.set x value
  · exact (h.set x value).set flag carry

theorem jumpIndexed (h : Aliased c d) (target : Address) : Aliased (c.jumpIndexed target) (d.jumpIndexed target) := by
  obtain ⟨index, rfl, hcell⟩ := h
  exact ⟨index, rfl, hcell⟩

/-- An addition that does not report where it ends forgets the upper bits. -/
theorem addIndex (h : Aliased c d) (x : Register) (hquiet : c.settings.dialect.flagsIndexOverflow = false) :
    Aliased (c.addIndex x) (d.addIndex x) := by
  obtain ⟨index, rfl, hcell⟩ := h
  have hmod : index.toNat % 4096 = c.index.toNat % 4096 := congrArg Fin.val hcell
  have hsum : (index.toNat + (c.get x).toNat) % memorySize = (c.index.toNat + (c.get x).toNat) % memorySize := by
    simp only [memorySize]
    omega
  have hquiet' : (c.withIndex index).settings.dialect.flagsIndexOverflow = false := hquiet
  have hsum' : ((c.withIndex index).index.toNat + ((c.withIndex index).get x).toNat) % memorySize =
      (c.index.toNat + (c.get x).toNat) % memorySize := hsum
  have heq : (c.withIndex index).addIndex x = c.addIndex x := by
    simp only [Processor.addIndex, hquiet, hquiet', hsum']
    rfl
  rw [heq]
  exact refl _

theorem pointAtGlyph (h : Aliased c d) (x : Register) : Aliased (c.pointAtGlyph x) (d.pointAtGlyph x) := by
  obtain ⟨index, rfl, -⟩ := h
  exact refl _

theorem passIndex (h : Aliased c d) (x : Register) : Aliased (c.passIndex x) (d.passIndex x) := by
  simp only [Processor.passIndex, h.settings]
  obtain ⟨index, rfl, hcell⟩ := h
  split
  · exact ⟨index + UInt16.ofNat (x.val + 1), rfl, Memory.cell_add hcell _⟩
  · exact ⟨index, rfl, hcell⟩

/-- Writing from the index on. -/
theorem writeAll (h : Aliased c d) (data : List UInt8) :
    Aliased { c with memory := c.memory.writeAll c.index data }
      { d with memory := d.memory.writeAll d.index data } := by
  obtain ⟨index, rfl, hcell⟩ := h
  refine ⟨index, ?_, hcell⟩
  show ({ c.withIndex index with memory := c.memory.writeAll index data } : Processor) = _
  rw [Memory.writeAll_of_cell c.memory hcell]
  rfl

theorem writeDecimal (h : Aliased c d) (x : Register) : Aliased (c.writeDecimal x) (d.writeDecimal x) := by
  simp only [Processor.writeDecimal, h.get]
  exact h.writeAll _

theorem storeRegisters (h : Aliased c d) (x : Register) : Aliased (c.storeRegisters x) (d.storeRegisters x) := by
  have hstored := (h.writeAll (c.v.toList.take (x.val + 1))).passIndex x
  obtain ⟨index, rfl, -⟩ := h
  exact hstored

/-- Reading from the index on. -/
theorem read (h : Aliased c d) (k : UInt16) : d.memory.read (d.index + k) = c.memory.read (c.index + k) := by
  obtain ⟨index, rfl, hcell⟩ := h
  exact c.memory.read_of_cell (Memory.cell_add hcell k)

theorem loadRegisters (h : Aliased c d) (x : Register) : Aliased (c.loadRegisters x) (d.loadRegisters x) := by
  simp only [Processor.loadRegisters, h.read, h.get]
  refine passIndex ?_ x
  obtain ⟨index, rfl, hcell⟩ := h
  exact ⟨index, rfl, hcell⟩

theorem spriteRows (h : Aliased c d) (rows : Nat) : d.spriteRows rows = c.spriteRows rows := by
  simp only [Processor.spriteRows, h.read]

theorem restarted (h : Aliased c d) (memory : Memory) : d.restarted memory = c.restarted memory := by
  obtain ⟨index, rfl, -⟩ := h
  rfl

theorem reset (h : Aliased c d) : d.reset = c.reset := by
  have hmemory : d.memory = c.memory ∧ d.rom = c.rom := by
    obtain ⟨index, rfl, -⟩ := h
    exact ⟨rfl, rfl⟩
  simp only [reset_eq, hmemory, h.restarted]

end Aliased

end Processor

namespace Machine

/-! ## Instructions on both -/

/-- The second machine is the first one with an index that stands for the same cell. -/
def Aliased (m n : Machine) : Prop := ∃ cpu, m.cpu.Aliased cpu ∧ n = { m with cpu }

variable {m n : Machine}

theorem Aliased.cpu (h : Aliased m n) : m.cpu.Aliased n.cpu := by
  obtain ⟨d, hd, rfl⟩ := h
  exact hd

theorem Aliased.updateProcessor (h : Aliased m n) {f g : Processor → Processor}
    (hfg : Processor.Aliased (f m.cpu) (g n.cpu)) : Aliased (m.updateProcessor f) (n.updateProcessor g) := by
  obtain ⟨d, -, rfl⟩ := h
  exact ⟨g d, hfg, rfl⟩

theorem Aliased.updateChannel (h : Aliased m n) (f : Channel → Channel) :
    Aliased (m.updateChannel f) (n.updateChannel f) := by
  obtain ⟨d, hd, rfl⟩ := h
  exact ⟨d, hd, rfl⟩

theorem Aliased.clearScreen (h : Aliased m n) : Aliased m.clearScreen n.clearScreen := by
  obtain ⟨d, hd, rfl⟩ := h
  exact ⟨d, hd, rfl⟩

theorem Aliased.returnToCaller (h : Aliased m n) : Aliased m.returnToCaller n.returnToCaller := by
  obtain ⟨_, ⟨index, rfl, hcell⟩, rfl⟩ := h
  rcases hpop : m.cpu.stack.pop with ⟨stack, fault | address⟩
  · simp only [Machine.returnToCaller, Processor.withIndex, hpop]
    exact ⟨_, ⟨index, rfl, hcell⟩, rfl⟩
  · simp only [Machine.returnToCaller, Processor.withIndex, hpop]
    exact ⟨_, ⟨index, rfl, hcell⟩, rfl⟩

theorem Aliased.call (h : Aliased m n) (target : Address) : Aliased (m.call target) (n.call target) := by
  obtain ⟨_, ⟨index, rfl, hcell⟩, rfl⟩ := h
  rcases hpush : m.cpu.stack.push m.cpu.pc with ⟨stack, fault | pushed⟩
  · simp only [Machine.call, Processor.withIndex, hpush]
    exact ⟨_, ⟨index, rfl, hcell⟩, rfl⟩
  · simp only [Machine.call, Processor.withIndex, hpush]
    exact ⟨_, ⟨index, rfl, hcell⟩, rfl⟩

/-- Starting over forgets the index. -/
theorem Aliased.restart (h : Aliased m n) : n.restart = m.restart := by
  have hreset := h.cpu.reset
  obtain ⟨d, -, rfl⟩ := h
  simp only [Machine.restart, Machine.reset, hreset]

theorem jump_aliased (h : Aliased m n) (target : Address) :
    (n.jump target).2 = (m.jump target).2 ∧ Aliased (m.jump target).1 (n.jump target).1 := by
  have hgoes : Aliased (m.updateProcessor (·.jump target)) (n.updateProcessor (·.jump target)) :=
    h.updateProcessor (h.cpu.set_pc _)
  have hnoted : ∀ text, Aliased (m.note .info .instruction text) (n.note .info .instruction text) :=
    fun text => h.updateChannel _
  simp only [jump, h.cpu.pc, h.cpu.settings]
  split
  · exact ⟨rfl, hgoes⟩
  split
  · exact ⟨rfl, (hnoted _).updateChannel _⟩
  split
  · rw [(hnoted _).restart]
    exact ⟨rfl, _, .refl _, rfl⟩
  · exact ⟨rfl, hgoes⟩

theorem draw_aliased (h : Aliased m n) (x y : Register) (rows : Nibble) :
    (n.draw x y rows).2 = (m.draw x y rows).2 ∧ Aliased (m.draw x y rows).1 (n.draw x y rows).1 := by
  have hrows := h.cpu.spriteRows rows.val
  have hget := h.cpu.get
  obtain ⟨d, hd, rfl⟩ := h
  simp only [draw, hrows, hget]
  split
  · exact ⟨rfl, d, hd, rfl⟩
  · exact ⟨rfl, _, hd.set _ _, rfl⟩

theorem awaitKey_aliased (h : Aliased m n) (x : Register) :
    (n.awaitKey x).2 = (m.awaitKey x).2 ∧ Aliased (m.awaitKey x).1 (n.awaitKey x).1 := by
  have hset : ∀ key, Aliased (m.updateProcessor (·.set x key)) (n.updateProcessor (·.set x key)) :=
    fun key => h.updateProcessor (h.cpu.set x key)
  have hback : Aliased (m.updateProcessor Processor.rewind) (n.updateProcessor Processor.rewind) := by
    obtain ⟨_, ⟨index, rfl, hcell⟩, rfl⟩ := h
    exact ⟨_, ⟨index, rfl, hcell⟩, rfl⟩
  have hkey : n.channel = m.channel := by
    obtain ⟨d, -, rfl⟩ := h
    rfl
  unfold awaitKey
  rw [hkey]
  cases m.channel.shared.lowestKey? with
  | some key => exact ⟨rfl, hset key⟩
  | none => exact ⟨rfl, hback⟩

/-- **An instruction cannot tell** where among its aliases the index is, unless adding
to it is reported. -/
theorem execute_aliased (h : Aliased m n) (hquiet : m.cpu.settings.dialect.flagsIndexOverflow = false)
    (random : UInt8) (i : Instruction) :
    (n.execute random i).2 = (m.execute random i).2 ∧
      Aliased (m.execute random i).1 (n.execute random i).1 := by
  obtain ⟨_, ⟨index, rfl, hcell⟩, rfl⟩ := h
  have hd : m.cpu.Aliased (m.cpu.withIndex index) := ⟨index, rfl, hcell⟩
  have h : Aliased m { m with cpu := m.cpu.withIndex index } := ⟨_, hd, rfl⟩
  have onProcessor : ∀ f : Processor → Processor, Processor.Aliased (f m.cpu) (f (m.cpu.withIndex index)) →
      (.ok .continued : Except Fault Outcome) = .ok .continued ∧
        Aliased (m.updateProcessor f) ({ m with cpu := m.cpu.withIndex index }.updateProcessor f) :=
    fun f hf => ⟨rfl, _, hf, rfl⟩
  cases i with
  | clearScreen => exact ⟨rfl, h.clearScreen⟩
  | ret => exact ⟨rfl, h.returnToCaller⟩
  | jump target =>
    obtain ⟨houtcome, hmachine⟩ := jump_aliased h target
    exact ⟨congrArg Except.ok houtcome, hmachine⟩
  | call target => exact ⟨rfl, h.call target⟩
  | skipIfByte x b => exact onProcessor (fun c => c.skipIf (c.get x == b)) (hd.skipIf _)
  | skipUnlessByte x b => exact onProcessor (fun c => c.skipIf (c.get x != b)) (hd.skipIf _)
  | skipIfEqual x y => exact onProcessor (fun c => c.skipIf (c.get x == c.get y)) (hd.skipIf _)
  | skipUnlessEqual x y => exact onProcessor (fun c => c.skipIf (c.get x != c.get y)) (hd.skipIf _)
  | skipIfKey x => exact onProcessor (fun c => c.skipIf (m.channel.shared.isHeld (c.get x))) (hd.skipIf _)
  | skipUnlessKey x => exact onProcessor (fun c => c.skipIf (!m.channel.shared.isHeld (c.get x))) (hd.skipIf _)
  | setByte x b => exact onProcessor (·.set x b) (hd.set x b)
  | addByte x b => exact onProcessor (fun c => c.set x (c.get x + b)) (hd.set x _)
  | random x mask => exact onProcessor (·.set x (random &&& mask)) (hd.set x _)
  | getDelay x => exact onProcessor (·.set x m.channel.shared.delay) (hd.set x _)
  | compute op x y => exact onProcessor (·.compute op x y) (hd.compute op x y)
  | setIndex target => exact onProcessor (fun c => { c with index := UInt16.ofNat target.val }) (.refl _)
  | jumpIndexed target => exact onProcessor (·.jumpIndexed target) (hd.jumpIndexed target)
  | draw x y rows => exact draw_aliased h x y rows
  | awaitKey x =>
    obtain ⟨houtcome, hmachine⟩ := awaitKey_aliased h x
    exact ⟨congrArg Except.ok houtcome, hmachine⟩
  | setDelay | setSound => exact ⟨rfl, _, hd, rfl⟩
  | addIndex x => exact onProcessor (·.addIndex x) (hd.addIndex x hquiet)
  | glyph x => exact onProcessor (·.pointAtGlyph x) (hd.pointAtGlyph x)
  | decimal x => exact onProcessor (·.writeDecimal x) (hd.writeDecimal x)
  | store x => exact onProcessor (·.storeRegisters x) (hd.storeRegisters x)
  | load x => exact onProcessor (·.loadRegisters x) (hd.loadRegisters x)

/-! ## Steps and turns -/

theorem Aliased.fetched (h : Aliased m n) (word : UInt16) : Aliased (m.fetched word) (n.fetched word) := by
  obtain ⟨_, ⟨index, rfl, hcell⟩, rfl⟩ := h
  refine ⟨(m.fetched word).cpu.withIndex index, ⟨index, rfl, ?_⟩, ?_⟩
  · rw [fetched_cpu]
    exact hcell
  · rw [fetched_eq, fetched_eq]
    rfl

/-- Machines that differ in the index by a multiple of the size of memory take the same
step, if adding to the index is not reported. -/
theorem step_aliased (h : Aliased m n) (hquiet : m.cpu.settings.dialect.flagsIndexOverflow = false)
    (random : UInt8) :
    (n.step random).2 = (m.step random).2 ∧ Aliased (m.step random).1 (n.step random).1 := by
  have hpc := h.cpu.pc
  have hnword : n.cpu.memory.readWord n.cpu.pc = m.cpu.memory.readWord m.cpu.pc := by
    obtain ⟨_, ⟨index, rfl, -⟩, rfl⟩ := h
    rfl
  rcases step_cases m random with ⟨hword, hs⟩ | ⟨word, i, hword, hi, hs⟩ | ⟨word, hword, hi, hclass, hs⟩ |
    ⟨word, hword, hi, hclass, hs⟩
  · rw [hs, step_of_no_word random (hnword.trans hword), hpc]
    exact ⟨rfl, h⟩
  · rw [hs, step_of_instruction random (hnword.trans hword) hi]
    refine execute_aliased (h.fetched word) ?_ random i
    rw [fetched_cpu]
    exact hquiet
  · rw [hs, step_of_machineCode random (hnword.trans hword) hi hclass, hpc]
    exact ⟨rfl, h.fetched word⟩
  · rw [hs, step_of_ignored random (hnword.trans hword) hi hclass, hpc]
    exact ⟨rfl, (h.fetched word).updateChannel _⟩

theorem takeTurn_aliased (h : Aliased m n) (hquiet : m.cpu.settings.dialect.flagsIndexOverflow = false)
    (t : Turn) : (n.takeTurn t).2 = (m.takeTurn t).2 ∧ Aliased (m.takeTurn t).1 (n.takeTurn t).1 := by
  obtain ⟨d, hd, rfl⟩ := h
  exact step_aliased (m := m.interrupted t.between) ⟨d, hd, rfl⟩ hquiet t.random

/-! ## An index of twelve bits -/

/-- The machine with the upper four bits of its index cleared. -/
def narrowed (m : Machine) : Machine := m.updateProcessor fun c => { c with index := c.index &&& 0xFFF }

/-- A turn of a machine whose index has twelve bits. -/
def takeNarrowTurn (m : Machine) (t : Turn) : Machine × Except Fault Outcome :=
  ((m.takeTurn t).1.narrowed, (m.takeTurn t).2)

/-- The machine after each of some turns, taken one way or the other, with how the step
came out. -/
def trajectory (take : Machine → Turn → Machine × Except Fault Outcome) (m : Machine) :
    List Turn → List (Machine × Except Fault Outcome)
  | [] => []
  | t :: rest => take m t :: trajectory take (take m t).1 rest

theorem narrowed_aliased (m : Machine) : Aliased m m.narrowed :=
  ⟨_, ⟨m.cpu.index &&& 0xFFF, rfl, Memory.cell_and m.cpu.index⟩, rfl⟩

theorem Aliased.narrowed_eq (h : Aliased m n) : n.narrowed = m.narrowed := by
  obtain ⟨_, ⟨index, rfl, hcell⟩, rfl⟩ := h
  have hmask : index &&& 0xFFF = m.cpu.index &&& 0xFFF := by
    rw [← UInt16.toNat_inj, Memory.toNat_and_mask, Memory.toNat_and_mask]
    exact congrArg Fin.val hcell
  simp only [narrowed, Machine.updateProcessor, Processor.withIndex, hmask]

theorem narrowed_of_le (h : m.cpu.index.toNat ≤ 0xFFF) : m.narrowed = m := by
  have hmask : m.cpu.index &&& 0xFFF = m.cpu.index := by
    rw [← UInt16.toNat_inj, Memory.toNat_and_mask]
    omega
  simp only [narrowed, Machine.updateProcessor, hmask]

open Processor (Arises)

section

variable {font start : UInt16} {settings : Settings}

theorem arises_takeTurn (h : Arises font start (· = settings) m.cpu) (t : Turn) :
    Arises font start (· = settings) (m.takeTurn t).1.cpu :=
  h.step _ _ t.random

/-- A turn from the narrowed machine comes out as from the machine itself. -/
theorem takeTurn_narrowed (h : Arises font start (· = settings) m.cpu) (hfont : font.toNat ≤ 0xB04) (t : Turn) :
    m.narrowed.takeNarrowTurn t = ((m.takeTurn t).1.narrowed, (m.takeTurn t).2) := by
  have hsettings : m.cpu.settings = settings := h.setup.2.2
  cases hstrict : settings.dialect.strictCosmac with
  | true =>
    have hquiet : m.cpu.settings.dialect.flagsIndexOverflow = false := by
      rw [hsettings, Dialect.flagsIndexOverflow, hstrict]
      rfl
    obtain ⟨hresult, hafter⟩ := takeTurn_aliased m.narrowed_aliased hquiet t
    rw [takeNarrowTurn, hresult, hafter.narrowed_eq]
  | false =>
    have hstays : ∀ s, s = settings → s.dialect.advancesIndex = false := by
      rintro s rfl
      rw [Dialect.advancesIndex, hstrict]
      rfl
    rw [takeNarrowTurn, narrowed_of_le (h.index_le hfont hstays)]

theorem trajectory_narrowed (h : Arises font start (· = settings) m.cpu) (hfont : font.toNat ≤ 0xB04)
    (turns : List Turn) :
    trajectory takeNarrowTurn m.narrowed turns =
      (trajectory takeTurn m turns).map fun (after, result) => (after.narrowed, result) := by
  induction turns generalizing m with
  | nil => rfl
  | cons t rest ih =>
    rw [trajectory, trajectory, List.map_cons, takeTurn_narrowed h hfont t, ih (arises_takeTurn h t)]

/-- **The index has twelve bits**, as far as any program can tell. A machine is made
with its glyphs at `B04` at most, and its settings stay as they are. Along any turns,
compare it to a machine that starts the same and loses the upper four bits of its
index after each of them: every step comes out the same, and the machines are the
same after it but for these bits. -/
theorem index_twelve_bits (font start : UInt16) (settings : Settings) (m : Machine)
    (h : Arises font start (· = settings) m.cpu) (hfont : font.toNat ≤ 0xB04) (turns : List Turn) :
    trajectory takeNarrowTurn m turns =
      (trajectory takeTurn m turns).map fun (after, result) => (after.narrowed, result) := by
  cases turns with
  | nil => rfl
  | cons t rest =>
    rw [trajectory, trajectory, List.map_cons]
    exact congrArg _ (trajectory_narrowed (arises_takeTurn h t) hfont rest)

end

/-- The index is put on the last cell, and two registers are written from there on. It
ends up behind them, past the end of memory, or in the second cell. -/
theorem index_twelve_bits_store :
    let settings : Settings := { dialect := Dialect.ofStrict true }
    let c := ((Processor.new 0x50 0x200 settings).load [0xAF, 0xFF, 0xF1, 0x55]).1
    let m : Machine := { cpu := c }
    let turns : List Turn := [⟨id, 0⟩, ⟨id, 0⟩]
    (trajectory takeTurn m turns).map (·.1.cpu.index) = [0xFFF, 0x1001] ∧
      (trajectory takeNarrowTurn m turns).map (·.1.cpu.index) = [0xFFF, 0x001] := by
  intro settings c
  have harises : Arises 0x50 0x200 (· = settings) c := .load [0xAF, 0xFF, 0xF1, 0x55] (.new rfl)
  have hsettings : c.settings = settings := harises.setup.2.2
  have hpc : c.pc = 0x200 := by
    obtain ⟨memory, kept, hload⟩ := (Processor.new 0x50 0x200 settings).load_changes [0xAF, 0xFF, 0xF1, 0x55]
    show ((Processor.new 0x50 0x200 settings).load [0xAF, 0xFF, 0xF1, 0x55]).1.pc = 0x200
    rw [hload]
    rfl
  obtain ⟨hfirst, hsecond⟩ : c.memory.readWord 0x200 = some 0xAFFF ∧ c.memory.readWord 0x202 = some 0xF155 := by
    have hloaded : c.memory = (Memory.new 0x50 0x200).withProgram [0xAF, 0xFF, 0xF1, 0x55] := by
      show ((Processor.new 0x50 0x200 settings).load [0xAF, 0xFF, 0xF1, 0x55]).1.memory = _
      rw [Processor.load_eq, if_pos (by decide)]
      rfl
    rw [hloaded, Memory.readWord, Memory.readWord, dif_pos (by decide), dif_pos (by decide)]
    simp only [Memory.getElem_withProgram]
    exact ⟨rfl, rfl⟩
  -- From here on the cells themselves do not matter.
  generalize c = c at harises hsettings hpc hfirst hsecond ⊢
  intro m turns
  have hset : m.takeTurn ⟨id, 0⟩ = (m.fetched 0xAFFF).execute 0 (.setIndex ⟨0xFFF, by decide⟩) :=
    step_of_instruction 0 (hpc ▸ hfirst) (by decide)
  obtain ⟨after, hafter⟩ : ∃ after, (m.takeTurn ⟨id, 0⟩).1 = after := ⟨_, rfl⟩
  have hcpu : after.cpu = { (m.fetched 0xAFFF).cpu with index := 0xFFF } := by
    rw [← hafter, hset]
    rfl
  rw [fetched_cpu] at hcpu
  have hnext : after.cpu.memory.readWord after.cpu.pc = some 0xF155 := by
    rw [hcpu]
    show c.memory.readWord (c.pc + 2) = some 0xF155
    rw [hpc]
    exact hsecond
  have hstore : after.takeTurn ⟨id, 0⟩ = (after.fetched 0xF155).execute 0 (.store 1) :=
    step_of_instruction 0 hnext (by decide)
  have hpast : (after.takeTurn ⟨id, 0⟩).1.cpu.index = 0x1001 := by
    rw [hstore]
    show ((after.fetched 0xF155).cpu.storeRegisters 1).index = 0x1001
    have hadvances : c.settings.dialect.advancesIndex = true := by
      rw [hsettings]
      rfl
    rw [fetched_cpu, hcpu, Processor.storeRegisters, Processor.passIndex, if_pos hadvances]
    rfl
  have hwide : (trajectory takeTurn m turns).map (·.1.cpu.index) = [0xFFF, 0x1001] := by
    show [(m.takeTurn ⟨id, 0⟩).1.cpu.index, ((m.takeTurn ⟨id, 0⟩).1.takeTurn ⟨id, 0⟩).1.cpu.index] = _
    rw [hafter, hpast, hcpu]
  have hnarrow := index_twelve_bits 0x50 0x200 settings m harises (by decide) turns
  refine ⟨hwide, ?_⟩
  calc (trajectory takeNarrowTurn m turns).map (·.1.cpu.index)
      = ((trajectory takeTurn m turns).map (·.1.cpu.index)).map (· &&& 0xFFF) := by
        rw [hnarrow, List.map_map, List.map_map]
        rfl
    _ = [0xFFF, 0x001] := by
        rw [hwide]
        decide

end Machine

end Chip8

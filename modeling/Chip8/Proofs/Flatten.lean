/-
A machine flattened, and its data. `flatten` forgets what the types of a machine
say. Each access of a flat machine to its registers, its memory, its program and
its screen, started where a machine was flattened, succeeds and gives what the
machine has: the bounds that are checked are those the types carry.

Packing is the one loop with an index of its own: the flat machine puts pixel
`k` into byte `k / 8`, and after `k` pixels has `packedUpTo k`.
-/
import Chip8.Proofs.Checked
import Chip8.Proofs.ScreenFacts

namespace Chip8

/-- A pixel as a byte. -/
def pixelByte (lit : Bool) : UInt8 := if lit then 1 else 0

/-- The spans of the character set and of the program. -/
def Memory.regions (m : Memory) : Array (Option Span) := #[m.span? .charset, m.span? .program]

/-- The machine on plain arrays. -/
def Machine.flatten (m : Machine) : Flat where
  settings := m.cpu.settings
  memory := m.cpu.memory.cells.toArray
  regions := m.cpu.memory.regions
  font := m.cpu.font
  start := m.cpu.start
  slots := m.cpu.stack.slots.toArray
  top := m.cpu.stack.top
  rom := m.cpu.rom
  pc := m.cpu.pc
  index := m.cpu.index
  v := m.cpu.v.toArray
  cycle := m.cpu.cycle
  tracer := m.cpu.tracer
  width := m.screen.width
  height := m.screen.height
  pixels := m.screen.pixels.map pixelByte
  channel := m.channel

namespace Checked

theorem read_ok {α : Type} {a : Array α} {i : Nat} (h : i < a.size) : read a i = .ok a[i] := by
  rw [read, dif_pos h]

theorem write_ok {α : Type} {a : Array α} {i : Nat} (h : i < a.size) (x : α) :
    write a i x = .ok (a.set i x h) := by
  rw [write, dif_pos h]

theorem remainder_ok {n divisor : Nat} (h : 1 ≤ divisor) : remainder n divisor = .ok (n % divisor) := by
  rw [remainder, if_neg (by omega)]

/-- The plane of a screen that has a pixel for every point. -/
theorem plane_ok {width height : Nat} (h : width * height < planeLimit) :
    plane width height = .ok (Array.replicate (width * height) 0) := by
  have hword : width * height % wordLimit = width * height :=
    Nat.mod_eq_of_lt (Nat.lt_trans h (by decide))
  rw [plane, hword]
  exact if_pos h

section Loops

variable {ε : Type}

theorem ok_bind {α β : Type} (a : α) (k : α → Except ε β) : (Except.ok a >>= k) = k a := rfl

theorem mapM_ok {α β : Type} {g : α → Except ε β} {h : α → β} {xs : List α}
    (hg : ∀ a ∈ xs, g a = .ok (h a)) : xs.mapM g = .ok (xs.map h) := by
  induction xs with
  | nil => rfl
  | cons a xs ih =>
    have hrest := ih fun b hb => hg b (List.mem_cons_of_mem a hb)
    rw [List.mapM_cons, hg a List.mem_cons_self, hrest]
    rfl

/-- A loop whose every pass succeeds, stays with what `φ` makes of a state, and keeps `P`. -/
theorem foldlM_ok {α σ τ : Type} {φ : σ → τ} {g : τ → α → Except ε τ} {h : σ → α → σ} {P : σ → Prop} {s : σ}
    {xs : List α} (hg : ∀ s, P s → ∀ a ∈ xs, g (φ s) a = .ok (φ (h s a)) ∧ P (h s a)) (hs : P s) :
    xs.foldlM g (φ s) = .ok (φ (xs.foldl h s)) := by
  induction xs generalizing s with
  | nil => rfl
  | cons a xs ih =>
    obtain ⟨hpass, hkept⟩ := hg s hs a List.mem_cons_self
    rw [List.foldlM_cons, hpass, ok_bind, List.foldl_cons]
    exact ih (fun t ht b hb => hg t ht b (List.mem_cons_of_mem a hb)) hkept

/-- A counting loop whose every pass succeeds. -/
theorem foldlM_range_ok {τ : Type} {φ : Nat → τ} {g : τ → Nat → Except ε τ} {n : Nat}
    (hg : ∀ k < n, g (φ k) k = .ok (φ (k + 1))) : (List.range n).foldlM g (φ 0) = .ok (φ n) := by
  induction n with
  | zero => rfl
  | succ n ih =>
    rw [List.range_succ, List.foldlM_append, ih fun k hk => hg k (by omega), ok_bind, List.foldlM_cons,
      hg n (by omega)]
    rfl

end Loops

/-- Copying data that fits. -/
theorem copy_toArray (cells : Vector UInt8 memorySize) (start : Nat) (data : List UInt8)
    (h : start + data.length ≤ memorySize) :
    copy cells.toArray start data = .ok (Memory.blit cells start data).toArray := by
  induction data generalizing cells start with
  | nil => rfl
  | cons b bs ih =>
    have hlength : (b :: bs).length = bs.length + 1 := rfl
    have hstart : start < cells.toArray.size := by rw [cells.size_toArray]; omega
    have hset : cells.toArray.set start b hstart = (cells.setIfInBounds start b).toArray := by
      show _ = cells.toArray.setIfInBounds start b
      rw [Array.setIfInBounds, dif_pos hstart]
    rw [copy, write_ok hstart, ok_bind, hset, Memory.blit]
    exact ih _ _ (by omega)

end Checked

theorem Flat.check_ok {α : Type} (f : Flat) (a : α) : f.check (.ok a) = .ok a := rfl

namespace Machine

open Checked (ok_bind read_ok write_ok remainder_ok mapM_ok foldlM_ok foldlM_range_ok)
open Flat (check_ok)

/-! ## Registers and memory -/

theorem get_flatten (m : Machine) (x : Register) : m.flatten.get x.val = .ok (m.cpu.get x) := by
  have hx : x.val < m.cpu.v.toArray.size := by simp
  exact congrArg m.flatten.check (read_ok hx)

theorem set_flatten (m : Machine) (x : Register) (value : UInt8) :
    m.flatten.set x.val value = .ok (m.updateProcessor (·.set x value)).flatten := by
  have hx : x.val < m.cpu.v.toArray.size := by simp
  show (m.flatten.check (Checked.write m.cpu.v.toArray x.val value) >>= _) = _
  rw [write_ok hx]
  rfl

theorem readByte_flatten (m : Machine) (a : UInt16) : m.flatten.readByte a = .ok (m.cpu.memory.read a) := by
  have ha : a.toNat % memorySize < m.cpu.memory.cells.toArray.size := by
    rw [Vector.size_toArray]
    exact (Memory.cell a).isLt
  exact congrArg m.flatten.check (read_ok ha)

theorem writeByte_flatten (m : Machine) (a : UInt16) (value : UInt8) :
    m.flatten.writeByte a value =
      .ok (m.updateProcessor fun c => { c with memory := c.memory.write a value }).flatten := by
  have ha : a.toNat % memorySize < m.cpu.memory.cells.toArray.size := by
    rw [Vector.size_toArray]
    exact (Memory.cell a).isLt
  show (m.flatten.check (Checked.write m.cpu.memory.cells.toArray (a.toNat % memorySize) value) >>= _) = _
  rw [write_ok ha]
  rfl

theorem writeBytes_flatten (m : Machine) (a : UInt16) (data : List UInt8) :
    m.flatten.writeBytes a data =
      .ok (m.updateProcessor fun c => { c with memory := c.memory.writeAll a data }).flatten := by
  induction data generalizing m a with
  | nil => rfl
  | cons b bs ih =>
    rw [Flat.writeBytes, writeByte_flatten, ok_bind, ih]
    rfl

theorem fetch_flatten (m : Machine) (a : UInt16) : m.flatten.fetch a = .ok (m.cpu.memory.readWord a) := by
  have hsize : m.flatten.memory.size = memorySize := m.cpu.memory.cells.size_toArray
  unfold Flat.fetch Memory.readWord
  rw [hsize]
  by_cases h : a.toNat + 1 < memorySize
  · have hlow : a.toNat + 1 < m.flatten.memory.size := by rw [hsize]; exact h
    have hhigh : a.toNat < m.flatten.memory.size := by omega
    rw [if_pos h, dif_pos h, read_ok hhigh, read_ok hlow]
    rfl
  · rw [if_neg h, dif_neg h]

/-! ## Loading and resetting -/

theorem region?_flatten (m : Machine) :
    m.flatten.region? Flat.programRegion = some ⟨m.cpu.memory.programBase.val, memorySize⟩ := by
  have hsize : m.flatten.memory.size = memorySize := m.cpu.memory.cells.size_toArray
  have hspan : m.flatten.regions[Flat.programRegion]? =
      some (some ⟨m.cpu.memory.programBase.val, memorySize⟩) := rfl
  have hbase := m.cpu.memory.programBase.isLt
  simp only [Flat.region?, hspan, hsize]
  rw [if_pos ⟨Nat.le_of_lt hbase, Nat.le_refl _⟩]

/-- The machine with other memory. -/
def withMemory (m : Machine) (memory : Memory) : Machine := m.updateProcessor fun c => { c with memory }

theorem withMemory_flatten {m : Machine} {memory : Memory}
    (hc : memory.charsetBase = m.cpu.memory.charsetBase) (hp : memory.programBase = m.cpu.memory.programBase) :
    (m.withMemory memory).flatten = { m.flatten with memory := memory.cells.toArray } := by
  have hregions : memory.regions = m.cpu.memory.regions := by
    simp only [Memory.regions, Memory.span?, hc, hp]
  show { m.flatten with memory := memory.cells.toArray, regions := memory.regions } = _
  rw [hregions]
  rfl

theorem clearProgram_flatten (m : Machine) :
    m.flatten.clearProgram = (m.withMemory (m.cpu.memory.clearRegion .program)).flatten := by
  have hcells : m.flatten.memory.mapIdx (fun i b =>
      if m.cpu.memory.programBase.val ≤ i ∧ i < memorySize then 0 else b) =
        (m.cpu.memory.clearRegion .program).cells.toArray := by
    refine Array.ext (by simp [flatten]) fun i hi hi' => ?_
    have hlt : i < memorySize := by simpa using hi'
    have hcell := m.cpu.memory.getElem_clearRegion .program hlt
    simp only [Memory.span?] at hcell
    simp only [flatten, Array.getElem_mapIdx, Vector.getElem_toArray, hcell]
  rw [withMemory_flatten (by simp) (by simp), ← hcells, Flat.clearProgram, region?_flatten]

theorem loadProgram_flatten (m : Machine) (rom : List UInt8) :
    m.flatten.clearProgram.loadProgram rom =
      if rom.length ≤ memorySize - m.cpu.memory.programBase.val then
        .ok (.ok (m.withMemory (m.cpu.memory.withProgram rom)).flatten)
      else .ok (.error (.romTooLarge rom.length (memorySize - m.cpu.memory.programBase.val))) := by
  have hbase := m.cpu.memory.programBase.isLt
  have hcleared : (m.withMemory (m.cpu.memory.clearRegion .program)).flatten =
      { m.flatten with memory := (m.cpu.memory.clearRegion .program).cells.toArray } :=
    withMemory_flatten (by simp) (by simp)
  have hprogram : (m.withMemory (m.cpu.memory.clearRegion .program)).cpu.memory.programBase =
      m.cpu.memory.programBase := m.cpu.memory.clearRegion_programBase .program
  rw [clearProgram_flatten, Flat.loadProgram, region?_flatten, hprogram]
  by_cases h : rom.length ≤ memorySize - m.cpu.memory.programBase.val
  · have hcopy := Checked.copy_toArray (m.cpu.memory.clearRegion .program).cells
      m.cpu.memory.programBase.val rom (by omega)
    simp only [Span.length, if_pos h, hcleared, hcopy, check_ok, ok_bind]
    rw [withMemory_flatten (by simp) (by simp)]
    rfl
  · rw [if_neg h]
    exact if_neg h

theorem load_flatten (m : Machine) (rom : List UInt8) :
    m.flatten.load rom = .ok (m.updateProcessor fun c => (c.load rom).1).flatten := by
  rw [Flat.load, loadProgram_flatten]
  simp only [updateProcessor, Processor.load_eq]
  by_cases h : rom.length ≤ memorySize - m.cpu.memory.programBase.val
  · rw [if_pos h, if_pos h]
    rfl
  · rw [if_neg h, if_neg h, ok_bind, clearProgram_flatten]
    rfl

/-- The remembered program fits program memory. -/
def RomFits (m : Machine) : Prop := m.cpu.rom.length ≤ memorySize - m.cpu.memory.programBase.val

theorem reset_of_romFits {m : Machine} (h : m.RomFits) :
    m.reset = m.updateProcessor fun c => c.restarted (c.memory.withProgram c.rom) := by
  rw [reset, Processor.reset_of_fits h]
  rfl

theorem reset_flatten {m : Machine} (h : m.RomFits) : m.flatten.reset = .ok m.reset.flatten := by
  have hload := m.loadProgram_flatten m.cpu.rom
  rw [if_pos (show m.cpu.rom.length ≤ _ from h)] at hload
  have hrom : m.flatten.rom = m.cpu.rom := rfl
  rw [Flat.reset, hrom, hload, ok_bind, reset_of_romFits h]
  rfl

/-! ## The screen -/

theorem pixelByte_flip (lit : Bool) : pixelByte lit ^^^ 1 = pixelByte (!lit) := by
  cases lit <;> rfl

theorem pixelByte_ne_zero (lit : Bool) : (pixelByte lit != 0) = lit := by
  cases lit <;> rfl

/-- The place of a pixel wraps in no plane that can be allocated. -/
theorem pixelIndex?_flatten {m : Machine} (h : m.screen.width * m.screen.height < planeLimit) (x y : Nat) :
    m.flatten.pixelIndex? x y = m.screen.index? x y := by
  show (if x < m.screen.width ∧ y < m.screen.height then some ((y * m.screen.width + x) % wordLimit) else none) =
    if x < m.screen.width ∧ y < m.screen.height then some (y * m.screen.width + x) else none
  split
  · next hon =>
    have hplace : y * m.screen.width + x < m.screen.pixels.size :=
      Screen.index_lt (x := x) (y := y) (by rw [Screen.index?, if_pos hon])
    rw [m.screen.size_eq] at hplace
    rw [Nat.mod_eq_of_lt (Nat.lt_trans hplace (Nat.lt_trans h (by decide)))]
  · rfl

theorem pixel_flatten {m : Machine} (h : m.screen.width * m.screen.height < planeLimit) (x y : Nat) :
    m.flatten.pixel x y = .ok (pixelByte (m.screen.lit x y)) := by
  simp only [Flat.pixel, pixelIndex?_flatten h, Screen.lit]
  cases hi : m.screen.index? x y with
  | none => rfl
  | some i =>
    have hlt := Screen.index_lt hi
    have hsize : i < m.flatten.pixels.size := by simpa [flatten] using hlt
    simp only [read_ok hsize]
    simp [flatten, hlt]

/-- Flipping a point of the flat screen. -/
theorem flip_flatten {m : Machine} (h : m.screen.width * m.screen.height < planeLimit) (x y : Nat) :
    m.flatten.flip x y =
      .ok (match m.screen.flip? x y with
        | some (screen, was) => ({ m with screen }.flatten, was)
        | none => (m.flatten, false)) := by
  simp only [Flat.flip, pixelIndex?_flatten h, Screen.flip?]
  cases hi : m.screen.index? x y with
  | none => rfl
  | some i =>
    have hlt := Screen.index_lt hi
    have hsize : i < m.flatten.pixels.size := by simpa [flatten] using hlt
    have hbyte : m.flatten.pixels[i] = pixelByte (m.screen.pixels.getD i false) := by simp [flatten, hlt]
    have hset : m.flatten.pixels.set i (pixelByte (!m.screen.pixels.getD i false)) hsize =
        (m.screen.pixels.setIfInBounds i (!m.screen.pixels.getD i false)).map pixelByte := by
      simp only [flatten, Array.setIfInBounds, dif_pos hlt, Array.map_set]
    simp only [read_ok hsize, check_ok, ok_bind, write_ok hsize, hbyte, pixelByte_flip, hset, pixelByte_ne_zero]
    rfl

theorem darken_flatten (m : Machine) : m.flatten.darken = { m with screen := m.screen.clear }.flatten := by
  have hdark : (m.screen.pixels.map pixelByte).map (fun _ => (0 : UInt8)) =
      (Array.replicate (m.screen.width * m.screen.height) false).map pixelByte := by
    refine Array.ext (by simp [m.screen.size_eq]) fun i hi hi' => ?_
    simp [pixelByte]
  show { m.flatten with pixels := (m.screen.pixels.map pixelByte).map fun _ => 0 } = _
  rw [hdark]
  rfl

/-! ## Packing -/

/-- Putting a pixel into a dark place of a byte. -/
theorem octet_put (bit : Nat → Bool) {b : Nat} (hb : b < 8) (hdark : bit b = false) (lit : Bool) :
    Screen.octet bit ||| ((pixelByte lit &&& 1) <<< UInt8.ofNat (7 - b)) =
      Screen.octet fun k => if k = b then lit else bit k := by
  have hplace : ∀ b < 8, (((pixelByte lit &&& 1) <<< UInt8.ofNat (7 - b)) : UInt8).toNat =
      if lit then 2 ^ (7 - b) else 0 := by
    cases lit <;> decide
  rw [← UInt8.toNat_inj, UInt8.toNat_or, hplace b hb]
  refine Nat.eq_of_testBit_eq fun j => ?_
  rw [Nat.testBit_or]
  by_cases hj : j < 8
  -- Bits are counted from the lowest, pixels from the highest.
  · obtain ⟨k, hk, rfl⟩ : ∃ k, k < 8 ∧ j = 7 - k := ⟨7 - j, by omega, by omega⟩
    rw [Screen.testBit_octet _ hk, Screen.testBit_octet _ hk]
    by_cases hkb : k = b
    · subst hkb
      cases lit <;> simp [hdark]
    · have hne : ¬ 7 - b = 7 - k := by omega
      cases lit <;> simp [hkb, hne]
  · have hpow : 2 ^ 8 ≤ 2 ^ j := Nat.pow_le_pow_right (by decide) (by omega)
    have hhigh : ∀ n : Nat, n < 256 → n.testBit j = false :=
      fun n hn => Nat.testBit_lt_two_pow (Nat.lt_of_lt_of_le hn hpow)
    rw [hhigh _ (Screen.octet bit).toNat_lt, hhigh _ (Screen.octet _).toNat_lt, ← hplace b hb,
      hhigh _ (UInt8.toNat_lt _)]
    rfl

/-- The bytes once the first `k` pixels are packed. -/
def packedUpTo (s : Screen) (k : Nat) : Array UInt8 :=
  Array.ofFn fun j : Fin ((s.width * s.height + 7) / 8) =>
    Screen.octet fun b => decide (8 * j.val + b < k) && s.pixels.getD (8 * j.val + b) false

theorem packedUpTo_zero (s : Screen) :
    packedUpTo s 0 = Array.replicate ((s.width * s.height + 7) / 8) 0 := by
  refine Array.ext (by simp [packedUpTo]) fun j hj hj' => ?_
  simp only [packedUpTo, Array.getElem_ofFn, Array.getElem_replicate, Nat.not_lt_zero, decide_false,
    Bool.false_and]
  rfl

theorem packedUpTo_full (s : Screen) : (packedUpTo s (s.width * s.height)).toList = s.pack := by
  have hdark : ∀ k, (decide (k < s.width * s.height) && s.pixels.getD k false) = s.pixels.getD k false := by
    intro k
    by_cases hk : k < s.width * s.height
    · simp [hk]
    · have hpast : s.pixels.size ≤ k := by rw [s.size_eq]; omega
      simp [Array.getD_eq_getD_getElem?, hpast]
  simp only [packedUpTo, hdark, Screen.pack]
  rw [Array.toList_ofFn]

theorem packedUpTo_succ (s : Screen) {k : Nat} (hbyte : k / 8 < (packedUpTo s k).size) :
    (packedUpTo s k).set (k / 8)
      ((packedUpTo s k)[k / 8] |||
        ((pixelByte (s.pixels.getD k false) &&& 1) <<< UInt8.ofNat (7 - k % 8))) hbyte =
      packedUpTo s (k + 1) := by
  have hlast : decide (8 * (k / 8) + k % 8 < k) = false := by
    rw [Nat.div_add_mod]
    simp
  refine Array.ext (by simp [packedUpTo]) fun j hj hj' => ?_
  rw [Array.getElem_set]
  by_cases hjk : k / 8 = j
  -- The byte that pixel `k` goes to, and then the others.
  · subst hjk
    rw [if_pos rfl]
    simp only [packedUpTo, Array.getElem_ofFn]
    rw [octet_put _ (Nat.mod_lt k (by decide)) (by rw [hlast, Bool.false_and])]
    congr 1
    funext b
    by_cases hb : b = k % 8
    · subst hb
      simp [Nat.div_add_mod]
    · have hsame : (8 * (k / 8) + b < k + 1) = (8 * (k / 8) + b < k) := by
        apply propext
        omega
      rw [if_neg hb]
      simp only [hsame]
  · rw [if_neg hjk]
    simp only [packedUpTo, Array.getElem_ofFn]
    refine Screen.octet_congr fun b hb => ?_
    have hsame : (8 * j + b < k) = (8 * j + b < k + 1) := by
      apply propext
      omega
    simp only [hsame]

theorem pack_flatten (m : Machine) :
    m.flatten.pack = .ok (packedUpTo m.screen (m.screen.width * m.screen.height)) := by
  have hsize : m.flatten.pixels.size = m.screen.width * m.screen.height := by simp [flatten, m.screen.size_eq]
  rw [Flat.pack, hsize, ← packedUpTo_zero]
  refine foldlM_range_ok fun k hk => ?_
  have hpixel : k < m.flatten.pixels.size := by rw [hsize]; exact hk
  have hbyte : k / 8 < (packedUpTo m.screen k).size := by
    simp only [packedUpTo, Array.size_ofFn]
    omega
  have hlit : m.flatten.pixels[k] = pixelByte (m.screen.pixels.getD k false) := by
    have hlt : k < m.screen.pixels.size := by rw [m.screen.size_eq]; exact hk
    simp [flatten, hlt]
  rw [read_ok hpixel, ok_bind, read_ok hbyte, ok_bind, write_ok hbyte, hlit, packedUpTo_succ]

theorem showScreen_flatten (m : Machine) : m.flatten.showScreen = .ok m.showScreen.flatten := by
  have hwidth : m.flatten.width = m.screen.width := rfl
  have hheight : m.flatten.height = m.screen.height := rfl
  rw [Flat.showScreen, pack_flatten, hwidth, hheight, check_ok]
  by_cases h : m.screen.width ≤ 255 ∧ m.screen.height ≤ 255
  · rw [if_pos h, ok_bind, packedUpTo_full]
    simp only [showScreen, updateChannel, Channel.updateScreen, if_pos h]
    rfl
  · rw [if_neg h]
    simp only [showScreen, updateChannel, Channel.updateScreen, if_neg h]
    rfl

end Machine

end Chip8

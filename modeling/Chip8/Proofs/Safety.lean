/-
The machine on plain arrays never breaches. Each of its operations, started where
a machine was flattened, succeeds and ends where the machine's own operation
ends, flattened (`execute_flatten`, `operate_flatten`), so no check ever fails
along any run (`operateAll_never_breaches`).

Most of what the checks ask for is in the types of a machine. Three facts are not,
and are kept along the way (`Sound`): the screen has a pixel, so that a sprite's
origin is no remainder by zero; its pixels are few enough for one plane, so that
no place of a pixel wraps; and the remembered program fits program memory, so that
a reset puts it back. A screen with more pixels has no plane, or one that is too
short, and then a breach is shown (`flatBoot_of_large`).
-/
import Chip8.Proofs.Flatten

namespace Chip8

/-- What an intact flat machine has: memory of 4096 bytes with the given table of
regions, twelve slots with the cursor among them, sixteen registers, a plane of
pixels that are on or off, and a program that fits. -/
structure Flat.Intact (f : Flat) (regions : Array (Option Span)) (width height : Nat) : Prop where
  memory_size : f.memory.size = 4096
  regions_eq : f.regions = regions
  slots_size : f.slots.size = 12
  top_le : f.top ≤ 12
  v_size : f.v.size = 16
  width_eq : f.width = width
  height_eq : f.height = height
  pixels_size : f.pixels.size = width * height
  pixels_bits : ∀ p ∈ f.pixels, p = 0 ∨ p = 1
  rom_fits : ∃ s, f.region? Flat.programRegion = some s ∧ f.rom.length ≤ s.length

namespace Machine

open Checked (ok_bind read_ok write_ok remainder_ok mapM_ok foldlM_ok foldlM_range_ok)
open Flat (check_ok)

/-! ## Calls and jumps -/

theorem returnToCaller_flatten (m : Machine) : m.flatten.returnToCaller = .ok m.returnToCaller.flatten := by
  have htop : m.flatten.top = m.cpu.stack.top := rfl
  have hle := m.cpu.stack.top_le
  cases h : m.cpu.stack.top with
  | zero =>
    simp only [Flat.returnToCaller, htop, h, returnToCaller, CallStack.pop_of_top_zero h]
    rfl
  | succ n =>
    have hn : n < stackDepth := by omega
    have hslot : n < m.flatten.slots.size := by
      show n < m.cpu.stack.slots.toArray.size
      rw [Vector.size_toArray]
      exact hn
    simp only [Flat.returnToCaller, htop, h, returnToCaller, CallStack.pop_of_top_succ h hn, read_ok hslot,
      check_ok, ok_bind]
    rfl

theorem call_flatten (m : Machine) (target : Address) : m.flatten.call target = .ok (m.call target).flatten := by
  have htop : m.flatten.top = m.cpu.stack.top := rfl
  have hsize : m.flatten.slots.size = stackDepth := m.cpu.stack.slots.size_toArray
  by_cases h : m.cpu.stack.top < stackDepth
  · have hslot : m.flatten.top < m.flatten.slots.size := by rw [htop, hsize]; exact h
    rw [Flat.call, if_pos hslot, write_ok hslot, check_ok, ok_bind]
    simp only [call, CallStack.push_of_room h]
    rfl
  · have hslot : ¬ m.flatten.top < m.flatten.slots.size := by rw [htop, hsize]; exact h
    rw [Flat.call, if_neg hslot]
    simp only [call, CallStack.push_of_full h]
    rfl

theorem calls_flatten (m : Machine) : m.flatten.calls = .ok m.cpu.stack.live := by
  have hle := m.cpu.stack.top_le
  have hread : ∀ i ∈ List.range m.cpu.stack.top,
      Checked.read m.cpu.stack.slots.toArray i = .ok (m.cpu.stack.slots.toList.getD i 0) := by
    intro i hi
    have hi := List.mem_range.mp hi
    have hslot : i < m.cpu.stack.slots.toArray.size := by
      rw [Vector.size_toArray]
      omega
    rw [read_ok hslot]
    simp [show i < stackDepth by omega]
  have hlive : (List.range m.cpu.stack.top).map (fun i => m.cpu.stack.slots.toList.getD i 0) =
      m.cpu.stack.live := by
    refine List.ext_getElem (by simp) fun i hi hi' => ?_
    simp only [List.length_map, List.length_range] at hi
    simp [CallStack.live, show i < stackDepth by omega]
  show (List.range m.cpu.stack.top).mapM (fun i => Checked.read m.cpu.stack.slots.toArray i) = _
  rw [mapM_ok hread, hlive]

theorem restart_flatten {m : Machine} (h : m.RomFits) : m.flatten.restart = .ok m.restart.flatten := by
  have hreset := reset_flatten h
  rw [Flat.restart, hreset, ok_bind]
  generalize hfresh : m.reset = fresh
  let quiet : Machine := (fresh.updateChannel fun c => c.update fun s =>
    (s.setDelay 0).setSoundTimer 0).updateChannel (·.updateSound false)
  have hdark := darken_flatten quiet
  have hshow := showScreen_flatten { quiet with screen := quiet.screen.clear }
  rw [← hdark] at hshow
  rw [restart, hfresh]
  exact hshow

theorem jump_flatten {m : Machine} (h : m.RomFits) (target : Address) :
    m.flatten.jump target = .ok ((m.jump target).1.flatten, (m.jump target).2) := by
  have hpc : m.flatten.pc = m.cpu.pc := rfl
  have hsettings : m.flatten.settings = m.cpu.settings := rfl
  simp only [Flat.jump, jump, hpc, hsettings]
  split
  · rfl
  split
  · rfl
  split
  · have hrestart := fun text => restart_flatten (m := m.note .info .instruction text) h
    have hnote : ∀ text, m.flatten.note .info .instruction text =
        (m.note .info .instruction text).flatten := fun text => rfl
    rw [hnote, hrestart, ok_bind]
  · rfl

/-! ## Computing and drawing -/

theorem setFlag_flatten (m : Machine) (value : UInt8) :
    m.flatten.set 15 value = .ok (m.updateProcessor (·.set Processor.flag value)).flatten :=
  set_flatten m Processor.flag value

theorem skipIf_flatten (m : Machine) (condition : Bool) :
    m.flatten.skipIf condition = (m.updateProcessor (·.skipIf condition)).flatten := by
  cases condition <;> rfl

theorem compute_flatten (m : Machine) (op : AluOp) (x y : Register) :
    m.flatten.compute op x.val y.val = .ok (m.updateProcessor (·.compute op x y)).flatten := by
  have hsettings : m.flatten.settings = m.cpu.settings := rfl
  simp only [Flat.compute, get_flatten, ok_bind, hsettings, updateProcessor, Processor.compute]
  rcases Processor.aluResult m.cpu.settings.dialect op (m.cpu.get x) (m.cpu.get y) with ⟨value, _ | carry⟩
  · exact set_flatten m x value
  · dsimp only
    rw [set_flatten, ok_bind, setFlag_flatten]
    rfl

/-- Drawing on a screen of which some points are flipped already. -/
def drawn (m : Machine) (screen : Screen) (hit : Bool) : Machine := { m with screen, cpu := m.cpu.setFlag hit }

/-- Raising the flag once a lit point was met, or again. -/
theorem drawn_raise (m : Machine) (screen : Screen) (hit : Bool) :
    (m.drawn screen hit).updateProcessor (·.set Processor.flag 1) = m.drawn screen true := by
  simp [drawn, updateProcessor, Processor.setFlag, Processor.set]

theorem drawPoint_flatten {m : Machine} {screen : Screen} (h : screen.width * screen.height < planeLimit)
    (hit : Bool) (x y : Nat) :
    (m.drawn screen hit).flatten.drawPoint (x, y) =
      .ok (match screen.flip? x y with
        | some (screen, was) => (m.drawn screen (hit || was)).flatten
        | none => (m.drawn screen hit).flatten) := by
  have hscreen : (m.drawn screen hit).screen = screen := rfl
  rw [Flat.drawPoint, flip_flatten h, ok_bind, hscreen]
  rcases screen.flip? x y with _ | ⟨flipped, _ | _⟩
  · rfl
  · dsimp only
    rw [Bool.or_false]
    rfl
  · have hraise := setFlag_flatten (m.drawn flipped hit) 1
    rw [drawn_raise] at hraise
    dsimp only
    rw [Bool.or_true]
    exact hraise

theorem drawPoints_flatten {m : Machine} (h : m.screen.width * m.screen.height < planeLimit)
    (points : List (Nat × Nat)) :
    points.foldlM Flat.drawPoint (m.drawn m.screen false).flatten =
      .ok (m.drawn (m.screen.flipAll points).1 (m.screen.flipAll points).2).flatten := by
  refine foldlM_ok (φ := fun s : Screen × Bool => (m.drawn s.1 s.2).flatten) (s := (m.screen, false))
    (P := fun s => s.1.width = m.screen.width ∧ s.1.height = m.screen.height) ?_ ⟨rfl, rfl⟩
  rintro ⟨s, hit⟩ ⟨hw, hh⟩ ⟨x, y⟩ -
  dsimp only at hw hh ⊢
  rw [drawPoint_flatten (by rw [hw, hh]; exact h)]
  cases hflip : s.flip? x y with
  | none => exact ⟨rfl, hw, hh⟩
  | some flipped =>
    obtain ⟨hw', hh'⟩ := Screen.flip?_size hflip
    exact ⟨rfl, hw'.trans hw, hh'.trans hh⟩

theorem draw_flatten {m : Machine} (hw : 1 ≤ m.screen.width) (hh : 1 ≤ m.screen.height)
    (h : m.screen.width * m.screen.height < planeLimit) (x y : Register) (rows : Nibble) :
    m.flatten.draw x.val y.val rows.val = .ok (m.draw x y rows).1.flatten := by
  have hleft : Checked.remainder (m.cpu.get x).toNat m.flatten.width = _ := remainder_ok hw
  have htop : Checked.remainder (m.cpu.get y).toNat m.flatten.height = _ := remainder_ok hh
  have hflag : m.flatten.set 15 0 = .ok (m.drawn m.screen false).flatten := m.setFlag_flatten 0
  have hsprite : (List.range rows.val).mapM (fun r => (m.drawn m.screen false).flatten.readByte
      ((m.drawn m.screen false).flatten.index + UInt16.ofNat r)) = .ok (m.cpu.spriteRows rows.val) :=
    mapM_ok fun r _ => (m.drawn m.screen false).readByte_flatten _
  simp only [Flat.draw, get_flatten, ok_bind, hleft, htop, check_ok, hflag, hsprite, drawPoints_flatten h,
    showScreen_flatten]
  rw [draw_eq (by omega)]
  rfl

/-- The check is not idle: without columns, drawing breaches. -/
theorem draw_flatten_of_no_columns {m : Machine} (h : m.screen.width = 0) (x y : Register) (rows : Nibble) :
    m.flatten.draw x.val y.val rows.val = .error ⟨.remainder, m.flatten⟩ := by
  have hleft : Checked.remainder (m.cpu.get x).toNat m.flatten.width = .error .remainder := if_pos h
  simp only [Flat.draw, get_flatten, ok_bind, hleft]
  rfl

theorem awaitKey_flatten (m : Machine) (x : Register) :
    m.flatten.awaitKey x.val = .ok ((m.awaitKey x).1.flatten, (m.awaitKey x).2) := by
  have hshared : m.flatten.channel.shared = m.channel.shared := rfl
  simp only [Flat.awaitKey, awaitKey, hshared]
  cases m.channel.shared.lowestKey? with
  | none => rfl
  | some key =>
    dsimp only
    rw [set_flatten]
    rfl

theorem addIndex_flatten (m : Machine) (x : Register) :
    m.flatten.addIndex x.val = .ok (m.updateProcessor (·.addIndex x)).flatten := by
  have hsettings : m.flatten.settings = m.cpu.settings := rfl
  have hindex : m.flatten.index = m.cpu.index := rfl
  simp only [Flat.addIndex, get_flatten, ok_bind, hsettings, hindex, updateProcessor, Processor.addIndex]
  split
  · simp only [Processor.setFlag, decide_eq_true_eq]
    exact setFlag_flatten (m.updateProcessor fun c =>
      { c with index := UInt16.ofNat ((m.cpu.index.toNat + (m.cpu.get x).toNat) % memorySize) }) _
  · rfl

/-! ## Transfers -/

theorem passIndex_flatten (m : Machine) (x : Register) :
    m.flatten.passIndex x.val = (m.updateProcessor (·.passIndex x)).flatten := by
  have hsettings : m.flatten.settings = m.cpu.settings := rfl
  simp only [Flat.passIndex, Processor.passIndex, hsettings, updateProcessor]
  split <;> rfl

theorem storeRegisters_flatten (m : Machine) (x : Register) :
    m.flatten.storeRegisters x.val = .ok (m.updateProcessor (·.storeRegisters x)).flatten := by
  have hx := x.isLt
  have hread : ∀ r ∈ List.range (x.val + 1), m.flatten.get r = .ok (m.cpu.v.toList.getD r 0) := by
    intro r hr
    have hr := List.mem_range.mp hr
    have hlt : r < 16 := by omega
    rw [m.get_flatten ⟨r, hlt⟩]
    simp [Processor.get, hlt]
  have hvalues : (List.range (x.val + 1)).map (fun r => m.cpu.v.toList.getD r 0) =
      m.cpu.v.toList.take (x.val + 1) := by
    refine List.ext_getElem ?_ fun r hr hr' => ?_
    · simp only [List.length_map, List.length_range, List.length_take, Vector.length_toList]
      omega
    simp only [List.length_map, List.length_range] at hr
    simp [show r < 16 by omega]
  rw [Flat.storeRegisters, mapM_ok hread, ok_bind, hvalues, writeBytes_flatten, ok_bind, passIndex_flatten]
  rfl

/-- The registers once `k` of them were read from the index on. -/
def loadedUpTo (m : Machine) (k : Nat) : Machine :=
  m.updateProcessor fun c =>
    { c with v := Vector.ofFn fun r : Register =>
        if r.val < k then c.memory.read (c.index + UInt16.ofNat r.val) else c.get r }

theorem loadedUpTo_zero (m : Machine) : m.loadedUpTo 0 = m := by
  have hv : (Vector.ofFn fun r : Register => m.cpu.get r) = m.cpu.v := by
    refine Vector.ext fun r hr => ?_
    simp [Processor.get]
  simp only [loadedUpTo, updateProcessor, Nat.not_lt_zero, if_false, hv]

theorem loadedUpTo_succ (m : Machine) {k : Nat} (hk : k < 16) :
    (m.loadedUpTo k).updateProcessor (·.set ⟨k, hk⟩ (m.cpu.memory.read (m.cpu.index + UInt16.ofNat k))) =
      m.loadedUpTo (k + 1) := by
  have hv : (m.loadedUpTo k).cpu.v.set k (m.cpu.memory.read (m.cpu.index + UInt16.ofNat k)) hk =
      (m.loadedUpTo (k + 1)).cpu.v := by
    refine Vector.ext fun r hr => ?_
    simp only [loadedUpTo, updateProcessor_cpu, Vector.getElem_set, Vector.getElem_ofFn]
    by_cases hrk : k = r
    · subst hrk
      simp
    · have hsame : (r < k + 1) = (r < k) := by
        apply propext
        omega
      simp only [if_neg hrk, hsame]
  simp only [loadedUpTo, updateProcessor, Processor.set] at hv ⊢
  rw [hv]

theorem loadRegisters_flatten (m : Machine) (x : Register) :
    m.flatten.loadRegisters x.val = .ok (m.updateProcessor (·.loadRegisters x)).flatten := by
  have hx := x.isLt
  -- No pass of the loop touches memory or the index, so each reads what the first would.
  have hpass : ∀ k < x.val + 1,
      ((m.loadedUpTo k).flatten.readByte ((m.loadedUpTo k).flatten.index + UInt16.ofNat k) >>=
        fun byte => (m.loadedUpTo k).flatten.set k byte) = .ok (m.loadedUpTo (k + 1)).flatten := by
    intro k hk
    have hk : k < 16 := by omega
    have hmemory : (m.loadedUpTo k).cpu.memory = m.cpu.memory := by simp only [loadedUpTo, updateProcessor_cpu]
    have hindex : (m.loadedUpTo k).flatten.index = m.cpu.index := by
      simp only [flatten, loadedUpTo, updateProcessor_cpu]
    have hset := (m.loadedUpTo k).set_flatten ⟨k, hk⟩ (m.cpu.memory.read (m.cpu.index + UInt16.ofNat k))
    rw [loadedUpTo_succ m hk] at hset
    rw [readByte_flatten, ok_bind, hmemory, hindex]
    exact hset
  have hloop := foldlM_range_ok (φ := fun k => (m.loadedUpTo k).flatten)
    (g := fun f r => f.readByte (f.index + UInt16.ofNat r) >>= fun byte => f.set r byte) hpass
  rw [loadedUpTo_zero] at hloop
  rw [Flat.loadRegisters, hloop, ok_bind, passIndex_flatten]
  simp only [loadedUpTo, updateProcessor, Processor.loadRegisters, Fin.le_def, Nat.lt_succ_iff]

/-! ## Instructions and steps -/

/-- What is no matter of types: the screen has a pixel and not too many of them,
and the remembered program fits. -/
structure Sound (m : Machine) : Prop where
  width_pos : 1 ≤ m.screen.width
  height_pos : 1 ≤ m.screen.height
  plane : m.screen.width * m.screen.height < planeLimit
  romFits : m.RomFits

theorem execute_flatten {m : Machine} (h : m.Sound) (random : UInt8) (i : Instruction) :
    m.flatten.execute random i = .ok ((m.execute random i).1.flatten, (m.execute random i).2) := by
  have hshared : m.flatten.channel.shared = m.channel.shared := rfl
  have hsettings : m.flatten.settings = m.cpu.settings := rfl
  have hindex : m.flatten.index = m.cpu.index := rfl
  cases i with
  | clearScreen =>
    simp only [Flat.execute, darken_flatten, showScreen_flatten, ok_bind]
    rfl
  | ret =>
    simp only [Flat.execute, returnToCaller_flatten, ok_bind]
    rfl
  | jump target =>
    simp only [Flat.execute, jump_flatten h.romFits, ok_bind]
    rfl
  | call target =>
    simp only [Flat.execute, call_flatten, ok_bind]
    rfl
  | draw x y rows =>
    simp only [Flat.execute, draw_flatten h.width_pos h.height_pos h.plane, ok_bind]
    have hsize : ¬ (m.screen.width = 0 ∨ m.screen.height = 0) := by
      have := h.width_pos
      have := h.height_pos
      omega
    simp only [execute, draw_eq hsize]
    rfl
  | awaitKey x =>
    simp only [Flat.execute, awaitKey_flatten, ok_bind]
    rfl
  | compute op x y =>
    simp only [Flat.execute, compute_flatten, ok_bind]
    rfl
  | addIndex x =>
    simp only [Flat.execute, addIndex_flatten, ok_bind]
    rfl
  | store x =>
    simp only [Flat.execute, storeRegisters_flatten, ok_bind]
    rfl
  | load x =>
    simp only [Flat.execute, loadRegisters_flatten, ok_bind]
    rfl
  | decimal x =>
    simp only [Flat.execute, get_flatten, writeBytes_flatten, hindex, ok_bind]
    rfl
  | skipIfByte | skipUnlessByte | skipIfEqual | skipUnlessEqual | skipIfKey | skipUnlessKey =>
    simp only [Flat.execute, get_flatten, skipIf_flatten, hshared, ok_bind]
    rfl
  | setByte | addByte | random | getDelay =>
    simp only [Flat.execute, get_flatten, set_flatten, hshared, ok_bind]
    rfl
  | setIndex | jumpIndexed | setDelay | setSound | glyph =>
    simp only [Flat.execute, get_flatten, hsettings, ok_bind]
    rfl

theorem printTrace_flatten (m : Machine) (address word : UInt16) :
    m.flatten.printTrace address word = (m.printTrace address word).flatten := by
  have hsettings : m.flatten.settings = m.cpu.settings := rfl
  simp only [Flat.printTrace, printTrace, hsettings]
  split
  · rfl
  · rfl

theorem fetched_flatten (m : Machine) (word : UInt16) :
    m.flatten.fetched word = (m.fetched word).flatten := by
  have htrace := printTrace_flatten (m.updateProcessor fun c => { c with cycle := c.cycle + 1 }) m.cpu.pc word
  exact congrArg Flat.advance htrace

/-- What stays sound: a machine with the same setup and a screen of the same size. -/
theorem Sound.of_sameSetup {m n : Machine} (h : m.Sound) (hs : Processor.SameSetup m.cpu n.cpu)
    (hw : n.screen.width = m.screen.width) (hh : n.screen.height = m.screen.height) : n.Sound where
  width_pos := by rw [hw]; exact h.width_pos
  height_pos := by rw [hh]; exact h.height_pos
  plane := by rw [hw, hh]; exact h.plane
  romFits := by
    unfold RomFits
    rw [hs.rom, hs.programBase]
    exact h.romFits

theorem step_flatten {m : Machine} (h : m.Sound) (random : UInt8) :
    m.flatten.step random = .ok ((m.step random).1.flatten, (m.step random).2) := by
  have hpc : m.flatten.pc = m.cpu.pc := rfl
  rw [Flat.step, hpc, fetch_flatten, ok_bind]
  rcases step_cases m random with ⟨hword, hs⟩ | ⟨word, i, hword, hi, hs⟩ | ⟨word, hword, hi, hclass, hs⟩ |
    ⟨word, hword, hi, hclass, hs⟩
  · rw [hword, hs]
  · have hsound : (m.fetched word).Sound :=
      h.of_sameSetup (m.fetched_sameSetup word) (by rw [fetched_screen]) (by rw [fetched_screen])
    rw [hword, hs, ← execute_flatten hsound]
    simp only [hi, fetched_flatten]
  · rw [hword, hs]
    simp only [hi, if_pos hclass, fetched_flatten]
  · rw [hword, hs]
    simp only [hi, if_neg hclass, fetched_flatten]
    rfl

/-! ## What operations keep -/

/-- The second machine has the regions and the size of screen of the first. -/
structure SameShape (m n : Machine) : Prop where
  charsetBase : n.cpu.memory.charsetBase = m.cpu.memory.charsetBase
  programBase : n.cpu.memory.programBase = m.cpu.memory.programBase
  width : n.screen.width = m.screen.width
  height : n.screen.height = m.screen.height

theorem SameShape.trans {m n o : Machine} (h : SameShape m n) (k : SameShape n o) : SameShape m o where
  charsetBase := k.charsetBase.trans h.charsetBase
  programBase := k.programBase.trans h.programBase
  width := k.width.trans h.width
  height := k.height.trans h.height

theorem SameShape.of_sameSetup {m n : Machine} (hs : Processor.SameSetup m.cpu n.cpu)
    (hsize : n.screen.width = m.screen.width ∧ n.screen.height = m.screen.height) : SameShape m n :=
  ⟨hs.charsetBase, hs.programBase, hsize.1, hsize.2⟩

theorem jump_size (m : Machine) (target : Address) :
    (m.jump target).1.screen.width = m.screen.width ∧ (m.jump target).1.screen.height = m.screen.height := by
  have hrestart : ∀ n : Machine, n.restart.screen = n.screen.clear := fun n =>
    congrArg Screen.clear n.reset_screen
  unfold jump
  dsimp only
  split
  · exact ⟨rfl, rfl⟩
  split
  · exact ⟨rfl, rfl⟩
  split
  · rw [hrestart]
    exact ⟨rfl, rfl⟩
  · exact ⟨rfl, rfl⟩

theorem execute_size (m : Machine) (random : UInt8) (i : Instruction) :
    (m.execute random i).1.screen.width = m.screen.width ∧
      (m.execute random i).1.screen.height = m.screen.height := by
  cases i with
  | jump target => exact m.jump_size target
  | draw x y rows =>
    show (m.draw x y rows).1.screen.width = _ ∧ (m.draw x y rows).1.screen.height = _
    by_cases hempty : m.screen.width = 0 ∨ m.screen.height = 0
    · rw [draw, if_pos hempty]
      exact ⟨rfl, rfl⟩
    · rw [draw_eq hempty]
      exact m.screen.flipAll_size _
  | ret =>
    show m.returnToCaller.screen.width = _ ∧ m.returnToCaller.screen.height = _
    unfold returnToCaller
    split <;> exact ⟨rfl, rfl⟩
  | call target =>
    show (m.call target).screen.width = _ ∧ (m.call target).screen.height = _
    unfold call
    split <;> exact ⟨rfl, rfl⟩
  | awaitKey x =>
    show (m.awaitKey x).1.screen.width = _ ∧ (m.awaitKey x).1.screen.height = _
    unfold awaitKey
    split <;> exact ⟨rfl, rfl⟩
  | _ => exact ⟨rfl, rfl⟩

theorem step_size (m : Machine) (random : UInt8) :
    (m.step random).1.screen.width = m.screen.width ∧ (m.step random).1.screen.height = m.screen.height := by
  rcases step_cases m random with ⟨-, hs⟩ | ⟨word, i, -, -, hs⟩ | ⟨word, -, -, -, hs⟩ | ⟨word, -, -, -, hs⟩
  · rw [hs]; exact ⟨rfl, rfl⟩
  · rw [hs]
    have hsize := execute_size (m.fetched word) random i
    rwa [fetched_screen] at hsize
  · rw [hs, fetched_screen]; exact ⟨rfl, rfl⟩
  · rw [hs, note_screen, fetched_screen]; exact ⟨rfl, rfl⟩

theorem perform_sameSetup (m : Machine) (a : Action) : Processor.SameSetup m.cpu (m.perform a).cpu := by
  cases a with
  | step random => exact m.step_sameSetup random
  | _ => exact .refl m.cpu

theorem perform_size (m : Machine) (a : Action) :
    (m.perform a).screen.width = m.screen.width ∧ (m.perform a).screen.height = m.screen.height := by
  cases a with
  | step random => exact m.step_size random
  | _ => exact ⟨rfl, rfl⟩

/-- No operation changes the regions or the size of the screen. -/
theorem operate_shape (m : Machine) (o : Operation) : SameShape m (m.operate o) := by
  cases o with
  | act a => exact .of_sameSetup (m.perform_sameSetup a) (m.perform_size a)
  | load rom =>
    rcases m.cpu.load_cases rom with ⟨memory, hc, hp, -, hload⟩ | ⟨memory, fault, hc, hp, hload⟩
    · simp only [operate, updateProcessor, hload]
      exact ⟨hc, hp, rfl, rfl⟩
    · simp only [operate, updateProcessor, hload]
      exact ⟨hc, hp, rfl, rfl⟩
  | reset =>
    have hsetup : Processor.SameSetup m.cpu m.reset.cpu := by
      rw [reset_cpu]
      exact m.cpu.sameSetup_reset
    refine .of_sameSetup hsetup ?_
    rw [operate, reset_screen]
    exact ⟨rfl, rfl⟩
  | setRegister register value =>
    simp only [operate, updateProcessor, Processor.setRegister]
    split <;> exact ⟨rfl, rfl, rfl, rfl⟩
  | flip x y =>
    simp only [operate]
    split
    · next hflip =>
      obtain ⟨hw, hh⟩ := Screen.flip?_size hflip
      exact ⟨rfl, rfl, hw, hh⟩
    · exact ⟨rfl, rfl, rfl, rfl⟩
  | _ => exact ⟨rfl, rfl, rfl, rfl⟩

theorem operate_romFits {m : Machine} (h : m.RomFits) (o : Operation) : (m.operate o).RomFits := by
  have hshape := (m.operate_shape o).programBase
  have hrom : (m.operate o).cpu.rom = m.cpu.rom → (m.operate o).RomFits := by
    intro hsame
    unfold RomFits
    rw [hsame, hshape]
    exact h
  cases o with
  | act a => exact hrom (m.perform_sameSetup a).rom
  | load rom =>
    unfold RomFits
    rw [hshape]
    rcases m.cpu.load_cases rom with ⟨memory, -, -, hfits, hload⟩ | ⟨memory, fault, -, -, hload⟩
    · simp only [operate, updateProcessor, hload]
      exact hfits
    · simp only [operate, updateProcessor, hload]
      exact h
  | reset =>
    refine hrom ?_
    rw [operate, reset_cpu]
    exact m.cpu.sameSetup_reset.rom
  | setRegister register value =>
    refine hrom ?_
    simp only [operate, updateProcessor, Processor.setRegister]
    split <;> rfl
  | flip x y =>
    refine hrom ?_
    simp only [operate]
    split <;> rfl
  | _ => exact hrom rfl

theorem operate_sound {m : Machine} (h : m.Sound) (o : Operation) : (m.operate o).Sound where
  width_pos := by rw [(m.operate_shape o).width]; exact h.width_pos
  height_pos := by rw [(m.operate_shape o).height]; exact h.height_pos
  plane := by rw [(m.operate_shape o).width, (m.operate_shape o).height]; exact h.plane
  romFits := operate_romFits h.romFits o

/-! ## Runs -/

theorem perform_flatten {m : Machine} (h : m.Sound) (a : Action) :
    m.flatten.perform a = .ok (m.perform a).flatten := by
  cases a with
  | step random =>
    rw [Flat.perform, step_flatten h, ok_bind]
    rfl
  | showScreen => exact m.showScreen_flatten
  | _ => rfl

theorem operate_flatten {m : Machine} (h : m.Sound) (o : Operation) :
    m.flatten.operate o = .ok (m.operate o).flatten := by
  cases o with
  | act a => exact perform_flatten h a
  | load rom => exact m.load_flatten rom
  | reset => exact reset_flatten h.romFits
  | setRegister register value =>
    have hsize : m.flatten.v.size = 16 := m.cpu.v.size_toArray
    rw [Flat.operate, hsize]
    simp only [operate, updateProcessor, Processor.setRegister]
    by_cases hr : register < 16
    · rw [if_pos hr, dif_pos hr]
      exact m.set_flatten ⟨register, hr⟩ value
    · rw [if_neg hr, dif_neg hr]
      rfl
  | flip x y =>
    rw [Flat.operate, flip_flatten h.plane, ok_bind, operate]
    cases m.screen.flip? x y with
    | none => rfl
    | some flipped => rfl
  | darken => exact congrArg Except.ok m.darken_flatten
  | _ => rfl

theorem operateAll_flatten {m : Machine} (h : m.Sound) (operations : List Operation) :
    m.flatten.operateAll operations = .ok (m.operateAll operations).flatten := by
  induction operations generalizing m with
  | nil => rfl
  | cons o rest ih =>
    rw [Flat.operateAll, List.foldlM_cons, operate_flatten h, ok_bind]
    exact ih (operate_sound h o)

/-- A machine without a program. -/
def boot (font start : UInt16) (settings : Settings) (width height : Nat)
    (fits : width * height < planeLimit) (channel : Channel) : Machine :=
  { cpu := Processor.new font start settings, screen := Screen.new width height fits, channel }

/-- Glyphs past the end of memory are not there to be copied. -/
theorem blit_take (cells : Vector UInt8 memorySize) (start : Nat) (data : List UInt8) :
    Memory.blit cells start (data.take (min (start + data.length) memorySize - start)) =
      Memory.blit cells start data := by
  refine Vector.ext fun i hi => ?_
  rw [Memory.getElem_blit _ _ _ hi, Memory.getElem_blit _ _ _ hi, List.length_take]
  by_cases h : start ≤ i ∧ i < start + data.length
  · have hkept : i - start < min (start + data.length) memorySize - start := by omega
    rw [if_pos h, if_pos (by omega)]
    simp [hkept]
  · rw [if_neg h, if_neg (by omega)]

/-- Only the plane may be missing, or too short, when a flat machine is booted. -/
theorem flatBoot_eq (font start : UInt16) (settings : Settings) (width height : Nat) (channel : Channel) :
    Flat.boot font start settings width height channel =
      (Checked.plane width height).map fun pixels =>
        { ({ cpu := Processor.new font start settings, channel } : Machine).flatten with width, height, pixels } := by
  have hfont : font.toNat % memorySize < memorySize := (Memory.cell font).isLt
  have hcopy := Checked.copy_toArray (Vector.replicate memorySize 0) (font.toNat % memorySize)
    (glyphs.take (min (font.toNat % memorySize + glyphs.length) memorySize - font.toNat % memorySize))
    (by rw [List.length_take]; omega)
  rw [blit_take] at hcopy
  rw [Flat.boot]
  show (Checked.copy (Vector.replicate memorySize 0).toArray (font.toNat % memorySize) (glyphs.take
    (min (font.toNat % memorySize + glyphs.length) memorySize - font.toNat % memorySize)) >>= _) = _
  rw [hcopy, ok_bind]
  cases Checked.plane width height with
  | error breach => rfl
  | ok pixels =>
    simp only [ok_bind, Except.map, flatten]
    rfl

theorem boot_flatten (font start : UInt16) (settings : Settings) {width height : Nat}
    (fits : width * height < planeLimit) (channel : Channel) :
    Flat.boot font start settings width height channel =
      .ok (boot font start settings width height fits channel).flatten := by
  have hpixels : Array.replicate (width * height) (0 : UInt8) =
      (Array.replicate (width * height) false).map pixelByte := by
    simp [pixelByte]
  rw [flatBoot_eq, Checked.plane_ok fits, hpixels]
  simp only [Except.map, flatten]
  rfl

theorem operateAll_kept {m : Machine} (h : m.Sound) (operations : List Operation) :
    (m.operateAll operations).Sound ∧ SameShape m (m.operateAll operations) := by
  have hstart : m.Sound ∧ SameShape m m := ⟨h, rfl, rfl, rfl, rfl⟩
  refine operateAll_keeps (P := fun n => n.Sound ∧ SameShape m n) (fun n o hn => ?_) hstart operations
  exact ⟨operate_sound hn.1 o, hn.2.trans (n.operate_shape o)⟩

theorem flatten_intact {m : Machine} (h : m.Sound) :
    m.flatten.Intact m.cpu.memory.regions m.screen.width m.screen.height where
  memory_size := m.cpu.memory.cells.size_toArray
  regions_eq := rfl
  slots_size := m.cpu.stack.slots.size_toArray
  top_le := m.cpu.stack.top_le
  v_size := m.cpu.v.size_toArray
  width_eq := rfl
  height_eq := rfl
  pixels_size := by simp [flatten, m.screen.size_eq]
  pixels_bits := by
    intro p hp
    obtain ⟨lit, -, rfl⟩ := Array.mem_map.mp hp
    cases lit
    · exact .inl rfl
    · exact .inr rfl
  rom_fits := ⟨_, m.region?_flatten, h.romFits⟩

/-! ## Screens without a plane -/

/-- A point on the screen whose pixel is past the end of the plane cannot be flipped. -/
theorem operateAll_flip_past {f : Flat} {x y place : Nat} (hx : x < f.width) (hy : y < f.height)
    (hplace : (y * f.width + x) % wordLimit = place) (hpast : f.pixels.size ≤ place) :
    f.operateAll [.flip x y] = .error ⟨.index place f.pixels.size, f⟩ := by
  have hread : Checked.read f.pixels place = .error (.index place f.pixels.size) := by
    rw [Checked.read, dif_neg (by omega)]
  have hindex : f.pixelIndex? x y = some place := by rw [Flat.pixelIndex?, if_pos ⟨hx, hy⟩, hplace]
  have hflip : f.flip x y = .error ⟨.index place f.pixels.size, f⟩ := by
    rw [Flat.flip, hindex]
    dsimp only
    rw [hread]
    rfl
  rw [Flat.operateAll, List.foldlM_cons, Flat.operate, hflip]
  rfl

/-- Where there are too many pixels, none are allocated, or too few: there is a point
whose pixel is past the end of the plane. -/
theorem flatBoot_of_large (font start : UInt16) (settings : Settings) {width height : Nat}
    (hlarge : planeLimit ≤ width * height) (channel : Channel) :
    let size := width * height % wordLimit
    Flat.boot font start settings width height channel = .error (.allocation size) ∨
      ∃ f, Flat.boot font start settings width height channel = .ok f ∧ f.pixels.size = size ∧
        ∃ x < width, ∃ y < height, f.operateAll [.flip x y] = .error ⟨.index size size, f⟩ := by
  intro size
  by_cases hsize : size < planeLimit
  · have hplane : Checked.plane width height = .ok (Array.replicate size 0) := if_pos hsize
    have hlength : (Array.replicate size (0 : UInt8)).size = size := Array.size_replicate
    have hwidth : 0 < width := Nat.pos_of_mul_pos_right (Nat.lt_of_lt_of_le (by decide) hlarge)
    have hx : size % width < width := Nat.mod_lt _ hwidth
    have hy : size / width < height := Nat.div_lt_of_lt_mul (Nat.lt_of_lt_of_le hsize hlarge)
    -- The pixel of this point would be stored just behind the last one.
    have hplace : (size / width * width + size % width) % wordLimit = size := by
      rw [Nat.mul_comm, Nat.div_add_mod]
      exact Nat.mod_mod _ _
    rw [flatBoot_eq, hplane]
    refine .inr ⟨_, rfl, hlength, size % width, hx, size / width, hy, ?_⟩
    rw [operateAll_flip_past hx hy hplace (Nat.le_of_eq hlength)]
    simp only [hlength]
  · refine .inl ?_
    rw [flatBoot_eq, Checked.plane, if_neg hsize]
    rfl

end Machine

end Chip8

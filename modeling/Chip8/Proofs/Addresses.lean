/-
Where a program can get to. A program counter is where the program starts, or at
most `10FE`; return addresses are between `2` and `1000`; and if the glyphs are low
enough and transfers leave the index alone, the index is at most `FFF`
(`addresses_bounded`).

Nothing here checks an address but the fetch. It finds a word up to `FFE` only, so
an instruction is executed with the program counter at most at `1000`, and each
instruction moves it by so little, or sets it to an address of twelve bits, that
sums and differences are never out of range. To say so, `step?` takes a step with
integers, and fails where one is no word.
-/
import Chip8.Proofs.Calls
import Chip8.Proofs.Footprint

namespace Chip8

/-! ## Steps in exact arithmetic -/

/-- The word that a number is, if it is one. -/
def word? (n : Int) : Option UInt16 :=
  if 0 ≤ n ∧ n < 0x10000 then some (UInt16.ofNat n.toNat) else none

theorem word?_toNat (w : UInt16) : word? w.toNat = some w := by
  have hw : w.toNat < 65536 := w.toNat_lt
  rw [word?, if_pos (by omega), Int.toNat_natCast, UInt16.ofNat_toNat]

namespace Processor

def advance? (c : Processor) : Option Processor := (word? (c.pc.toNat + 2)).map fun pc => { c with pc }

def rewind? (c : Processor) : Option Processor := (word? (c.pc.toNat - 2)).map fun pc => { c with pc }

def skipIf? (c : Processor) (condition : Bool) : Option Processor := if condition then c.advance? else some c

def jumpIndexed? (c : Processor) (target : Address) : Option Processor :=
  (word? (target.val + (c.get (jumpRegister c.settings.dialect target)).toNat)).map fun pc => { c with pc }

theorem toNat_pc_sub_two {c : Processor} (h : 2 ≤ c.pc.toNat) : (c.pc - 2).toNat = c.pc.toNat - 2 :=
  UInt16.toNat_sub_of_le _ _ (UInt16.le_iff_toNat_le.mpr h)

theorem word?_pc_sub_two {c : Processor} (h : 2 ≤ c.pc.toNat) : word? (c.pc.toNat - 2) = some (c.pc - 2) := by
  rw [← word?_toNat, toNat_pc_sub_two h]
  congr 1
  omega

theorem advance?_eq {c : Processor} (h : c.pc.toNat ≤ 0x1000) : c.advance? = some c.advance := by
  have hsum : word? (c.pc.toNat + 2) = some (c.pc + 2) := by
    rw [← word?_toNat, toNat_pc_add_two h]
    rfl
  rw [advance?, hsum]
  rfl

theorem rewind?_eq {c : Processor} (h : 2 ≤ c.pc.toNat) : c.rewind? = some c.rewind := by
  rw [rewind?, word?_pc_sub_two h]
  rfl

theorem skipIf?_eq {c : Processor} (h : c.pc.toNat ≤ 0x1000) (condition : Bool) :
    c.skipIf? condition = some (c.skipIf condition) := by
  cases condition with
  | false => rfl
  | true => simp only [skipIf?, skipIf, if_true, advance?_eq h]

theorem toNat_jumpIndexed_pc (c : Processor) (target : Address) :
    (c.jumpIndexed target).pc.toNat = target.val + (c.get (jumpRegister c.settings.dialect target)).toNat := by
  have htarget := target.isLt
  have hoffset := (c.get (jumpRegister c.settings.dialect target)).toNat_lt
  simp only [jumpIndexed, UInt16.toNat_add, UInt16.toNat_ofNat']
  omega

theorem jumpIndexed?_eq (c : Processor) (target : Address) :
    c.jumpIndexed? target = some (c.jumpIndexed target) := by
  have hsum : word? (target.val + (c.get (jumpRegister c.settings.dialect target)).toNat) =
      some (c.jumpIndexed target).pc := by
    rw [← word?_toNat, toNat_jumpIndexed_pc]
    rfl
  rw [jumpIndexed?, hsum]
  rfl

end Processor

namespace Machine

open Processor Text

def returnToCaller? (m : Machine) : Option Machine :=
  match m.cpu.stack.pop with
  | (stack, .ok address) => some (m.updateProcessor fun c => { c with stack, pc := address })
  | (stack, .error fault) => (word? (m.cpu.pc.toNat - 2)).map fun address =>
    (m.updateProcessor fun c => { c with stack }).note .warn .instruction
      (fault.message ++ " at " ++ hex 3 address.toNat)

/-- A jump adds to its target to find out whether that is its own address. -/
def jump? (m : Machine) (target : Address) : Option (Machine × Outcome) :=
  (word? (target.val + 2)).map fun next =>
    if next ≠ m.cpu.pc then (m.updateProcessor (·.jump target), .continued) else m.jump target

def awaitKey? (m : Machine) (x : Register) : Option (Machine × Outcome) :=
  match m.channel.shared.lowestKey? with
  | some key => some (m.updateProcessor (·.set x key), .continued)
  | none => m.cpu.rewind?.map fun cpu => ({ m with cpu }, .waiting)

/-- Runs an instruction, unless it computes an address of the program that is none. -/
def execute? (m : Machine) (random : UInt8) (i : Instruction) : Option (Machine × Except Fault Outcome) :=
  let onProcessor (f : Processor → Option Processor) : Option (Machine × Except Fault Outcome) :=
    (f m.cpu).map fun cpu => ({ m with cpu }, .ok .continued)
  match i with
  | .ret => m.returnToCaller?.map fun m => (m, .ok .continued)
  | .jump target => (m.jump? target).map fun (m, outcome) => (m, .ok outcome)
  | .skipIfByte x b => onProcessor fun c => c.skipIf? (c.get x == b)
  | .skipUnlessByte x b => onProcessor fun c => c.skipIf? (c.get x != b)
  | .skipIfEqual x y => onProcessor fun c => c.skipIf? (c.get x == c.get y)
  | .skipUnlessEqual x y => onProcessor fun c => c.skipIf? (c.get x != c.get y)
  | .jumpIndexed target => onProcessor (·.jumpIndexed? target)
  | .skipIfKey x => onProcessor fun c => c.skipIf? (m.channel.shared.isHeld (c.get x))
  | .skipUnlessKey x => onProcessor fun c => c.skipIf? (!m.channel.shared.isHeld (c.get x))
  | .awaitKey x => (m.awaitKey? x).map fun (m, outcome) => (m, .ok outcome)
  -- No other instruction computes with the program counter.
  | i => some (m.execute random i)

def fetched? (m : Machine) (word : UInt16) : Option Machine :=
  let m := (m.updateProcessor fun c => { c with cycle := c.cycle + 1 }).printTrace m.cpu.pc word
  m.cpu.advance?.map fun cpu => { m with cpu }

/-- Runs one instruction, unless it computes an address of the program that is none
or none is behind it. -/
def step? (m : Machine) (random : UInt8) : Option (Machine × Except Fault Outcome) :=
  match m.cpu.memory.readWord m.cpu.pc with
  | none => some (m, .error (.fetchOutOfBounds m.cpu.pc))
  | some word => (m.fetched? word).bind fun after =>
    match Instruction.ofWord? word with
    | some i => after.execute? random i
    | none =>
      if word.toNat < 0x1000 then some (after, .error (.machineCode word m.cpu.pc))
      else some (after.note .trace .processor (ignoredText word m.cpu.pc), .ok .continued)

theorem returnToCaller?_eq {m : Machine} (h : 2 ≤ m.cpu.pc.toNat) :
    m.returnToCaller? = some m.returnToCaller := by
  rcases hpop : m.cpu.stack.pop with ⟨stack, fault | address⟩
  · simp only [returnToCaller?, returnToCaller, hpop, word?_pc_sub_two h, Option.map_some]
  · simp only [returnToCaller?, returnToCaller, hpop]

theorem jump?_eq (m : Machine) (target : Address) : m.jump? target = some (m.jump target) := by
  have htarget := target.isLt
  have hnext : (UInt16.ofNat target.val + 2).toNat = target.val + 2 := by
    rw [UInt16.toNat_add, UInt16.toNat_ofNat']
    show (target.val % 65536 + 2) % 65536 = target.val + 2
    omega
  have hsum : word? (target.val + 2) = some (UInt16.ofNat target.val + 2) := by
    rw [← word?_toNat, hnext]
    rfl
  rw [jump?, hsum, Option.map_some]
  by_cases hself : UInt16.ofNat target.val + 2 = m.cpu.pc
  · rw [if_neg (not_not_intro hself)]
  · rw [if_pos hself, jump, if_pos hself]

theorem awaitKey?_eq {m : Machine} (h : 2 ≤ m.cpu.pc.toNat) (x : Register) :
    m.awaitKey? x = some (m.awaitKey x) := by
  cases hkey : m.channel.shared.lowestKey? with
  | some key => simp only [awaitKey?, awaitKey, hkey]
  | none =>
    simp only [awaitKey?, awaitKey, hkey, rewind?_eq h]
    rfl

theorem execute?_eq {m : Machine} (hlow : 2 ≤ m.cpu.pc.toNat) (hhigh : m.cpu.pc.toNat ≤ 0x1000) (random : UInt8)
    (i : Instruction) : m.execute? random i = some (m.execute random i) := by
  cases i with
  | ret => simp only [execute?, returnToCaller?_eq hlow]; rfl
  | jump target => simp only [execute?, jump?_eq]; rfl
  | skipIfByte | skipUnlessByte | skipIfEqual | skipUnlessEqual | skipIfKey | skipUnlessKey =>
    simp only [execute?, skipIf?_eq hhigh]
    rfl
  | jumpIndexed target => simp only [execute?, jumpIndexed?_eq]; rfl
  | awaitKey x => simp only [execute?, awaitKey?_eq hlow]; rfl
  | _ => rfl

theorem fetched?_eq {m : Machine} (h : m.cpu.pc.toNat ≤ 0xFFE) (word : UInt16) :
    m.fetched? word = some (m.fetched word) := by
  have hpc : ((m.updateProcessor fun c => { c with cycle := c.cycle + 1 }).printTrace m.cpu.pc word).cpu.pc =
      m.cpu.pc := by
    unfold printTrace
    split <;> rfl
  have hadvance := advance?_eq (hpc ▸ Nat.le_trans h (by decide))
  simp only [fetched?, hadvance]
  rfl

theorem fetched_pc {m : Machine} (h : m.cpu.pc.toNat ≤ 0xFFE) (word : UInt16) :
    (m.fetched word).cpu.pc.toNat = m.cpu.pc.toNat + 2 := by
  rw [fetched_cpu]
  exact toNat_pc_add_two (by omega)

/-- **No sum or difference is ever out of range**, whatever the machine is like. -/
theorem step?_eq (m : Machine) (random : UInt8) : m.step? random = some (m.step random) := by
  rcases step_cases m random with ⟨hword, hs⟩ | ⟨word, i, hword, hi, hs⟩ | ⟨word, hword, hi, hclass, hs⟩ |
    ⟨word, hword, hi, hclass, hs⟩
  · simp only [step?, hword, hs]
  all_goals
    have hle := Memory.le_of_readWord hword
    have hpc := fetched_pc hle word
    simp only [step?, hword, fetched?_eq hle, Option.bind_some, hi, hs]
  · exact execute?_eq (by omega) (by omega) random i
  · rw [if_pos hclass]
  · rw [if_neg hclass]

end Machine

/-! ## What instructions make of the program counter and of the index -/

/-- The instruction may go on elsewhere than behind it. -/
def Instruction.moves : Instruction → Bool
  | .ret | .jump _ | .call _ | .jumpIndexed _ | .awaitKey _ | .skipIfByte _ _ | .skipUnlessByte _ _
  | .skipIfEqual _ _ | .skipUnlessEqual _ _ | .skipIfKey _ | .skipUnlessKey _ => true
  | _ => false

namespace Processor

theorem reset_pc (c : Processor) : c.reset.1.pc = c.start := by
  rw [reset_eq]
  split <;> rfl

theorem reset_index (c : Processor) : c.reset.1.index = 0 := by
  rw [reset_eq]
  split <;> rfl

theorem compute_pc (c : Processor) (op : AluOp) (x y : Register) : (c.compute op x y).pc = c.pc := by
  unfold compute
  split <;> rfl

theorem addIndex_pc (c : Processor) (x : Register) : (c.addIndex x).pc = c.pc := by
  unfold addIndex
  dsimp only
  split <;> rfl

theorem passIndex_pc (c : Processor) (x : Register) : (c.passIndex x).pc = c.pc := by
  unfold passIndex
  split <;> rfl

theorem toNat_address (target : Address) : (UInt16.ofNat target.val).toNat ≤ 0xFFF := by
  have htarget := target.isLt
  rw [UInt16.toNat_ofNat']
  omega

theorem addIndex_index (c : Processor) (x : Register) : (c.addIndex x).index.toNat ≤ 0xFFF := by
  have hsum : (c.addIndex x).index = UInt16.ofNat ((c.index.toNat + (c.get x).toNat) % memorySize) := by
    unfold addIndex
    dsimp only
    split <;> rfl
  rw [hsum, UInt16.toNat_ofNat']
  show (c.index.toNat + (c.get x).toNat) % 4096 % 65536 ≤ 0xFFF
  omega

theorem pointAtGlyph_index (c : Processor) (x : Register) (hfont : c.font.toNat ≤ 0xB04) :
    (c.pointAtGlyph x).index.toNat ≤ 0xFFF := by
  have hdigit := (c.get x).toNat_lt
  have hoffset : (UInt16.ofNat (5 * (c.get x).toNat)).toNat = 5 * (c.get x).toNat := by
    rw [UInt16.toNat_ofNat']
    omega
  have hsum : c.font.toNat + 5 * (c.get x).toNat ≤ 0xFFF := by omega
  rw [pointAtGlyph, UInt16.toNat_add, hoffset, Nat.mod_eq_of_lt (by omega)]
  exact hsum

end Processor

namespace Machine

open Processor

theorem draw_pc (m : Machine) (x y : Register) (rows : Nibble) : (m.draw x y rows).1.cpu.pc = m.cpu.pc := by
  unfold draw
  split <;> rfl

theorem execute_pc_of_not_moves (m : Machine) (random : UInt8) {i : Instruction} (h : i.moves = false) :
    (m.execute random i).1.cpu.pc = m.cpu.pc := by
  cases i with
  | ret | jump | call | jumpIndexed | awaitKey | skipIfByte | skipUnlessByte | skipIfEqual | skipUnlessEqual
  | skipIfKey | skipUnlessKey => cases h
  | compute op x y => exact m.cpu.compute_pc op x y
  | draw x y rows => exact m.draw_pc x y rows
  | addIndex x => exact m.cpu.addIndex_pc x
  | store x => exact passIndex_pc _ x
  | load x => exact passIndex_pc _ x
  | _ => rfl

theorem awaitKey_pc (m : Machine) (x : Register) :
    (m.awaitKey x).1.cpu.pc = m.cpu.pc ∨ (m.awaitKey x).1.cpu.pc = m.cpu.pc - 2 := by
  unfold awaitKey
  split
  · exact .inl rfl
  · exact .inr rfl

theorem call_pc (m : Machine) (target : Address) : (m.call target).cpu.pc = UInt16.ofNat target.val := by
  unfold call
  split <;> rfl

/-- Where an instruction goes on, the program counter being past it. -/
theorem execute_pc {m : Machine} (hlow : 2 ≤ m.cpu.pc.toNat) (hhigh : m.cpu.pc.toNat ≤ 0x1000) (random : UInt8)
    (i : Instruction) :
    let after := (m.execute random i).1.cpu
    after.pc = m.cpu.start ∨ after.pc ∈ m.cpu.stack.live ∨ after.pc.toNat ≤ 0x10FE := by
  intro after
  have near : ∀ pc : UInt16, pc.toNat ≤ 0x10FE → after.pc = pc →
      after.pc = m.cpu.start ∨ after.pc ∈ m.cpu.stack.live ∨ after.pc.toNat ≤ 0x10FE := by
    intro pc hle hpc
    exact .inr (.inr (hpc ▸ hle))
  by_cases hmoves : i.moves = false
  · exact near m.cpu.pc (by omega) (m.execute_pc_of_not_moves random hmoves)
  have hskip : ∀ condition, after = m.cpu.skipIf condition →
      after.pc = m.cpu.start ∨ after.pc ∈ m.cpu.stack.live ∨ after.pc.toNat ≤ 0x10FE := by
    intro condition hafter
    have hnext := toNat_pc_add_two hhigh
    cases condition with
    | true => exact near (m.cpu.pc + 2) (by omega) (congrArg Processor.pc hafter)
    | false => exact near m.cpu.pc (by omega) (congrArg Processor.pc hafter)
  cases i with
  | ret =>
    rcases m.returnToCaller_calls with ⟨-, hkept⟩ | ⟨a, hlive, hpc⟩
    · exact near m.cpu.pc (by omega) (congrArg Processor.pc hkept)
    · have hlast : a ∈ m.cpu.stack.live := by rw [hlive]; exact List.mem_concat_self
      exact .inr (.inl (hpc ▸ hlast))
  | jump target =>
    have htarget := toNat_address target
    rcases m.jump_cpu target with hgoes | hstays | ⟨-, -, -, hreset⟩
    · exact near (UInt16.ofNat target.val) (by omega) (congrArg Processor.pc hgoes)
    · exact near m.cpu.pc (by omega) (congrArg Processor.pc hstays)
    · exact .inl ((congrArg Processor.pc hreset).trans m.cpu.reset_pc)
  | call target =>
    have htarget := toNat_address target
    exact near _ (by omega) (m.call_pc target)
  | skipIfByte | skipUnlessByte | skipIfEqual | skipUnlessEqual | skipIfKey | skipUnlessKey => exact hskip _ rfl
  | jumpIndexed target =>
    have htarget := target.isLt
    have hoffset := (m.cpu.get (jumpRegister m.cpu.settings.dialect target)).toNat_lt
    have hpc := m.cpu.toNat_jumpIndexed_pc target
    exact near (m.cpu.jumpIndexed target).pc (by omega) rfl
  | awaitKey x =>
    have hback := toNat_pc_sub_two hlow
    rcases m.awaitKey_pc x with hpc | hpc
    · exact near m.cpu.pc (by omega) hpc
    · exact near (m.cpu.pc - 2) (by omega) hpc
  | _ => exact absurd rfl hmoves

/-- The index stays in memory, if the glyphs are low enough and transfers leave it alone. -/
theorem execute_index {m : Machine} (random : UInt8) {address : UInt16} (ha : address.toNat ≤ 0xFFE)
    (hpc : m.cpu.pc = address + 2) (hfont : m.cpu.font.toNat ≤ 0xB04)
    (hstays : m.cpu.settings.dialect.advancesIndex = false) (hindex : m.cpu.index.toNat ≤ 0xFFF) (i : Instruction) :
    (m.execute random i).1.cpu.index.toNat ≤ 0xFFF := by
  have hkept : ¬ (m.footprint address i).index → (m.execute random i).1.cpu.index.toNat ≤ 0xFFF := by
    intro hnot
    rw [(m.execute_within random ha hpc i).cpu.index hnot]
    exact hindex
  cases i with
  | setIndex target => exact toNat_address target
  | glyph x => exact pointAtGlyph_index m.cpu x hfont
  | addIndex x => exact addIndex_index m.cpu x
  | jump target =>
    show (m.jump target).1.cpu.index.toNat ≤ 0xFFF
    rcases m.jump_cpu target with hgoes | hstays | ⟨-, -, -, hreset⟩
    · rw [hgoes]
      exact hindex
    · rw [hstays]
      exact hindex
    · rw [hreset, reset_index]
      decide
  | store | load =>
    refine hkept fun hadvances => ?_
    have hadvances : m.cpu.settings.dialect.advancesIndex = true := hadvances
    rw [hstays] at hadvances
    cases hadvances
  | _ => exact hkept id

/-! ## Steps -/

theorem step_index {m : Machine} (random : UInt8) (hfont : m.cpu.font.toNat ≤ 0xB04)
    (hstays : m.cpu.settings.dialect.advancesIndex = false) (hindex : m.cpu.index.toNat ≤ 0xFFF) :
    (m.step random).1.cpu.index.toNat ≤ 0xFFF := by
  rcases step_cases m random with ⟨-, hs⟩ | ⟨word, i, hword, -, hs⟩ | ⟨word, -, -, -, hs⟩ | ⟨word, -, -, -, hs⟩
  · rw [hs]
    exact hindex
  · rw [hs]
    refine execute_index random (Memory.le_of_readWord hword) ?_ ?_ ?_ ?_ i
    all_goals rw [fetched_cpu]
    · exact hfont
    · exact hstays
    · exact hindex
  · rw [hs, fetched_cpu]
    exact hindex
  · rw [hs, note_cpu, fetched_cpu]
    exact hindex

/-- A step that finds no word leaves the program counter where it is. -/
theorem step_pc (m : Machine) (random : UInt8) :
    let after := (m.step random).1.cpu
    after.pc = m.cpu.pc ∨ after.pc = m.cpu.start ∨ after.pc ∈ m.cpu.stack.live ∨ after.pc.toNat ≤ 0x10FE := by
  intro after
  rcases step_cases m random with ⟨-, hs⟩ | ⟨word, i, hword, -, hs⟩ | ⟨word, hword, -, -, hs⟩ |
    ⟨word, hword, -, -, hs⟩
  · exact .inl (by simp only [after, hs])
  all_goals
    have hle := Memory.le_of_readWord hword
    have hpc := fetched_pc hle word
  · have hexecuted := execute_pc (by omega) (by omega) random i (m := m.fetched word)
    simp only [after, hs]
    simp only [fetched_cpu] at hexecuted
    exact .inr hexecuted
  · refine .inr (.inr (.inr ?_))
    simp only [after, hs]
    omega
  · refine .inr (.inr (.inr ?_))
    simp only [after, hs, note_cpu]
    omega

end Machine

/-! ## Runs -/

namespace Processor

/-- A processor with its glyphs and its program at the given addresses, and all that
can become of it: programs are loaded, instructions run, each on any screen, over any
channel and with any random byte, and it is reset, set up anew and given registers
from outside. Its settings are always of the allowed ones. -/
inductive Arises (font start : UInt16) (allowed : Settings → Prop) : Processor → Prop
  | new {settings : Settings} : allowed settings → Arises font start allowed (new font start settings)
  | load {c : Processor} (rom : List UInt8) :
    Arises font start allowed c → Arises font start allowed (c.load rom).1
  | step {c : Processor} (screen : Screen) (channel : Channel) (random : UInt8) :
    Arises font start allowed c → Arises font start allowed (Machine.step ⟨c, screen, channel⟩ random).1.cpu
  | reset {c : Processor} : Arises font start allowed c → Arises font start allowed c.reset.1
  | configure {c : Processor} {settings : Settings} :
    allowed settings → Arises font start allowed c → Arises font start allowed { c with settings }
  | set {c : Processor} (x : Register) (value : UInt8) :
    Arises font start allowed c → Arises font start allowed (c.set x value)

/-- The addresses of the program are in bounds: where it is, and where it returns to. -/
structure InBounds (c : Processor) : Prop where
  pc : c.pc = c.start ∨ c.pc.toNat ≤ 0x10FE
  calls : ∀ a ∈ c.stack.live, 2 ≤ a.toNat ∧ a.toNat ≤ 0x1000

theorem InBounds.reset (c : Processor) : c.reset.1.InBounds where
  pc := .inl (c.reset_pc.trans c.sameSetup_reset.start.symm)
  calls := by
    have hempty := (Machine.mk c Screen.standard {}).live_reset
    rw [Machine.reset_cpu] at hempty
    rw [hempty]
    nofun

theorem InBounds.step {m : Machine} (h : m.cpu.InBounds) (random : UInt8) : (m.step random).1.cpu.InBounds where
  pc := by
    rw [(m.step_sameSetup random).start]
    rcases m.step_pc random with hkept | hstart | hlive | hle
    · rw [hkept]
      exact h.pc
    · exact .inl hstart
    · have hcaller := h.calls _ hlive
      exact .inr (by omega)
    · exact .inr hle
  calls := by
    -- What is pushed is the address behind an instruction that was fetched.
    rcases m.step_calls random with ⟨target, hword, -, hpushed⟩ | ⟨-, a, hpopped, -⟩ | ⟨-, hempty⟩ | hkept
    · rw [hpushed]
      have hle := Memory.le_of_readWord hword
      have hback := toNat_pc_add_two (c := m.cpu) (by omega)
      intro a ha
      rcases List.mem_append.mp ha with ha | ha
      · exact h.calls a ha
      · rw [List.mem_singleton.mp ha]
        omega
    · intro b hb
      refine h.calls b ?_
      rw [hpopped]
      exact List.mem_append_left _ hb
    · rw [hempty]
      nofun
    · rw [hkept]
      exact h.calls

/-- Loading changes memory and the remembered program at most. -/
theorem load_changes (c : Processor) (rom : List UInt8) :
    ∃ memory kept, (c.load rom).1 = { c with memory, rom := kept } := by
  rcases c.load_cases rom with ⟨memory, -, -, -, hload⟩ | ⟨memory, fault, -, -, hload⟩
  · exact ⟨memory, rom, by rw [hload]⟩
  · exact ⟨memory, c.rom, by rw [hload]⟩

section

variable {font start : UInt16} {allowed : Settings → Prop} {c : Processor}

theorem Arises.inBounds (h : Arises font start allowed c) : c.InBounds := by
  induction h with
  | new => exact ⟨.inl rfl, nofun⟩
  | @load c rom _ ih =>
    obtain ⟨memory, kept, hload⟩ := c.load_changes rom
    rw [hload]
    exact ⟨ih.pc, ih.calls⟩
  | step screen channel random _ ih => exact InBounds.step (m := ⟨_, screen, channel⟩) ih random
  | reset => exact .reset _
  | configure _ _ ih => exact ⟨ih.pc, ih.calls⟩
  | set x value _ ih => exact ⟨ih.pc, ih.calls⟩

theorem Arises.setup (h : Arises font start allowed c) : c.font = font ∧ c.start = start ∧ allowed c.settings := by
  induction h with
  | new hallowed => exact ⟨rfl, rfl, hallowed⟩
  | @load c rom _ ih =>
    obtain ⟨memory, kept, hload⟩ := c.load_changes rom
    rw [hload]
    exact ih
  | @step c screen channel random _ ih =>
    have hsame := Machine.step_sameSetup ⟨c, screen, channel⟩ random
    rw [hsame.font, hsame.start, hsame.settings]
    exact ih
  | @reset c _ ih =>
    have hsame := c.sameSetup_reset
    rw [hsame.font, hsame.start, hsame.settings]
    exact ih
  | configure hallowed _ ih => exact ⟨ih.1, ih.2.1, hallowed⟩
  | set x value _ ih => exact ih

/-- The index stays in memory, if the glyphs are low enough and no allowed settings
move it past a transfer. -/
theorem Arises.index_le (h : Arises font start allowed c) (hfont : font.toNat ≤ 0xB04)
    (hstays : ∀ s, allowed s → s.dialect.advancesIndex = false) : c.index.toNat ≤ 0xFFF := by
  induction h with
  | new => exact Nat.zero_le _
  | @load c rom _ ih =>
    obtain ⟨memory, kept, hload⟩ := c.load_changes rom
    rw [hload]
    exact ih
  | @step c screen channel random harises ih =>
    obtain ⟨hc, -, hallowed⟩ := harises.setup
    exact Machine.step_index (m := ⟨c, screen, channel⟩) random (hc ▸ hfont) (hstays _ hallowed) ih
  | @reset c _ _ =>
    rw [c.reset_index]
    exact Nat.zero_le _
  | configure _ _ ih => exact ih
  | set x value _ ih => exact ih

end

/-- **Addresses stay in bounds.** Whatever becomes of a processor, it is where its
program starts or at `10FE` at most, and it returns to addresses between `2` and
`1000`. With the glyphs at `B04` at most and settings under which transfers leave the
index alone, the index is at most `FFF`. The next step, on any screen and over any
channel, is the one in exact arithmetic. -/
theorem addresses_bounded (font start : UInt16) (allowed : Settings → Prop) (c : Processor)
    (h : Arises font start allowed c) :
    (c.pc = start ∨ c.pc.toNat ≤ 0x10FE) ∧
    (∀ a ∈ c.stack.live, 2 ≤ a.toNat ∧ a.toNat ≤ 0x1000) ∧
    (font.toNat ≤ 0xB04 → (∀ s, allowed s → s.dialect.advancesIndex = false) → c.index.toNat ≤ 0xFFF) ∧
    ∀ (screen : Screen) (channel : Channel) (random : UInt8),
      Machine.step? ⟨c, screen, channel⟩ random = some (Machine.step ⟨c, screen, channel⟩ random) := by
  refine ⟨?_, h.inBounds.calls, h.index_le, fun screen channel random => Machine.step?_eq _ random⟩
  have hpc := h.inBounds.pc
  rw [h.setup.2.1] at hpc
  exact hpc

/-- An indexed jump as far as one goes: to `FFF` and on by a register that is `FF`. -/
theorem addresses_bounded_jumpIndexed :
    let c := ((new 0xB04 0x200 {}).load [0xBF, 0xFF]).1.set 0 0xFF
    let after := (Machine.step ⟨c, Screen.standard, {}⟩ 0).1.cpu
    Arises 0xB04 0x200 (· = {}) after ∧ after.pc.toNat = 0x10FE ∧ after.index.toNat ≤ 0xFFF ∧
      Machine.step? ⟨after, Screen.standard, {}⟩ 0 = some (Machine.step ⟨after, Screen.standard, {}⟩ 0) := by
  intro c after
  have harises : Arises 0xB04 0x200 (· = {}) after :=
    .step Screen.standard {} 0 (.set 0 0xFF (.load [0xBF, 0xFF] (.new rfl)))
  obtain ⟨-, -, hindex, hexact⟩ := addresses_bounded 0xB04 0x200 (· = {}) after harises
  refine ⟨harises, ?_, hindex (by decide) (by rintro s rfl; rfl), hexact Screen.standard {} 0⟩
  have hloaded : ((new 0xB04 0x200 {}).load [0xBF, 0xFF]).1.memory =
      (Memory.new 0xB04 0x200).withProgram [0xBF, 0xFF] := by
    rw [load_eq, if_pos (by decide)]
    rfl
  have hword : c.memory.readWord 0x200 = some 0xBFFF := by
    show ((new 0xB04 0x200 {}).load [0xBF, 0xFF]).1.memory.readWord 0x200 = some 0xBFFF
    rw [hloaded, Memory.readWord, dif_pos (by decide), Memory.getElem_withProgram, Memory.getElem_withProgram]
    rfl
  obtain ⟨hsettings, hpc⟩ : c.settings = {} ∧ c.pc = 0x200 := by
    obtain ⟨memory, kept, hload⟩ := (new 0xB04 0x200 {}).load_changes [0xBF, 0xFF]
    show ((new 0xB04 0x200 {}).load [0xBF, 0xFF]).1.settings = {} ∧
      ((new 0xB04 0x200 {}).load [0xBF, 0xFF]).1.pc = 0x200
    rw [hload]
    exact ⟨rfl, rfl⟩
  have hregister : c.get 0 = 0xFF := Vector.getElem_set_self (by decide)
  show (Machine.step ⟨c, Screen.standard, {}⟩ 0).1.cpu.pc.toNat = 0x10FE
  -- From here on the cells themselves do not matter.
  generalize c = c at hword hsettings hpc hregister ⊢
  have hgoes : Machine.step ⟨c, Screen.standard, {}⟩ 0 =
      (Machine.fetched ⟨c, Screen.standard, {}⟩ 0xBFFF).execute 0 (.jumpIndexed ⟨0xFFF, by decide⟩) :=
    Machine.step_of_instruction 0 (hpc ▸ hword) (by decide)
  rw [hgoes]
  show ((Machine.fetched ⟨c, Screen.standard, {}⟩ 0xBFFF).cpu.jumpIndexed ⟨0xFFF, by decide⟩).pc.toNat = 0x10FE
  rw [Machine.fetched_cpu, toNat_jumpIndexed_pc]
  show 0xFFF + (c.get (jumpRegister c.settings.dialect ⟨0xFFF, by decide⟩)).toNat = 0x10FE
  rw [hsettings]
  show 0xFFF + (c.get 0).toNat = 0x10FE
  rw [hregister]
  rfl

end Processor

end Chip8

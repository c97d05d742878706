/-
Starting over is as good as starting. Take a processor right after its program
was loaded, run it for any number of steps, and reset it: if the cells outside
the program region are as they were, nothing that happens from then on tells it
from the processor it was (`reset_transparent`).

Resetting does not copy the first state back. It puts the program into program
memory again, which makes memory what it was (`withProgram_withProgram`), and it
leaves old return addresses in the slots above the cursor and the tracer as it
is, neither of which ever shows.
-/
import Chip8.Proofs.Leftovers

namespace Chip8

/-! ## Memory -/

/-- The memories have the same cells outside a region. -/
def Memory.SameOutside (m n : Memory) (r : Region) : Prop :=
  ∀ (i : Nat) (hi : i < memorySize), (∀ s, m.span? r = some s → ¬ (s.start ≤ i ∧ i < s.stop)) →
    m.cells[i] = n.cells[i]

namespace Memory

/-- The program region reaches to the end of memory, so outside of it is before it. -/
theorem sameOutside_program_iff {m n : Memory} :
    m.SameOutside n .program ↔
      ∀ (i : Nat) (hi : i < memorySize), i < m.programBase.val → m.cells[i] = n.cells[i] := by
  refine forall₂_congr fun i hi => ⟨fun h hbelow => h fun s hs hin => ?_, fun h hout => h ?_⟩
  · cases hs
    exact Nat.not_le_of_lt hbelow hin.1
  · exact Nat.lt_of_not_le fun hin => hout _ rfl ⟨hin, hi⟩

theorem sameOutside_withProgram (m : Memory) (rom : List UInt8) : m.SameOutside (m.withProgram rom) .program :=
  sameOutside_program_iff.mpr fun i hi hbelow => by
    rw [getElem_withProgram m rom hi, if_neg (Nat.not_le_of_lt hbelow)]

/-- With the program in it, memory is known from the cells outside. -/
theorem withProgram_congr {m n : Memory} (hc : n.charsetBase = m.charsetBase)
    (hp : n.programBase = m.programBase) (h : m.SameOutside n .program) (rom : List UInt8) :
    n.withProgram rom = m.withProgram rom := by
  have hcells : (n.withProgram rom).cells = (m.withProgram rom).cells := by
    refine Vector.ext fun i hi => ?_
    rw [getElem_withProgram n rom hi, getElem_withProgram m rom hi, hp]
    by_cases hin : m.programBase.val ≤ i
    · rw [if_pos hin, if_pos hin]
    · rw [if_neg hin, if_neg hin]
      exact (sameOutside_program_iff.mp h i hi (Nat.lt_of_not_le hin)).symm
  have hbases : (n.withProgram rom).charsetBase = (m.withProgram rom).charsetBase ∧
      (n.withProgram rom).programBase = (m.withProgram rom).programBase := by simp [hc, hp]
  generalize n.withProgram rom = n' at hcells hbases
  generalize m.withProgram rom = m' at hcells hbases
  cases n'
  cases m'
  simp_all

theorem withProgram_withProgram (m : Memory) (rom : List UInt8) :
    (m.withProgram rom).withProgram rom = m.withProgram rom :=
  withProgram_congr (by simp) (by simp) (m.sameOutside_withProgram rom) rom

end Memory

namespace Processor

/-- The second processor is reached from the first by steps, each on any screen,
over any channel and with any random byte. -/
inductive Reaches (c : Processor) : Processor → Prop
  | refl : Reaches c c
  | step {d : Processor} (screen : Screen) (channel : Channel) (random : UInt8) :
    Reaches c d → Reaches c (Machine.step ⟨d, screen, channel⟩ random).1.cpu

theorem Reaches.sameSetup {c d : Processor} (h : Reaches c d) : SameSetup c d := by
  induction h with
  | refl => exact .refl c
  | step screen channel random _ ih => exact ih.trans (Machine.step_sameSetup ⟨_, screen, channel⟩ random)

/-- Resetting a processor that was started with a program makes it what it was
at the start, the leftovers apart. -/
theorem reset_of_reaches {font start : UInt16} {settings : Settings} {rom : List UInt8} {d : Processor}
    (hload : ((new font start settings).load rom).2 = .ok ())
    (hreach : Reaches ((new font start settings).load rom).1 d)
    (hsame : ((new font start settings).load rom).1.memory.SameOutside d.memory .program) :
    d.reset =
      (((new font start settings).load rom).1.withLeftovers d.stack.clear d.tracer.jumpsFromV0, none) := by
  have hsetup := hreach.sameSetup
  rw [load_eq] at hload hsetup hsame ⊢
  -- Only a program that fits is accepted; it still fits when it is put back.
  by_cases hfits : rom.length ≤ memorySize - (new font start settings).memory.programBase.val
  · rw [if_pos hfits] at hsetup hsame ⊢
    have hrom : d.rom = rom := hsetup.rom
    have hbase : d.memory.programBase = (new font start settings).memory.programBase := by
      rw [hsetup.programBase, Memory.withProgram_programBase]
    have hmemory : d.memory.withProgram rom = (new font start settings).memory.withProgram rom := by
      rw [Memory.withProgram_congr hsetup.charsetBase hsetup.programBase hsame,
        Memory.withProgram_withProgram]
    rw [reset_of_fits (by rw [hrom, hbase]; exact hfits), hrom, hmemory, restarted, hsetup.settings,
      hsetup.font, hsetup.start, hrom, hsetup.tracer_eq]
    rfl
  · rw [if_neg hfits] at hload
    cases hload

end Processor

/-! ## What can be told of a machine -/

/-- Everything about a machine that a run can show: the processor with the live
addresses of its stack, the screen, and the channel with all that was sent,
logged and printed. -/
structure Observation where
  pc : UInt16
  index : UInt16
  v : Registers
  calls : List UInt16
  cycle : Nat
  memory : Memory
  screen : Screen
  channel : Channel

/-- A step, and what happens to the screen and the channel before it. -/
structure Turn where
  between : Screen × Channel → Screen × Channel
  random : UInt8

namespace Machine

def observe (m : Machine) : Observation :=
  { pc := m.cpu.pc, index := m.cpu.index, v := m.cpu.v, calls := m.cpu.stack.live, cycle := m.cpu.cycle
    memory := m.cpu.memory, screen := m.screen, channel := m.channel }

/-- The machine after something happened to its screen and its channel. -/
def interrupted (m : Machine) (f : Screen × Channel → Screen × Channel) : Machine :=
  { m with screen := (f (m.screen, m.channel)).1, channel := (f (m.screen, m.channel)).2 }

def takeTurn (m : Machine) (t : Turn) : Machine × Except Fault Outcome :=
  (m.interrupted t.between).step t.random

/-- What is seen of a machine after each of some turns, with how the step came out. -/
def history (m : Machine) : List Turn → List (Except Fault Outcome × Observation)
  | [] => []
  | t :: rest => ((m.takeTurn t).2, (m.takeTurn t).1.observe) :: (m.takeTurn t).1.history rest

theorem observe_alike {m n : Machine} (h : Alike m n) : n.observe = m.observe := by
  obtain ⟨stack, fromV0, rfl, hlive⟩ := h
  simp only [observe]
  show (⟨_, _, _, stack.live, _, _, _, _⟩ : Observation) = _
  rw [hlive]
  rfl

theorem takeTurn_alike {m n : Machine} (h : Alike m n) (t : Turn) :
    (n.takeTurn t).2 = (m.takeTurn t).2 ∧ Alike (m.takeTurn t).1 (n.takeTurn t).1 := by
  refine step_alike ?_ t.random
  obtain ⟨stack, fromV0, rfl, hlive⟩ := h
  exact ⟨stack, fromV0, rfl, hlive⟩

/-- Machines that differ in leftovers at most have the same history. -/
theorem history_alike {m n : Machine} (h : Alike m n) (turns : List Turn) :
    n.history turns = m.history turns := by
  induction turns generalizing m n with
  | nil => rfl
  | cons t rest ih =>
    obtain ⟨hresult, hnext⟩ := takeTurn_alike h t
    rw [history, history, hresult, observe_alike hnext, ih hnext]

/-- **Starting over is as good as starting.** A processor that was started with
a program, ran for any number of steps and left the cells outside the program
region as they were: reset, it cannot be told from the processor right after the
program was loaded, neither at once nor after any turn. -/
theorem reset_transparent (font start : UInt16) (settings : Settings) (rom : List UInt8)
    (haccepted : ((Processor.new font start settings).load rom).2 = .ok ()) (c : Processor)
    (hreach : Processor.Reaches ((Processor.new font start settings).load rom).1 c)
    (hsame : ((Processor.new font start settings).load rom).1.memory.SameOutside c.memory .program)
    (screen : Screen) (channel : Channel) (turns : List Turn) :
    let fresh : Machine := ⟨((Processor.new font start settings).load rom).1, screen, channel⟩
    let again : Machine := ⟨c.reset.1, screen, channel⟩
    c.reset.2 = none ∧ again.observe = fresh.observe ∧ again.history turns = fresh.history turns := by
  intro fresh again
  have hreset := Processor.reset_of_reaches haccepted hreach hsame
  have hnone : c.reset.2 = none := by rw [hreset]
  have halike : Alike fresh again := by
    refine ⟨c.stack.clear, c.tracer.jumpsFromV0, ?_, ?_⟩
    · show (⟨c.reset.1, screen, channel⟩ : Machine) = _
      rw [hreset]
      rfl
    · show _ = ((Processor.new font start settings).load rom).1.stack.live
      rw [CallStack.live_clear, Processor.load_eq]
      split <;> rfl
  exact ⟨hnone, observe_alike halike, history_alike halike turns⟩

/-- A program that sets v0 to 7, reset after its first instruction. -/
theorem reset_transparent_setByte :
    let fresh := ((Processor.new 0x50 0x200 {}).load [0x60, 0x07]).1
    let ran := (step ⟨fresh, .standard, {}⟩ 0).1.cpu
    let turns := [⟨id, 0⟩, ⟨id, 0⟩]
    ran.get 0 = 7 ∧ ran.reset.2 = none ∧
      (⟨ran.reset.1, .standard, {}⟩ : Machine).observe = (⟨fresh, .standard, {}⟩ : Machine).observe ∧
      (⟨ran.reset.1, .standard, {}⟩ : Machine).history turns =
        (⟨fresh, .standard, {}⟩ : Machine).history turns := by
  intro fresh ran turns
  have hload : (Processor.new 0x50 0x200 {}).load [0x60, 0x07] =
      ({ Processor.new 0x50 0x200 {} with
          memory := (Memory.new 0x50 0x200).withProgram [0x60, 0x07], rom := [0x60, 0x07] }, .ok ()) := by
    rw [Processor.load_eq, if_pos (by decide)]
    rfl
  have hword : fresh.memory.readWord fresh.pc = some 0x6007 := by
    simp only [fresh, hload]
    rw [Memory.readWord, dif_pos (by decide), Memory.getElem_withProgram, Memory.getElem_withProgram]
    rfl
  have hstep := step_of_instruction (m := ⟨fresh, .standard, {}⟩) 0 hword
    (show Instruction.ofWord? 0x6007 = some (.setByte 0 7) by decide)
  have hran : ran = (execute (fetched ⟨fresh, .standard, {}⟩ 0x6007) 0 (.setByte 0 7)).1.cpu := by
    simp only [ran, hstep]
  have hmemory : ran.memory = fresh.memory := by
    rw [hran]
    show (fetched ⟨fresh, .standard, {}⟩ 0x6007).cpu.memory = fresh.memory
    rw [fetched_cpu]
  refine ⟨?_, reset_transparent 0x50 0x200 {} [0x60, 0x07] ?_ ran (.step _ _ _ .refl) ?_ _ _ turns⟩
  · rw [hran]
    rfl
  · rw [hload]
  · intro i hi _
    rw [hmemory]
end Machine

end Chip8

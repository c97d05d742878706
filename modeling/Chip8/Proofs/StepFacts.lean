/-
Facts about one step. `fetched` is the machine as an instruction finds it: the
cycle counted, the trace printed if asked for, the program counter past the
instruction. `step_cases` says the four ways a step can go; every statement
about whole runs starts from it.
-/
import Chip8.Machine
import Chip8.Proofs.ProcessorFacts

namespace Chip8

/-- The instruction is no call, return or jump, so it leaves the call stack and
the cycle count alone. -/
def Instruction.leavesCalls : Instruction → Bool
  | .ret | .call _ | .jump _ => false
  | _ => true

namespace Machine

open Processor (SameSetup Kept)

@[simp] theorem updateProcessor_cpu (m : Machine) (f : Processor → Processor) :
    (m.updateProcessor f).cpu = f m.cpu := rfl

@[simp] theorem note_cpu (m : Machine) (l : Level) (o : Origin) (t : String) : (m.note l o t).cpu = m.cpu := rfl
@[simp] theorem note_screen (m : Machine) (l : Level) (o : Origin) (t : String) :
    (m.note l o t).screen = m.screen := rfl

@[simp] theorem reset_cpu (m : Machine) : m.reset.cpu = m.cpu.reset.1 := by
  unfold reset
  split <;> simp [*]

@[simp] theorem reset_screen (m : Machine) : m.reset.screen = m.screen := by
  unfold reset
  split <;> simp

/-- Resetting logs at most a warning. -/
theorem reset_channel (m : Machine) :
    m.reset.channel = m.channel ∨ ∃ text, m.reset.channel = m.channel.note .warn .processor text := by
  unfold reset
  split
  · exact .inl rfl
  · exact .inr ⟨_, rfl⟩

/-! ## Before an instruction is executed -/

/-- Whether a word is traced. -/
def traces (m : Machine) (word : UInt16) : Bool := m.cpu.settings.debug && word != selfJump m.cpu.pc

/-- What the listing names as the offset of indexed jumps once a word was fetched. -/
def listsFromV0 (m : Machine) (word : UInt16) : Bool :=
  if m.traces word then m.cpu.settings.dialect.jumpsFromV0 else m.cpu.tracer.jumpsFromV0

/-- What fetching a word adds to the printed lines. -/
def traceLines (m : Machine) (word : UInt16) : Array String :=
  if m.traces word then
    #[({ m.cpu.tracer with jumpsFromV0 := m.cpu.settings.dialect.jumpsFromV0 }).trace
        (m.cpu.cycle + 1) m.cpu.pc word]
  else #[]

/-- The machine as an instruction finds it. -/
def fetched (m : Machine) (word : UInt16) : Machine :=
  ((m.updateProcessor fun c => { c with cycle := c.cycle + 1 }).printTrace m.cpu.pc word).updateProcessor
    Processor.advance

/-- Fetching counts, traces and passes a word, and changes nothing else. -/
theorem fetched_eq (m : Machine) (word : UInt16) :
    m.fetched word =
      { m with
        cpu := { m.cpu with
          cycle := m.cpu.cycle + 1, pc := m.cpu.pc + 2
          tracer := { m.cpu.tracer with jumpsFromV0 := m.listsFromV0 word } }
        channel := { m.channel with journal := { m.channel.journal with
          printed := m.channel.journal.printed ++ m.traceLines word } } } := by
  cases h : m.traces word with
  | true =>
    have htrace : (m.cpu.settings.debug && word != selfJump m.cpu.pc) = true := h
    simp [fetched, printTrace, updateProcessor, updateChannel, Processor.advance, Channel.print,
      Journal.print, listsFromV0, traceLines, h, htrace]
  | false =>
    have htrace : (m.cpu.settings.debug && word != selfJump m.cpu.pc) = false := h
    simp [fetched, printTrace, updateProcessor, Processor.advance, listsFromV0, traceLines, h, htrace]

@[simp] theorem fetched_cpu (m : Machine) (word : UInt16) :
    (m.fetched word).cpu = { m.cpu with
      cycle := m.cpu.cycle + 1, pc := m.cpu.pc + 2
      tracer := { m.cpu.tracer with jumpsFromV0 := m.listsFromV0 word } } := by
  rw [fetched_eq]

@[simp] theorem fetched_screen (m : Machine) (word : UInt16) : (m.fetched word).screen = m.screen := by
  rw [fetched_eq]

@[simp] theorem fetched_shared (m : Machine) (word : UInt16) :
    (m.fetched word).channel.shared = m.channel.shared := by
  rw [fetched_eq]

@[simp] theorem fetched_link (m : Machine) (word : UInt16) : (m.fetched word).channel.link = m.channel.link := by
  rw [fetched_eq]

@[simp] theorem fetched_sends (m : Machine) (word : UInt16) :
    (m.fetched word).channel.journal.sends = m.channel.journal.sends := by
  rw [fetched_eq]

/-! ## Drawing -/

/-- The points that a sprite covers when it is drawn at (vX, vY). -/
def drawnPoints (m : Machine) (x y : Register) (rows : Nibble) : List (Nat × Nat) :=
  Processor.spritePoints ((m.cpu.get x).toNat % m.screen.width) ((m.cpu.get y).toNat % m.screen.height)
    (m.cpu.spriteRows rows.val)

theorem draw_eq {m : Machine} (h : ¬ (m.screen.width = 0 ∨ m.screen.height = 0)) (x y : Register)
    (rows : Nibble) :
    m.draw x y rows =
      ({ m with screen := (m.screen.flipAll (m.drawnPoints x y rows)).1,
                cpu := m.cpu.setFlag (m.screen.flipAll (m.drawnPoints x y rows)).2 }.showScreen,
       .ok .continued) := by
  unfold draw
  rw [if_neg h]
  rfl

/-! ## What an instruction leaves alone -/

theorem execute_kept (m : Machine) (random : UInt8) {i : Instruction} (h : i.leavesCalls = true) :
    Kept m.cpu (m.execute random i).1.cpu := by
  cases i with
  | ret | call | jump => cases h
  | clearScreen | setDelay | setSound => exact .refl m.cpu
  | skipIfByte | skipUnlessByte | skipIfEqual | skipUnlessEqual | skipIfKey | skipUnlessKey =>
    exact m.cpu.kept_skipIf _
  | setByte x | addByte x | random x | getDelay x => exact m.cpu.kept_set x _
  | compute op x y => exact m.cpu.kept_compute op x y
  | setIndex => exact .of_parts m.cpu _ _ _ _ rfl rfl
  | jumpIndexed target => exact m.cpu.kept_jumpIndexed target
  | draw x y rows =>
    show Kept m.cpu (m.draw x y rows).1.cpu
    unfold draw
    split
    · exact .refl m.cpu
    · exact m.cpu.kept_set _ _
  | awaitKey x =>
    show Kept m.cpu (m.awaitKey x).1.cpu
    unfold awaitKey
    split
    · exact m.cpu.kept_set x _
    · exact m.cpu.kept_rewind
  | addIndex x => exact m.cpu.kept_addIndex x
  | glyph x => exact m.cpu.kept_pointAtGlyph x
  | decimal x => exact m.cpu.kept_writeDecimal x
  | store x => exact m.cpu.kept_storeRegisters x
  | load x => exact m.cpu.kept_loadRegisters x

theorem returnToCaller_sameSetup (m : Machine) : SameSetup m.cpu m.returnToCaller.cpu := by
  unfold returnToCaller
  split <;> exact ⟨rfl, rfl, rfl, rfl, rfl, rfl, rfl, rfl⟩

theorem call_sameSetup (m : Machine) (target : Address) : SameSetup m.cpu (m.call target).cpu := by
  unfold call
  split <;> exact ⟨rfl, rfl, rfl, rfl, rfl, rfl, rfl, rfl⟩

theorem restart_cpu (m : Machine) : m.restart.cpu = m.cpu.reset.1 := m.reset_cpu

theorem jump_sameSetup (m : Machine) (target : Address) : SameSetup m.cpu (m.jump target).1.cpu := by
  unfold jump
  dsimp only
  split
  · exact (m.cpu.kept_jump target).toSameSetup
  split
  · exact .refl m.cpu
  split
  · rw [restart_cpu]
    exact m.cpu.sameSetup_reset
  · exact (m.cpu.kept_jump target).toSameSetup

theorem execute_sameSetup (m : Machine) (random : UInt8) (i : Instruction) :
    SameSetup m.cpu (m.execute random i).1.cpu := by
  by_cases h : i.leavesCalls = true
  · exact (m.execute_kept random h).toSameSetup
  · cases i with
    | ret => exact m.returnToCaller_sameSetup
    | call target => exact m.call_sameSetup target
    | jump target => exact m.jump_sameSetup target
    | _ => exact absurd rfl h

/-! ## The ways a step can go -/

/-- What is logged of a word that stands for no instruction. -/
def ignoredText (word address : UInt16) : String :=
  "ignoring unknown instruction " ++ Text.hex 4 word.toNat ++ " at " ++ Text.hex 3 address.toNat

theorem step_of_no_word {m : Machine} (random : UInt8) (h : m.cpu.memory.readWord m.cpu.pc = none) :
    m.step random = (m, .error (.fetchOutOfBounds m.cpu.pc)) := by
  simp only [step, h]

theorem step_of_instruction {m : Machine} {word : UInt16} {i : Instruction} (random : UInt8)
    (h : m.cpu.memory.readWord m.cpu.pc = some word) (hi : Instruction.ofWord? word = some i) :
    m.step random = (m.fetched word).execute random i := by
  simp only [step, h, hi, fetched]

theorem step_of_machineCode {m : Machine} {word : UInt16} (random : UInt8)
    (h : m.cpu.memory.readWord m.cpu.pc = some word) (hi : Instruction.ofWord? word = none)
    (hw : word.toNat < 0x1000) :
    m.step random = (m.fetched word, .error (.machineCode word m.cpu.pc)) := by
  simp only [step, h, hi, if_pos hw, fetched]

theorem step_of_ignored {m : Machine} {word : UInt16} (random : UInt8)
    (h : m.cpu.memory.readWord m.cpu.pc = some word) (hi : Instruction.ofWord? word = none)
    (hw : ¬ word.toNat < 0x1000) :
    m.step random =
      ((m.fetched word).note .trace .processor (ignoredText word m.cpu.pc), .ok .continued) := by
  simp only [step, h, hi, if_neg hw]
  rfl

/-- **The ways a step can go.** No whole word at the program counter; an
instruction; a native routine; a word that stands for nothing. -/
theorem step_cases (m : Machine) (random : UInt8) :
    (m.cpu.memory.readWord m.cpu.pc = none ∧
      m.step random = (m, .error (.fetchOutOfBounds m.cpu.pc))) ∨
    (∃ word i, m.cpu.memory.readWord m.cpu.pc = some word ∧ Instruction.ofWord? word = some i ∧
      m.step random = (m.fetched word).execute random i) ∨
    (∃ word, m.cpu.memory.readWord m.cpu.pc = some word ∧ Instruction.ofWord? word = none ∧
      word.toNat < 0x1000 ∧ m.step random = (m.fetched word, .error (.machineCode word m.cpu.pc))) ∨
    (∃ word, m.cpu.memory.readWord m.cpu.pc = some word ∧ Instruction.ofWord? word = none ∧
      ¬ word.toNat < 0x1000 ∧ m.step random =
        ((m.fetched word).note .trace .processor (ignoredText word m.cpu.pc), .ok .continued)) := by
  cases h : m.cpu.memory.readWord m.cpu.pc with
  | none => exact .inl ⟨rfl, step_of_no_word random h⟩
  | some word =>
    right
    cases hi : Instruction.ofWord? word with
    | some i => exact .inl ⟨word, i, rfl, hi, step_of_instruction random h hi⟩
    | none =>
      right
      by_cases hw : word.toNat < 0x1000
      · exact .inl ⟨word, rfl, hi, hw, step_of_machineCode random h hi hw⟩
      · exact .inr ⟨word, rfl, hi, hw, step_of_ignored random h hi hw⟩

theorem fetched_sameSetup (m : Machine) (word : UInt16) : SameSetup m.cpu (m.fetched word).cpu := by
  rw [fetched_cpu]
  exact ⟨rfl, rfl, rfl, rfl, rfl, rfl, rfl, rfl⟩

/-- No step changes the setup. -/
theorem step_sameSetup (m : Machine) (random : UInt8) : SameSetup m.cpu (m.step random).1.cpu := by
  rcases step_cases m random with ⟨-, hs⟩ | ⟨word, i, -, -, hs⟩ | ⟨word, -, -, -, hs⟩ | ⟨word, -, -, -, hs⟩
  · rw [hs]; exact .refl m.cpu
  · rw [hs]; exact (m.fetched_sameSetup word).trans (execute_sameSetup _ random i)
  · rw [hs]; exact m.fetched_sameSetup word
  · rw [hs]; exact m.fetched_sameSetup word

end Machine

end Chip8
